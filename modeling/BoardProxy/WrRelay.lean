import BoardProxy.WrFraming
import BoardProxy.WrSafety

/-!
# Both directions of a WindRiver connection

The calls of the two watchers of one connection, in any order. Towards the target
the bytes received in the `DATA` state are always the frames of the datagrams
written so far, followed by the buffer. Towards the client every datagram is framed
the same way, but a datagram without payload looks like the end of the connection.
-/

namespace BoardProxy

inductive WrCall
  | client (io : WrClientIo)
  | target (io : WrTargetIo)

def WrCall.bytes : WrCall → Bytes
  | .client io => io.bytes
  | .target _ => []

def WrCall.datagram (x : Bytes) : WrCall := .target ⟨.ok x, .ok 4, .ok x.length⟩

namespace WrProxy

open BoardProxy.Frame (splitter)

variable {env : Env} {ip : Option Bytes} {io : WrClientIo} {c : WrCall} {cs : List WrCall}
  {p q t : WrProxy}

def call (env : Env) (ip : Option Bytes) (p : WrProxy) : WrCall → Outcome WrProxy
  | .client io => p.onClientData env io ip
  | .target io => p.onTargetData io

/-- One call on an open connection. The kernel delivers no more bytes than it is
asked for. -/
structure Calls (env : Env) (ip : Option Bytes) (p : WrProxy) (c : WrCall) (q : WrProxy) :
    Prop where
  opened : p.closed = false
  fits : c.bytes.length ≤ capacity - p.bufC2t.length
  result : p.call env ip c = .returned q

def Forwards (p : WrProxy) (bytes : Bytes) (q : WrProxy) : Prop :=
  (q.sent = p.sent ∧ q.bufC2t = p.bufC2t ++ bytes) ∨
    ∃ x, x.length < 4294967296 ∧ q.sent = p.sent ++ [x] ∧ p.bufC2t ++ bytes = frame x ++ q.bufC2t

theorem forwardFrame_of_error {e : Errno} {y : Bytes × Bytes} (hw : io.writeTarget = .error e)
    (h : Frame.split p.bufC2t = some y) : p.forwardFrame io = p.close := by
  unfold forwardFrame
  split
  · rename_i a b c d body hb
    rw [hb] at h
    simp only [Frame.split] at h
    split_ifs at h with hlt
    simp only [hlt, ↓reduceIte, hw]
  · rename_i hb
    obtain ⟨_, hx⟩ := Frame.split_eq_some.1 h
    exact absurd hx (hb _ _ _ _ _)

theorem forwards_forwardFrame (p : WrProxy) (bytes : Bytes) :
    Forwards p bytes (forwardFrame io { p with bufC2t := p.bufC2t ++ bytes }) := by
  cases hs : Frame.split (p.bufC2t ++ bytes) with
  | none =>
    rw [forwardFrame_of_none hs]
    exact Or.inl ⟨rfl, rfl⟩
  | some y =>
    obtain ⟨x, rest⟩ := y
    cases hw : io.writeTarget with
    | error e =>
      rw [forwardFrame_of_error hw hs]
      exact Or.inl ⟨rfl, rfl⟩
    | ok =>
      obtain ⟨hx, hbuf⟩ := Frame.split_eq_some.1 hs
      rw [forwardFrame_of_some hw hs]
      exact Or.inr ⟨x, hx, rfl, hbuf⟩

theorem state_forwardFrame : (p.forwardFrame io).state = p.state := by
  unfold forwardFrame
  split
  · dsimp only
    split_ifs
    · rfl
    · split <;> rfl
  · rfl

theorem onClientData_data (hst : p.state = .data)
    (hfit : io.bytes.length ≤ capacity - p.bufC2t.length)
    (h : p.onClientData env io ip = .returned q) : q.state = .data ∧ Forwards p io.bytes q := by
  cases hr : io.read with
  | error e =>
    have hb : io.bytes = [] := by simp [WrClientIo.bytes, hr, Except.toOption]
    simp only [onClientData, hr, Outcome.returned.injEq] at h
    rw [← h, hb]
    exact ⟨hst, Or.inl ⟨rfl, (List.append_nil _).symm⟩⟩
  | ok bytes =>
    have hb : bytes = io.bytes := by simp [WrClientIo.bytes, hr, Except.toOption]
    simp only [onClientData, hr, hb, List.take_of_length_le hfit, hst] at h
    by_cases hnil : io.bytes = []
    · rw [if_pos hnil, Outcome.returned.injEq] at h
      rw [← h, hnil]
      exact ⟨hst, Or.inl ⟨rfl, (List.append_nil _).symm⟩⟩
    · rw [if_neg hnil, Outcome.returned.injEq, ← hst] at h
      rw [← h]
      exact ⟨state_forwardFrame.trans hst, forwards_forwardFrame p io.bytes⟩

theorem Calls.forwards (h : Calls env ip p c q) (hst : p.state = .data) :
    q.state = .data ∧ Forwards p c.bytes q := by
  cases c with
  | client io => exact onClientData_data hst h.fits h.result
  | target io =>
    obtain ⟨hs, hsent, hbuf⟩ := onTargetData_returned h.result
    refine ⟨hs.trans hst, Or.inl ⟨hsent, ?_⟩⟩
    rw [hbuf]
    exact (List.append_nil _).symm

structure Framed (p : WrProxy) (cs : List WrCall) (ds : List Bytes) (q : WrProxy) : Prop where
  sent : q.sent = p.sent ++ ds
  stream : cs.flatMap WrCall.bytes = ds.flatMap frame ++ q.bufC2t
  room : q.bufC2t.length ≤ capacity
  small : ∀ x ∈ ds, (frame x).length ≤ capacity

namespace Framed

variable {ds : List Bytes}

theorem room_read (h : Framed p cs ds t) (hc : Calls env ip t c q) :
    (t.bufC2t ++ c.bytes).length ≤ capacity := by
  have hroom := h.room
  have hfits := hc.fits
  rw [List.length_append]
  omega

theorem step (h : Framed p cs ds t) (hst : t.state = .data) (hc : Calls env ip t c q) :
    ∃ es, Framed p (cs ++ [c]) es q := by
  have hread := h.room_read hc
  have hbytes : (cs ++ [c]).flatMap WrCall.bytes = ds.flatMap frame ++ (t.bufC2t ++ c.bytes) := by
    rw [List.flatMap_append, h.stream, List.flatMap_singleton, List.append_assoc]
  rcases (hc.forwards hst).2 with ⟨hsent, hbuf⟩ | ⟨x, _, hsent, hbuf⟩
  · refine ⟨ds, hsent.trans h.sent, ?_, ?_, h.small⟩
    · rw [hbytes, hbuf]
    · rwa [hbuf]
  · rw [hbuf, List.length_append] at hread
    refine ⟨ds ++ [x], ?_, ?_, ?_, ?_⟩
    · rw [hsent, h.sent, List.append_assoc]
    · rw [hbytes, hbuf, List.flatMap_append, List.flatMap_singleton, List.append_assoc]
    · omega
    · intro y hy
      rcases List.mem_append.1 hy with hy | hy
      · exact h.small y hy
      · rw [List.mem_singleton.1 hy]
        omega

theorem items (h : Framed p cs ds q) : ds <+: splitter.items (cs.flatMap WrCall.bytes) := by
  rw [h.stream, Splitter.items_flatMap_append]
  · exact List.prefix_append _ _
  · intro x hx t
    have hsmall := h.small x hx
    rw [Frame.length_frame, capacity] at hsmall
    exact Frame.split_frame (by omega) t

end Framed

theorem data_run (hst : p.state = .data) (h : Run (Calls env ip) p cs q) : q.state = .data :=
  h.invariant (fun t => t.state = .data) hst fun _ _ _ ht hc => (hc.forwards ht).1

theorem framed_run (hst : p.state = .data) (hbuf : p.bufC2t = []) (h : Run (Calls env ip) p cs q) :
    ∃ ds, Framed p cs ds q := by
  refine h.history (fun cs q => ∃ ds, Framed p cs ds q) ⟨[], ?_, ?_, ?_, ?_⟩ ?_
  · exact (List.append_nil _).symm
  · exact hbuf.symm
  · rw [hbuf]
    exact Nat.zero_le _
  · exact fun x hx => absurd hx List.not_mem_nil
  · rintro cs t c u hr ⟨ds, hds⟩ hc
    exact hds.step (data_run hst hr) hc

/-- Whatever the client sends, in whatever pieces: what was received is the frames of
the datagrams written so far and the buffer. The next read stays within the buffer,
and so does what it erases. -/
theorem run_stream_framed (hst : p.state = .data) (hbuf : p.bufC2t = [])
    (h : Run (Calls env ip) p cs q) :
    (∃ ds, Framed p cs ds q ∧ ds <+: splitter.items (cs.flatMap WrCall.bytes)) ∧
      ∀ c r, Calls env ip q c r →
        (q.bufC2t ++ c.bytes).length ≤ capacity ∧ Forwards q c.bytes r := by
  have hdata := data_run hst h
  obtain ⟨ds, hds⟩ := framed_run hst hbuf h
  exact ⟨⟨ds, hds, hds.items⟩, fun c r hc => ⟨hds.room_read hc, (hc.forwards hdata).2⟩⟩

theorem run_stream_framed_refused :
    let cs : List WrCall := [.client (Sample.read [0, 0, 0, 1]), .target ⟨.ok [9], .ok 4, .ok 1⟩,
      .client (Sample.read [7, 0, 0, 0, 0]),
      .client ⟨.ok [0, 0, 0, 1, 5], .error 90, .ok (), .ok 3, .ok 0⟩]
    ∃ q, Run (Calls Sample.env none) ⟨.data, [], none, [], [], false⟩ cs q ∧ q.sent = [[7]] ∧
      ∃ ds, Framed ⟨.data, [], none, [], [], false⟩ cs ds q := by
  have hrun : Run (Calls Sample.env none) ⟨.data, [], none, [], [], false⟩
      ([] ++ [.client (Sample.read [0, 0, 0, 1])] ++ [.target ⟨.ok [9], .ok 4, .ok 1⟩] ++
        [.client (Sample.read [7, 0, 0, 0, 0])] ++
        [.client ⟨.ok [0, 0, 0, 1, 5], .error 90, .ok (), .ok 3, .ok 0⟩])
      ⟨.data, [0, 0, 0, 0, 0, 0, 0, 1, 5], none, [[7]], [0, 0, 0, 1, 9], true⟩ := by
    refine .snoc (t := ⟨.data, [0, 0, 0, 0], none, [[7]], [0, 0, 0, 1, 9], false⟩)
      (.snoc (t := ⟨.data, [0, 0, 0, 1], none, [], [0, 0, 0, 1, 9], false⟩)
        (.snoc (t := ⟨.data, [0, 0, 0, 1], none, [], [], false⟩) (.snoc .nil ?_) ?_) ?_) ?_
    · exact ⟨rfl, by decide, rfl⟩
    · exact ⟨rfl, by decide, rfl⟩
    · exact ⟨rfl, by decide, rfl⟩
    · exact ⟨rfl, by decide, rfl⟩
  obtain ⟨⟨ds, hds, _⟩, _⟩ := run_stream_framed rfl rfl hrun
  exact ⟨_, hrun, rfl, ds, hds⟩

theorem call_datagram {x : Bytes} (hlen : x.length ≤ 65507) :
    p.call env ip (.datagram x) =
      .returned (if x = [] then p.close else { p with toClient := p.toClient ++ frame x }) := by
  have htake : x.take targetBufferSize = x :=
    List.take_of_length_le (hlen.trans (by decide))
  have hword : (be32 x.length).take 4 = be32 x.length := List.take_of_length_le (by simp)
  simp only [call, WrCall.datagram, onTargetData, htake]
  split_ifs with hx
  · rfl
  · simp only [writeClient_ok, Outcome.returned_bind, wrote, hword, List.take_length, frame,
      List.append_assoc]

variable {x : Bytes} {xs : List Bytes}

theorem datagrams_run (hlen : ∀ x ∈ xs, x.length ≤ 65507) (hne : [] ∉ xs) (hp : p.closed = false) :
    Run (Calls env ip) p (xs.map .datagram)
      { p with toClient := p.toClient ++ xs.flatMap frame } := by
  induction xs using List.reverseRecOn with
  | nil =>
    rw [List.flatMap_nil, List.append_nil]
    exact .nil
  | append_singleton xs x ih =>
    have hx : x ≠ [] := by
      rintro rfl
      exact hne (List.mem_append_right _ (List.mem_singleton_self _))
    rw [List.map_append]
    refine .snoc (ih (fun y hy => hlen y (List.mem_append_left _ hy))
      fun hmem => hne (List.mem_append_left _ hmem)) ⟨hp, Nat.zero_le _, ?_⟩
    rw [call_datagram (hlen x (List.mem_append_right _ (List.mem_singleton_self _))), if_neg hx,
      List.flatMap_append, List.flatMap_singleton, List.append_assoc]

theorem opened_run (h : Run (Calls env ip) p cs q) (hq : q.closed = false) : .datagram [] ∉ cs := by
  refine h.history (fun cs q => q.closed = false → .datagram [] ∉ cs) ?_ ?_ hq
  · exact fun _ => List.not_mem_nil
  · intro cs t c u _ ih hc hu hmem
    rcases List.mem_append.1 hmem with hmem | hmem
    · exact ih hc.opened hmem
    · have hres := hc.result
      rw [← List.mem_singleton.1 hmem, call_datagram (Nat.zero_le _), if_pos rfl,
        Outcome.returned.injEq] at hres
      rw [← hres] at hu
      cases hu

theorem iterate_forwardFrame (hw : io.writeTarget = .ok ()) (hlen : ∀ x ∈ xs, x.length ≤ 65507)
    (hbuf : p.bufC2t = xs.flatMap frame) :
    (forwardFrame io)^[xs.length] p = { p with sent := p.sent ++ xs, bufC2t := [] } := by
  induction xs generalizing p with
  | nil =>
    have hnil : p.bufC2t = [] := hbuf
    rw [List.append_nil, ← hnil]
    rfl
  | cons x xs ih =>
    have hx := hlen x List.mem_cons_self
    have hs : Frame.split p.bufC2t = some (x, xs.flatMap frame) := by
      rw [hbuf, List.flatMap_cons]
      exact Frame.split_frame (by omega) _
    rw [List.length_cons, Function.iterate_succ_apply, forwardFrame_of_some hw hs,
      ih (fun y hy => hlen y (List.mem_cons_of_mem _ hy)) rfl, List.append_assoc,
      List.singleton_append]

/-- The client gets the frames of the datagrams. The `DATA` branch, applied as often
as there are datagrams, takes them apart again. -/
structure Conveyed (p : WrProxy) (xs : List Bytes) (q : WrProxy) : Prop where
  opened : q.closed = false
  written : q.toClient = p.toClient ++ xs.flatMap frame
  decoded : ∀ io t, io.writeTarget = .ok () → p.toClient ++ t.bufC2t = q.toClient →
    (forwardFrame io)^[xs.length] t = { t with sent := t.sent ++ xs, bufC2t := [] }

/-- Whatever the target sends is conveyed exactly if no datagram is empty. -/
theorem datagrams_conveyed_iff (hp : p.closed = false) (hlen : ∀ x ∈ xs, x.length ≤ 65507) :
    (∃ q, Run (Calls env ip) p (xs.map .datagram) q ∧ Conveyed p xs q) ↔ [] ∉ xs := by
  constructor
  · rintro ⟨q, hrun, hq⟩ hmem
    exact opened_run hrun hq.opened (List.mem_map_of_mem hmem)
  · intro hne
    refine ⟨_, datagrams_run hlen hne hp, hp, rfl, fun io t hw ht => ?_⟩
    exact iterate_forwardFrame hw hlen (List.append_cancel_left ht)

theorem datagrams_conveyed_two : ∃ q,
    Run (Calls Sample.env none) new ([[1], [2, 3]].map .datagram) q ∧
      Conveyed new [[1], [2, 3]] q :=
  (datagrams_conveyed_iff rfl (by decide)).2 (by decide)

/-- An empty datagram ends the connection, and its frame is never written. -/
theorem empty_datagram_closes : ∃ q,
    Run (Calls Sample.env none) new [.datagram [1], .datagram []] q ∧
      q.closed = true ∧ q.toClient = frame [1] := by
  refine ⟨⟨.command, [], none, [], [0, 0, 0, 1, 1], true⟩, ?_, rfl, by decide⟩
  refine .snoc (t := ⟨.command, [], none, [], [0, 0, 0, 1, 1], false⟩) (.snoc .nil ?_) ?_
  · exact ⟨rfl, by decide, rfl⟩
  · exact ⟨rfl, by decide, rfl⟩

end WrProxy
end BoardProxy
