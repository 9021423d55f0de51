import BoardProxy.EventLoop
import BoardProxy.StreamSplitter

/-!
# The frames of a client's stream

In the `DATA` state the datagrams written so far, together with the complete frames
that are still in the buffer, are always the frames that were received: `Accounts`
holds of every run. A call forwards one frame at most, though. The buffer is free of
complete frames after every call exactly if no read completes two of them.
-/

namespace BoardProxy
namespace WrProxy

open BoardProxy.Frame (splitter)

variable {env : Env} {ip : Option Bytes} {io : WrClientIo} {ios : List WrClientIo}
  {p q t : WrProxy} {x rest : Bytes} {ps : List Bytes}

/-- One call, while the client keeps its end open and the target takes every
datagram. The kernel delivers no more bytes than it is asked for, and none only if
it is asked for none. -/
structure Receives (env : Env) (ip : Option Bytes) (p : WrProxy) (io : WrClientIo) (q : WrProxy) :
    Prop where
  opened : p.closed = false
  write : io.writeTarget = .ok ()
  read : io.read = .ok io.bytes
  fits : io.bytes.length ≤ capacity - p.bufC2t.length
  full : io.bytes = [] → capacity ≤ p.bufC2t.length
  result : p.onClientData env io ip = .returned q

def stream (p : WrProxy) (ios : List WrClientIo) : Bytes := p.bufC2t ++ ios.flatMap WrClientIo.bytes

theorem stream_snoc : p.stream (ios ++ [io]) = p.stream ios ++ io.bytes := by
  simp [stream]

theorem forwardFrame_of_none (h : Frame.split p.bufC2t = none) : p.forwardFrame io = p := by
  unfold forwardFrame
  split
  · rename_i a b c d body hb
    rw [hb] at h
    simp only [Frame.split] at h
    split_ifs at h with hlt
    exact if_pos hlt
  · rfl

theorem forwardFrame_of_some (hw : io.writeTarget = .ok ())
    (h : Frame.split p.bufC2t = some (x, rest)) :
    p.forwardFrame io = { p with sent := p.sent ++ [x], bufC2t := rest } := by
  unfold forwardFrame
  split
  · rename_i a b c d body hb
    rw [hb] at h
    simp only [Frame.split] at h
    split_ifs at h with hlt
    obtain ⟨rfl, rfl⟩ := Prod.mk.inj (Option.some.inj h)
    simp only [hlt, ↓reduceIte, hw]
  · rename_i hb
    obtain ⟨_, hx⟩ := Frame.split_eq_some.1 h
    exact absurd hx (hb _ _ _ _ _)

theorem Receives.eq (h : Receives env ip p io q) (hst : p.state = .data) :
    (io.bytes = [] ∧ q = p.close) ∨
      io.bytes ≠ [] ∧ q = forwardFrame io { p with bufC2t := p.bufC2t ++ io.bytes } := by
  have hr := h.result
  simp only [onClientData, h.read, List.take_of_length_le h.fits, hst] at hr
  by_cases hb : io.bytes = []
  · rw [if_pos hb] at hr
    exact Or.inl ⟨hb, (Outcome.returned.inj hr).symm⟩
  · rw [if_neg hb] at hr
    refine Or.inr ⟨hb, ?_⟩
    rw [hst]
    exact (Outcome.returned.inj hr).symm

structure Accounts (p : WrProxy) (ios : List WrClientIo) (q : WrProxy) : Prop where
  state : q.state = .data
  sent : q.sent ++ splitter.items q.bufC2t = p.sent ++ splitter.items (p.stream ios)
  pending : splitter.pending q.bufC2t = splitter.pending (p.stream ios)

namespace Accounts

theorem receive (h : Accounts p ios q) :
    Accounts p (ios ++ [io]) { q with bufC2t := q.bufC2t ++ io.bytes } := by
  refine ⟨h.state, ?_, ?_⟩
  · rw [stream_snoc, Splitter.items_append, Splitter.items_append (p.stream ios), ← h.pending,
      ← List.append_assoc, ← List.append_assoc, h.sent]
  · rw [stream_snoc, Splitter.pending_append, Splitter.pending_append (p.stream ios), h.pending]

theorem forward (h : Accounts p ios q) (hw : io.writeTarget = .ok ()) :
    Accounts p ios (q.forwardFrame io) := by
  cases hs : Frame.split q.bufC2t with
  | none => rwa [forwardFrame_of_none hs]
  | some y =>
    obtain ⟨x, rest⟩ := y
    have hitems : splitter.items q.bufC2t = x :: splitter.items rest := Splitter.items_of_some hs
    have hpend : splitter.pending q.bufC2t = splitter.pending rest := Splitter.pending_of_some hs
    rw [forwardFrame_of_some hw hs]
    refine ⟨h.state, ?_, ?_⟩
    · rw [List.append_assoc, List.singleton_append, ← hitems, h.sent]
    · rw [← hpend, h.pending]

theorem step (h : Accounts p ios t) (hr : Receives env ip t io q) :
    Accounts p (ios ++ [io]) q := by
  rcases hr.eq h.state with ⟨hb, rfl⟩ | ⟨_, rfl⟩
  · have hsame : p.stream (ios ++ [io]) = p.stream ios := by rw [stream_snoc, hb, List.append_nil]
    refine ⟨h.state, ?_, ?_⟩
    · rw [hsame]
      exact h.sent
    · rw [hsame]
      exact h.pending
  · exact h.receive.forward hr.write

end Accounts

theorem accounts_run (hst : p.state = .data) (h : Run (Receives env ip) p ios q) :
    Accounts p ios q := by
  refine h.history (Accounts p) ?_ fun ios t io u _ ih hr => ih.step hr
  refine ⟨hst, ?_, ?_⟩ <;> simp [stream]

/-- What the client may expect after each call: no complete frame waits in the
buffer, the frames received completely are sent, and the next read has room. -/
structure Served (p : WrProxy) (ps : List Bytes) (ios : List WrClientIo) (q : WrProxy) : Prop where
  noFrame : ∀ x rest, x.length < 4294967296 → q.bufC2t ≠ frame x ++ rest
  sent : q.sent = p.sent ++ Splitter.arrived frame ps (p.stream ios).length
  opened : q.closed = false
  room : q.bufC2t.length < capacity

section Frames

variable (hps : ∀ x ∈ ps, x.length ≤ 65507)
include hps

theorem split_of_mem (x : Bytes) (hx : x ∈ ps) (t : Bytes) :
    splitter.split (frame x ++ t) = some (x, t) := by
  have hlen := hps x hx
  exact Frame.split_frame (by omega) t

theorem items_stream (h : p.stream ios <+: ps.flatMap frame) :
    splitter.items (p.stream ios) = Splitter.arrived frame ps (p.stream ios).length :=
  Splitter.items_of_prefix (split_of_mem hps) h

theorem Accounts.served (h : Accounts p ios q) (hpre : p.stream ios <+: ps.flatMap frame)
    (hno : Frame.split q.bufC2t = none) (hcl : q.closed = false) : Served p ps ios q := by
  have hitems : splitter.items q.bufC2t = [] := Splitter.items_of_none hno
  have hpend : splitter.pending q.bufC2t = q.bufC2t := Splitter.pending_of_none hno
  refine ⟨Frame.split_eq_none.1 hno, ?_, hcl, ?_⟩
  · rw [← items_stream hps hpre, ← h.sent, hitems, List.append_nil]
  · have hlen : ∀ x ∈ ps, (frame x).length ≤ 65511 := by
      intro x hx
      have hx := hps x hx
      rw [Frame.length_frame]
      omega
    have hlt := Splitter.pending_lt (by decide) hlen (split_of_mem hps) hpre
    rw [← hpend, h.pending, capacity]
    omega

theorem Served.step (h : Served p ps ios t) (ha : Accounts p ios t)
    (hr : Receives env ip t io q) (hpre : p.stream (ios ++ [io]) <+: ps.flatMap frame)
    (hone : (Splitter.arrived frame ps (p.stream (ios ++ [io])).length).length ≤
      (Splitter.arrived frame ps (p.stream ios).length).length + 1) :
    Served p ps (ios ++ [io]) q := by
  have haq := ha.step hr
  have hroom := h.room
  rcases hr.eq ha.state with ⟨hb, _⟩ | ⟨_, hq⟩
  · exact absurd (hr.full hb) (Nat.not_le.2 hroom)
  · cases hs : Frame.split (t.bufC2t ++ io.bytes) with
    | none =>
      rw [forwardFrame_of_none hs] at hq
      refine haq.served hps hpre ?_ ?_
      · rw [hq]
        exact hs
      · rw [hq]
        exact hr.opened
    | some y =>
      obtain ⟨x, rest⟩ := y
      rw [forwardFrame_of_some hr.write hs] at hq
      refine haq.served hps hpre ?_ ?_
      · -- the frame that was sent is the only one that the read can have completed
        have hsent := congrArg List.length haq.sent
        rw [items_stream hps hpre, hq] at hsent
        simp only [List.length_append, h.sent, List.length_singleton] at hsent
        have hnil : splitter.items rest = [] := List.eq_nil_of_length_eq_zero (by omega)
        rw [hq]
        exact Splitter.items_eq_nil.1 hnil
      · rw [hq]
        exact hr.opened

theorem served_run (hst : p.state = .data) (hcl : p.closed = false)
    (hbuf : Frame.split p.bufC2t = none) (h : Run (Receives env ip) p ios q)
    (hpre : p.stream ios <+: ps.flatMap frame)
    (hone : ∀ pre io, pre ++ [io] <+: ios →
      (Splitter.arrived frame ps (p.stream (pre ++ [io])).length).length ≤
        (Splitter.arrived frame ps (p.stream pre).length).length + 1) : Served p ps ios q := by
  refine h.history (fun ios q => p.stream ios <+: ps.flatMap frame →
    (∀ pre io, pre ++ [io] <+: ios →
    (Splitter.arrived frame ps (p.stream (pre ++ [io])).length).length ≤
      (Splitter.arrived frame ps (p.stream pre).length).length + 1) → Served p ps ios q)
    ?_ ?_ hpre hone
  · intro hpre _
    exact (accounts_run hst (.nil : Run (Receives env ip) p [] p)).served hps hpre hbuf hcl
  · intro ios t io q hrun ih hr hpre hone
    have hbefore : p.stream ios <+: ps.flatMap frame := by
      rw [stream_snoc] at hpre
      exact (List.prefix_append _ _).trans hpre
    refine (ih hbefore fun pre r hp => ?_).step hps (accounts_run hst hrun) hr hpre ?_
    · exact hone pre r (hp.trans (List.prefix_append _ _))
    · exact hone ios io (List.prefix_refl _)

end Frames

theorem Receives.sent_length (h : Receives env ip p io q) (hst : p.state = .data) :
    q.sent.length ≤ p.sent.length + 1 := by
  rcases h.eq hst with ⟨_, rfl⟩ | ⟨_, rfl⟩
  · exact Nat.le_succ _
  · cases hs : Frame.split (p.bufC2t ++ io.bytes) with
    | none =>
      rw [forwardFrame_of_none hs]
      exact Nat.le_succ _
    | some y =>
      obtain ⟨x, rest⟩ := y
      rw [forwardFrame_of_some h.write hs, List.length_append]
      exact Nat.le_refl _

/-- For a stream of frames, in whatever pieces it is read: all is well after every
call exactly if no read completes more than one frame. -/
theorem run_frames_served_iff (hst : p.state = .data) (hcl : p.closed = false)
    (hbuf : ∀ x rest, x.length < 4294967296 → p.bufC2t ≠ frame x ++ rest)
    (hps : ∀ x ∈ ps, x.length ≤ 65507) (h : Run (Receives env ip) p ios q)
    (hpre : p.stream ios <+: ps.flatMap frame) :
    (∀ pre t, pre <+: ios → Run (Receives env ip) p pre t → Served p ps pre t) ↔
      ∀ pre io, pre ++ [io] <+: ios →
        (Splitter.arrived frame ps (p.stream (pre ++ [io])).length).length ≤
          (Splitter.arrived frame ps (p.stream pre).length).length + 1 := by
  constructor
  · intro hall pre io hp
    obtain ⟨u, hu⟩ := h.of_prefix hp
    obtain ⟨t, ht, hr⟩ := hu.snoc_inv
    have hsu := (hall _ u hp hu).sent
    have hst' := (hall pre t ((List.prefix_append _ _).trans hp) ht).sent
    have hle := hr.sent_length (accounts_run hst ht).state
    rw [hsu, hst', List.length_append, List.length_append] at hle
    omega
  · intro hone pre t hp ht
    have hpre' : p.stream pre <+: p.stream ios := by
      obtain ⟨post, rfl⟩ := hp
      rw [stream, stream, List.flatMap_append, ← List.append_assoc]
      exact List.prefix_append _ _
    exact served_run hps hst hcl (Frame.split_eq_none.2 hbuf) ht (hpre'.trans hpre)
      fun pre' io hp' => hone pre' io (hp'.trans hp)

/-- Two frames in three reads, the first of which ends inside a length. -/
theorem run_frames_served_split_length : ∃ q,
    Run (Receives Sample.env none) ⟨.data, [], none, [], [], false⟩
      [Sample.read [0, 0], Sample.read [0, 1, 7, 0], Sample.read [0, 0, 2, 8, 9]] q ∧
    Served ⟨.data, [], none, [], [], false⟩ [[7], [8, 9]]
      [Sample.read [0, 0], Sample.read [0, 1, 7, 0], Sample.read [0, 0, 2, 8, 9]] q := by
  have hrun : Run (Receives Sample.env none) ⟨.data, [], none, [], [], false⟩
      ([] ++ [Sample.read [0, 0]] ++ [Sample.read [0, 1, 7, 0]] ++ [Sample.read [0, 0, 2, 8, 9]])
      ⟨.data, [], none, [[7], [8, 9]], [], false⟩ := by
    refine .snoc (t := ⟨.data, [0], none, [[7]], [], false⟩)
      (.snoc (t := ⟨.data, [0, 0], none, [], [], false⟩) (.snoc .nil ?_) ?_) ?_
    · exact ⟨rfl, rfl, rfl, by decide, by decide, rfl⟩
    · exact ⟨rfl, rfl, rfl, by decide, by decide, rfl⟩
    · exact ⟨rfl, rfl, rfl, by decide, by decide, rfl⟩
  refine ⟨_, hrun, (run_frames_served_iff rfl rfl (Frame.split_eq_none.1 rfl) (by decide) hrun
    (by decide)).2 ?_ _ _ (List.prefix_refl _) hrun⟩
  rintro pre io ⟨post, hp⟩
  rcases pre with _ | ⟨a, _ | ⟨b, _ | ⟨c, pre⟩⟩⟩
  · obtain ⟨rfl, _⟩ := List.cons.inj hp
    decide
  · obtain ⟨rfl, hp₁⟩ := List.cons.inj hp
    obtain ⟨rfl, _⟩ := List.cons.inj hp₁
    decide
  · obtain ⟨rfl, hp₁⟩ := List.cons.inj hp
    obtain ⟨rfl, hp₂⟩ := List.cons.inj hp₁
    obtain ⟨rfl, _⟩ := List.cons.inj hp₂
    decide
  · have hlen := congrArg List.length hp
    simp at hlen

/-- Two frames in one read, after a connection that succeeds: the second one stays
in the buffer. -/
theorem second_frame_stays_in_buffer : ∃ p q,
    new.onClientData Sample.env
      (Sample.read (ascii "connect type=udpsock;tgt=10.0.0.1;port=17185;mode=packet\n"))
      (some (ascii "10.0.0.1")) = .returned p ∧
    Run (Receives Sample.env (some (ascii "10.0.0.1"))) p
      [Sample.read (frame [1] ++ frame [2])] q ∧
    (p.state, p.bufC2t, p.sent) = (.data, [], []) ∧ (q.bufC2t, q.sent) = (frame [2], [[1]]) := by
  refine ⟨⟨.data, [], some ⟨17185, 0x0100000a⟩, [], [111, 107, 0], false⟩,
    ⟨.data, frame [2], some ⟨17185, 0x0100000a⟩, [[1]], [111, 107, 0], false⟩, ?_, ?_, rfl, rfl⟩
  · exact Outcome.toOption_eq_some.1 (by decide +kernel)
  · exact .snoc .nil ⟨rfl, rfl, rfl, by decide, by decide, rfl⟩

end WrProxy
end BoardProxy
