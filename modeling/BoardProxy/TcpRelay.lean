import BoardProxy.EventLoop
import Mathlib.Algebra.GroupWithZero.Nat

/-!
# Both directions of a TCP connection

The calls of the watchers of one relay, in any order, under what the kernel
guarantees: a read returns no more than the free space of its buffer, and a send
takes no more than it is offered. Each direction keeps what it has read and not
yet passed on, and nothing else. A read of nothing closes both directions, though,
whether the peer has closed its end or the buffer is full.
-/

namespace BoardProxy

inductive TcpCall
  | connected (io : ConnectIo)
  | data (dir : Direction) (io : RelayIo)

def RelayIo.bytes (io : RelayIo) : Bytes := io.read.toOption.getD []

namespace TcpCall

def bytes (dir : Direction) : TcpCall → Bytes
  | .connected _ => []
  | .data d io => if d = dir then io.bytes else []

theorem bytes_self (dir : Direction) (io : RelayIo) : (data dir io).bytes dir = io.bytes :=
  if_pos rfl

theorem bytes_other {dir d : Direction} (h : d ≠ dir) (io : RelayIo) : (data dir io).bytes d = [] :=
  if_neg (Ne.symm h)

def taken (dir : Direction) : TcpCall → ℕ
  | .connected _ => 0
  | .data d io => if d = dir ∧ io.bytes ≠ [] then io.send.toOption.getD 0 else 0

def Succeeds : TcpCall → Prop
  | .connected _ => False
  | .data _ io => (∃ bytes, io.read = .ok bytes) ∧ ∃ n, io.send = .ok n

end TcpCall

namespace TcpProxy

variable {env : Env} {p q t : TcpProxy} {c : TcpCall} {cs : List TcpCall} {dir d : Direction}
  {io : RelayIo} {buf data bytes : Bytes}

def output (p : TcpProxy) : Direction → Bytes
  | .clientToTarget => p.toTarget
  | .targetToClient => p.toClient

def call (env : Env) (p : TcpProxy) : TcpCall → Outcome TcpProxy
  | .connected io => p.onTargetConnected env io
  | .data .clientToTarget io => p.onClientData env io
  | .data .targetToClient io => p.onTargetData env io

def Ready (p : TcpProxy) : TcpCall → Prop
  | .connected _ => p.targetWatcher = some .onTargetConnected
  | .data .clientToTarget _ => p.clientWatcher = true
  | .data .targetToClient _ => p.targetWatcher = some .onTargetData

/-- The results that the kernel can give. -/
def Honest (p : TcpProxy) : TcpCall → Prop
  | .connected _ => True
  | .data dir io => io.bytes.length ≤ capacity - (p.buffer dir).length ∧
      ∀ n, io.send = .ok n → n ≤ (p.buffer dir ++ io.bytes).length

theorem honest_of_send {n : ℕ} (hfit : io.bytes.length ≤ capacity - (p.buffer dir).length)
    (hs : io.send = .ok n) (hn : n ≤ (p.buffer dir ++ io.bytes).length) :
    p.Honest (.data dir io) := by
  refine ⟨hfit, fun m hm => ?_⟩
  rw [hs, Except.ok.injEq] at hm
  exact hm ▸ hn

structure Calls (env : Env) (p : TcpProxy) (c : TcpCall) (q : TcpProxy) : Prop where
  opened : p.closed = false
  ready : p.Ready c
  honest : p.Honest c
  result : p.call env c = .returned q

section Fields

@[simp] theorem buffer_close : p.close.buffer d = p.buffer d := by cases d <;> rfl

@[simp] theorem output_close : p.close.output d = p.output d := by cases d <;> rfl

@[simp] theorem buffer_setBuffer_self : (p.setBuffer buf dir).buffer dir = buf := by
  cases dir <;> rfl

theorem buffer_setBuffer_other (h : d ≠ dir) : (p.setBuffer buf dir).buffer d = p.buffer d := by
  cases dir <;> cases d <;> first | rfl | exact absurd rfl h

@[simp] theorem output_setBuffer : (p.setBuffer buf dir).output d = p.output d := by
  cases dir <;> cases d <;> rfl

@[simp] theorem buffer_accepted : (p.accepted data dir).buffer d = p.buffer d := by
  cases dir <;> cases d <;> rfl

@[simp] theorem output_accepted_self : (p.accepted data dir).output dir = p.output dir ++ data := by
  cases dir <;> rfl

theorem output_accepted_other (h : d ≠ dir) : (p.accepted data dir).output d = p.output d := by
  cases dir <;> cases d <;> first | rfl | exact absurd rfl h

@[simp] theorem targetWatcher_setBuffer :
    (p.setBuffer buf dir).targetWatcher = p.targetWatcher := by cases dir <;> rfl

@[simp] theorem clientWatcher_setBuffer :
    (p.setBuffer buf dir).clientWatcher = p.clientWatcher := by cases dir <;> rfl

@[simp] theorem closed_setBuffer : (p.setBuffer buf dir).closed = p.closed := by cases dir <;> rfl

@[simp] theorem targetWatcher_accepted :
    (p.accepted data dir).targetWatcher = p.targetWatcher := by cases dir <;> rfl

@[simp] theorem clientWatcher_accepted :
    (p.accepted data dir).clientWatcher = p.clientWatcher := by cases dir <;> rfl

@[simp] theorem closed_accepted : (p.accepted data dir).closed = p.closed := by cases dir <;> rfl

end Fields

theorem call_data : p.call env (.data dir io) = p.onData env io dir := by
  cases dir <;> rfl

theorem onData_returned (hfit : io.bytes.length ≤ capacity - (p.buffer dir).length)
    (h : p.onData env io dir = .returned q) :
    (io.bytes = [] ∧ q = p.close) ∨
      (io.bytes ≠ [] ∧ (∃ e, io.send = .error e) ∧
        q = (p.setBuffer (p.buffer dir ++ io.bytes) dir).close) ∨
      ∃ n, io.bytes ≠ [] ∧ io.send = .ok n ∧
        q = (p.setBuffer ((p.buffer dir ++ io.bytes).drop n) dir).accepted
          ((p.buffer dir ++ io.bytes).take n) dir := by
  cases hr : io.read with
  | error e =>
    have hb : io.bytes = [] := by simp [RelayIo.bytes, hr, Except.toOption]
    simp only [onData, hr] at h
    exact Or.inl ⟨hb, SocketProxy.fail_returned h⟩
  | ok bytes =>
    have hb : bytes = io.bytes := by simp [RelayIo.bytes, hr, Except.toOption]
    simp only [onData, hr, hb, List.take_of_length_le hfit] at h
    by_cases hnil : io.bytes = []
    · rw [if_pos hnil] at h
      exact Or.inl ⟨hnil, (Outcome.returned.inj h).symm⟩
    · rw [if_neg hnil] at h
      refine Or.inr ?_
      cases hs : io.send with
      | error e =>
        simp only [hs] at h
        split_ifs at h
        exact Or.inl ⟨hnil, ⟨e, rfl⟩, SocketProxy.fail_returned h⟩
      | ok n =>
        simp only [hs, Outcome.returned.injEq] at h
        exact Or.inr ⟨n, hnil, rfl, h.symm⟩

theorem onTargetConnected_returned {io : ConnectIo} (h : p.onTargetConnected env io = .returned q) :
    q = p.close ∨ io.getsockopt = .ok 0 ∧
      q = { p with targetWatcher := some .onTargetData, clientWatcher := true } := by
  cases hg : io.getsockopt with
  | error e =>
    simp only [onTargetConnected, hg] at h
    exact Or.inl (SocketProxy.fail_returned h)
  | ok soErr =>
    simp only [onTargetConnected, hg] at h
    split_ifs at h with hz
    · exact Or.inl (SocketProxy.fail_returned h)
    · rw [not_not] at hz
      exact Or.inr ⟨by rw [hz], (Outcome.returned.inj h).symm⟩

theorem Calls.onData (h : Calls env p (.data dir io) q) : p.onData env io dir = .returned q := by
  rw [← call_data]
  exact h.result

structure Relays (p : TcpProxy) (d : Direction) (bytes : Bytes) (q : TcpProxy) : Prop where
  stream : q.output d ++ q.buffer d = p.output d ++ (p.buffer d ++ bytes)
  room : (q.buffer d).length ≤ (p.buffer d ++ bytes).length

theorem relays_of_eq (hb : q.buffer d = p.buffer d) (ho : q.output d = p.output d) :
    Relays p d [] q := by
  refine ⟨?_, ?_⟩
  · rw [hb, ho, List.append_nil]
  · rw [hb, List.append_nil]

theorem Calls.other (h : Calls env p (.data dir io) q) (hd : d ≠ dir) :
    q.buffer d = p.buffer d ∧ q.output d = p.output d := by
  rcases onData_returned h.honest.1 h.onData with ⟨_, rfl⟩ | ⟨_, _, rfl⟩ | ⟨n, _, _, rfl⟩
  · exact ⟨buffer_close, output_close⟩
  · rw [buffer_close, output_close, buffer_setBuffer_other hd, output_setBuffer]
    exact ⟨rfl, rfl⟩
  · rw [buffer_accepted, buffer_setBuffer_other hd, output_accepted_other hd, output_setBuffer]
    exact ⟨rfl, rfl⟩

theorem relays_onData (hfit : io.bytes.length ≤ capacity - (p.buffer dir).length)
    (h : p.onData env io dir = .returned q) : Relays p dir io.bytes q := by
  rcases onData_returned hfit h with ⟨hb, rfl⟩ | ⟨_, _, rfl⟩ | ⟨n, _, _, rfl⟩
  · rw [hb]
    exact relays_of_eq buffer_close output_close
  · refine ⟨?_, ?_⟩
    · rw [buffer_close, output_close, buffer_setBuffer_self, output_setBuffer]
    · rw [buffer_close, buffer_setBuffer_self]
  · refine ⟨?_, ?_⟩
    · rw [buffer_accepted, buffer_setBuffer_self, output_accepted_self, output_setBuffer,
        List.append_assoc, List.take_append_drop]
    · rw [buffer_accepted, buffer_setBuffer_self, List.length_drop]
      exact Nat.sub_le _ _

theorem Calls.relays (h : Calls env p c q) (d : Direction) : Relays p d (c.bytes d) q := by
  cases c with
  | connected io =>
    rcases onTargetConnected_returned h.result with rfl | ⟨_, rfl⟩
    · exact relays_of_eq buffer_close output_close
    · exact relays_of_eq (by cases d <;> rfl) (by cases d <;> rfl)
  | data dir io =>
    by_cases hd : d = dir
    · subst hd
      rw [TcpCall.bytes_self]
      exact relays_onData h.honest.1 h.onData
    · obtain ⟨hb, ho⟩ := h.other hd
      rw [TcpCall.bytes_other hd]
      exact relays_of_eq hb ho

theorem Calls.room (h : Calls env p c q) (hroom : ∀ d, (p.buffer d).length ≤ capacity)
    (d : Direction) : (p.buffer d ++ c.bytes d).length ≤ capacity := by
  have hd := hroom d
  rw [List.length_append]
  cases c with
  | connected io => exact hd
  | data dir io =>
    have hfit := h.honest.1
    by_cases hdir : d = dir
    · rw [hdir] at hd ⊢
      rw [TcpCall.bytes_self]
      omega
    · rw [TcpCall.bytes_other hdir]
      exact hd

structure Relayed (p : TcpProxy) (cs : List TcpCall) (q : TcpProxy) : Prop where
  stream : ∀ d, p.output d ++ cs.flatMap (TcpCall.bytes d) = q.output d ++ q.buffer d
  room : ∀ d, (q.buffer d).length ≤ capacity

theorem Relayed.step (h : Relayed p cs t) (hc : Calls env t c q) : Relayed p (cs ++ [c]) q := by
  refine ⟨fun d => ?_, fun d => (hc.relays d).room.trans (hc.room h.room d)⟩
  rw [List.flatMap_append, List.flatMap_singleton, ← List.append_assoc, h.stream,
    (hc.relays d).stream, List.append_assoc]

theorem relayed_run (hbuf : ∀ d, p.buffer d = []) (h : Run (Calls env) p cs q) :
    Relayed p cs q := by
  refine h.history (Relayed p) ⟨fun d => ?_, fun d => ?_⟩ fun cs t c u _ ih hc => ih.step hc
  · rw [hbuf, List.flatMap_nil]
  · rw [hbuf]
    exact Nat.zero_le _

/-- The target is connected: at once in the constructor, or when its socket became
writable. -/
def Established (io : ConnectIo) (cs : List TcpCall) : Prop :=
  (io.connect = .ok () ∧ io.getsockopt = .ok 0) ∨
    ∃ io', .connected io' ∈ cs ∧ io'.getsockopt = .ok 0

theorem new_ok {io : ConnectIo} {ip : Bytes} {port : ℕ} (h : new env io ip port = .ok p) :
    (∀ d, p.buffer d = [] ∧ p.output d = []) ∧ (p.clientWatcher = true → Established io []) := by
  unfold new at h
  split at h
  · cases h
  · split at h
    · cases h
    · dsimp only at h
      split at h
      · split_ifs at h
        obtain rfl := Except.ok.inj h
        refine ⟨fun d => ?_, fun hc => absurd hc Bool.false_ne_true⟩
        cases d <;> exact ⟨rfl, rfl⟩
      · rename_i hcon
        split at h
        · cases h
        · rename_i hcall
          obtain rfl := Except.ok.inj h
          rcases onTargetConnected_returned hcall with rfl | ⟨hso, rfl⟩
          · refine ⟨fun d => ?_, fun hc => absurd hc Bool.false_ne_true⟩
            cases d <;> exact ⟨rfl, rfl⟩
          · refine ⟨fun d => ?_, fun _ => Or.inl ⟨hcon, hso⟩⟩
            cases d <;> exact ⟨rfl, rfl⟩

theorem Established.append {io : ConnectIo} (h : Established io cs) : Established io (cs ++ [c]) :=
  h.imp_right fun ⟨io', hmem, hso⟩ => ⟨io', List.mem_append_left _ hmem, hso⟩

theorem Calls.clientWatcher (h : Calls env p c q) (hq : q.clientWatcher = true) :
    p.clientWatcher = true ∨ ∃ io, c = .connected io ∧ io.getsockopt = .ok 0 := by
  cases c with
  | connected io =>
    rcases onTargetConnected_returned h.result with rfl | ⟨hso, _⟩
    · exact Or.inl hq
    · exact Or.inr ⟨io, rfl, hso⟩
  | data dir io =>
    rcases onData_returned h.honest.1 h.onData with ⟨_, rfl⟩ | ⟨_, _, rfl⟩ | ⟨n, _, _, rfl⟩
    · exact Or.inl hq
    · exact Or.inl (clientWatcher_setBuffer.symm.trans hq)
    · rw [clientWatcher_accepted, clientWatcher_setBuffer] at hq
      exact Or.inl hq

/-- A relay, from its constructor on: no byte of a direction is lost, doubled or out of
order, the next read stays within its buffer and touches one direction only, and
nothing is read from the client before the target is connected. -/
theorem run_relays {io : ConnectIo} {ip : Bytes} {port : ℕ} (hnew : new env io ip port = .ok p)
    (h : Run (Calls env) p cs q) :
    (∀ d, cs.flatMap (TcpCall.bytes d) = q.output d ++ q.buffer d ∧
      (q.buffer d).length ≤ capacity) ∧
    (∀ c r, Calls env q c r → ∀ d, (q.buffer d ++ c.bytes d).length ≤ capacity) ∧
    (∀ dir io r, Calls env q (.data dir io) r → ∀ d ≠ dir,
      r.buffer d = q.buffer d ∧ r.output d = q.output d) ∧
    ∀ io' r, Calls env q (.data .clientToTarget io') r → Established io cs := by
  obtain ⟨hempty, hest⟩ := new_ok hnew
  have hrel := relayed_run (fun d => (hempty d).1) h
  refine ⟨fun d => ⟨?_, hrel.room d⟩, fun c r hc => hc.room hrel.room,
    fun dir io r hc d hd => hc.other hd, fun io' r hc => ?_⟩
  · rw [← hrel.stream, (hempty d).2, List.nil_append]
  · refine h.history (fun cs (q : TcpProxy) => q.clientWatcher = true → Established io cs) hest ?_
      hc.ready
    intro cs t c u _ ih hc hu
    rcases hc.clientWatcher hu with ht | ⟨io₁, rfl, hso⟩
    · exact (ih ht).append
    · exact Or.inr ⟨io₁, List.mem_append_right _ (List.mem_singleton_self _), hso⟩

theorem run_relays_short_send :
    let cs : List TcpCall := [.connected ⟨.ok (), .ok (), .ok 0⟩,
      .data .clientToTarget ⟨.ok [1, 2], .ok 1⟩, .data .targetToClient ⟨.ok [7], .ok 1⟩]
    ∃ p q, new Sample.env ⟨.ok (), .error inProgress, .ok 0⟩ (ascii "10.0.0.1") 80 = .ok p ∧
      Run (Calls Sample.env) p cs q ∧ ∀ d, cs.flatMap (TcpCall.bytes d) = q.output d ++ q.buffer d ∧
        (q.buffer d).length ≤ capacity := by
  have hnew : new Sample.env ⟨.ok (), .error inProgress, .ok 0⟩ (ascii "10.0.0.1") 80 =
      .ok ⟨⟨80, 0x0100000a⟩, some .onTargetConnected, false, [], [], [], [], false⟩ := by
    decide +kernel
  have hrun : Run (Calls Sample.env)
      ⟨⟨80, 0x0100000a⟩, some .onTargetConnected, false, [], [], [], [], false⟩
      ([] ++ [.connected ⟨.ok (), .ok (), .ok 0⟩] ++
        [.data .clientToTarget ⟨.ok [1, 2], .ok 1⟩] ++ [.data .targetToClient ⟨.ok [7], .ok 1⟩])
      ⟨⟨80, 0x0100000a⟩, some .onTargetData, true, [2], [], [1], [7], false⟩ := by
    refine .snoc (t := ⟨⟨80, 0x0100000a⟩, some .onTargetData, true, [2], [], [1], [], false⟩)
      (.snoc (t := ⟨⟨80, 0x0100000a⟩, some .onTargetData, true, [], [], [], [], false⟩)
        (.snoc .nil ?_) ?_) ?_
    · exact ⟨rfl, rfl, trivial, rfl⟩
    · exact ⟨rfl, rfl, honest_of_send (by decide) rfl (by decide), rfl⟩
    · exact ⟨rfl, rfl, honest_of_send (by decide) rfl (by decide), rfl⟩
  exact ⟨_, _, hnew, hrun, (run_relays hnew hrun).1⟩

theorem Calls.taken (h : Calls env p c q) (d : Direction) :
    (q.output d).length = (p.output d).length + c.taken d := by
  cases c with
  | connected io =>
    rcases onTargetConnected_returned h.result with rfl | ⟨_, rfl⟩
    · rw [output_close]
      rfl
    · cases d <;> rfl
  | data dir io =>
    by_cases hd : d = dir
    · subst hd
      rcases onData_returned h.honest.1 h.onData with ⟨hb, rfl⟩ | ⟨_, ⟨e, he⟩, rfl⟩ |
        ⟨n, hb, hn, rfl⟩
      · simp [TcpCall.taken, hb]
      · simp [TcpCall.taken, he, Except.toOption]
      · have hle := h.honest.2 n hn
        rw [output_accepted_self, output_setBuffer, List.length_append, List.length_take_of_le hle]
        simp [TcpCall.taken, hb, hn, Except.toOption]
    · rw [(h.other hd).2]
      simp [TcpCall.taken, Ne.symm hd]

theorem taken_run (h : Run (Calls env) p cs q) (d : Direction) :
    (q.output d).length = (p.output d).length + (cs.map (TcpCall.taken d)).sum := by
  refine h.history (fun cs q => (q.output d).length =
    (p.output d).length + (cs.map (TcpCall.taken d)).sum) rfl ?_
  intro cs t c u _ ih hc
  rw [hc.taken, ih, List.map_append, List.sum_append, List.map_singleton, List.sum_singleton,
    Nat.add_assoc]

def Drained (cs : List TcpCall) : Prop :=
  ∀ d, (cs.map (TcpCall.taken d)).sum = (cs.flatMap (TcpCall.bytes d)).length

theorem drained_iff (hbuf : ∀ d, p.buffer d = []) (h : Run (Calls env) p cs q) :
    Drained cs ↔ ∀ d, q.buffer d = [] := by
  refine forall_congr' fun d => ?_
  have hstream := congrArg List.length ((relayed_run hbuf h).stream d)
  rw [List.length_append, List.length_append, taken_run h d] at hstream
  rw [← List.length_eq_zero_iff]
  omega

def Flows (env : Env) (p : TcpProxy) (c : TcpCall) (q : TcpProxy) : Prop :=
  Calls env p c q ∧ c.Succeeds

theorem flows_run (h : Run (Flows env) p cs q) : Run (Calls env) p cs q :=
  h.mono fun _ _ _ hf => hf.1

theorem Flows.cases (h : Flows env p c q) :
    ((∀ d, c.bytes d = []) ∧ q = p.close) ∨ ((∃ d, c.bytes d ≠ []) ∧ q.closed = false) := by
  obtain ⟨hc, hs⟩ := h
  cases c with
  | connected io => exact absurd hs id
  | data dir io =>
    rcases onData_returned hc.honest.1 hc.onData with ⟨hb, rfl⟩ | ⟨_, ⟨e, he⟩, _⟩ | ⟨n, hb, _, rfl⟩
    · refine Or.inl ⟨fun d => ?_, rfl⟩
      by_cases hd : d = dir
      · rw [hd, TcpCall.bytes_self, hb]
      · exact TcpCall.bytes_other hd io
    · obtain ⟨_, n, hn⟩ := hs
      rw [hn] at he
      cases he
    · refine Or.inr ⟨⟨dir, ?_⟩, ?_⟩
      · rwa [TcpCall.bytes_self]
      · rw [closed_accepted, closed_setBuffer]
        exact hc.opened

/-- If the relay is closed, then by a read of nothing for which there was room, so that
the peer has closed its end, and everything read before has been passed on. -/
def Delivers (env : Env) (p : TcpProxy) (cs : List TcpCall) (q : TcpProxy) : Prop :=
  q.closed = true →
    (∃ pre dir io t, cs = pre ++ [.data dir io] ∧ Run (Flows env) p pre t ∧ io.bytes = [] ∧
      (t.buffer dir).length < capacity) ∧
    ∀ d, q.output d = p.output d ++ cs.flatMap (TcpCall.bytes d)

/-- A relay that meets no error delivers everything before it closes, exactly if every
short send has been made up for when a read returns nothing. -/
theorem run_delivers_iff (hcl : p.closed = false) (hbuf : ∀ d, p.buffer d = [])
    (h : Run (Flows env) p cs q) :
    (∀ pre t, pre <+: cs → Run (Flows env) p pre t → Delivers env p pre t) ↔
      ∀ pre c, pre ++ [c] <+: cs → (∀ d, c.bytes d = []) → Drained pre := by
  constructor
  · intro hall pre c hp hnone
    obtain ⟨u, hu⟩ := h.of_prefix hp
    obtain ⟨t, ht, hf⟩ := hu.snoc_inv
    rcases hf.cases with ⟨_, rfl⟩ | ⟨⟨d, hd⟩, _⟩
    · obtain ⟨_, hout⟩ := hall _ _ hp hu rfl
      rw [drained_iff hbuf (flows_run ht)]
      intro d
      have hstream := (relayed_run hbuf (flows_run hu)).stream d
      rw [← hout d] at hstream
      rw [← buffer_close]
      exact List.self_eq_append_right.1 hstream
    · exact absurd (hnone d) hd
  · intro hdrain pre t hp ht hclosed
    rcases List.eq_nil_or_concat' pre with rfl | ⟨pre, c, rfl⟩
    · rw [ht.nil_inv, hcl] at hclosed
      cases hclosed
    · obtain ⟨u, hu, hf⟩ := ht.snoc_inv
      rcases hf.cases with ⟨hnone, rfl⟩ | ⟨_, hopen⟩
      · have hempty := (drained_iff hbuf (flows_run hu)).1 (hdrain pre c hp hnone)
        refine ⟨?_, fun d => ?_⟩
        · cases c with
          | connected io => exact absurd hf.2 id
          | data dir io =>
            refine ⟨pre, dir, io, u, rfl, hu, ?_, ?_⟩
            · have hb := hnone dir
              rwa [TcpCall.bytes_self] at hb
            · rw [hempty dir]
              decide
        · rw [(relayed_run hbuf (flows_run ht)).stream d, buffer_close, hempty d, List.append_nil]
      · rw [hopen] at hclosed
        cases hclosed

theorem run_delivers_made_up :
    let p : TcpProxy := ⟨⟨80, 0x0100000a⟩, some .onTargetData, true, [], [], [], [], false⟩
    let cs : List TcpCall := [.data .clientToTarget ⟨.ok [1, 2], .ok 1⟩,
      .data .clientToTarget ⟨.ok [3], .ok 2⟩, .data .clientToTarget ⟨.ok [], .ok 0⟩]
    ∃ q, Run (Flows Sample.env) p cs q ∧ q.closed = true ∧ Delivers Sample.env p cs q := by
  intro p cs
  have hrun : Run (Flows Sample.env) p
      ([] ++ [.data .clientToTarget ⟨.ok [1, 2], .ok 1⟩] ++
        [.data .clientToTarget ⟨.ok [3], .ok 2⟩] ++ [.data .clientToTarget ⟨.ok [], .ok 0⟩])
      ⟨⟨80, 0x0100000a⟩, some .onTargetData, true, [], [], [1, 2, 3], [], true⟩ := by
    refine .snoc (t := ⟨⟨80, 0x0100000a⟩, some .onTargetData, true, [], [], [1, 2, 3], [], false⟩)
      (.snoc (t := ⟨⟨80, 0x0100000a⟩, some .onTargetData, true, [2], [], [1], [], false⟩)
        (.snoc .nil ?_) ?_) ?_
    · exact ⟨⟨rfl, rfl, honest_of_send (by decide) rfl (by decide), rfl⟩,
        ⟨_, rfl⟩, _, rfl⟩
    · exact ⟨⟨rfl, rfl, honest_of_send (by decide) rfl (by decide), rfl⟩,
        ⟨_, rfl⟩, _, rfl⟩
    · exact ⟨⟨rfl, rfl, honest_of_send (by decide) rfl (by decide), rfl⟩,
        ⟨_, rfl⟩, _, rfl⟩
  refine ⟨_, hrun, rfl, (run_delivers_iff rfl (fun d => by cases d <;> rfl) hrun).2 ?_ _ _
    (List.prefix_refl _) hrun⟩
  rintro pre c ⟨post, hp⟩ hnone
  rcases pre with _ | ⟨a, _ | ⟨b, _ | ⟨e, pre⟩⟩⟩
  · obtain ⟨rfl, _⟩ := List.cons.inj hp
    exact absurd (hnone .clientToTarget) (by decide)
  · obtain ⟨rfl, hp₁⟩ := List.cons.inj hp
    obtain ⟨rfl, _⟩ := List.cons.inj hp₁
    exact absurd (hnone .clientToTarget) (by decide)
  · obtain ⟨rfl, hp₁⟩ := List.cons.inj hp
    obtain ⟨rfl, _⟩ := List.cons.inj hp₁
    intro d
    cases d <;> decide
  · have hlen := congrArg List.length hp
    simp at hlen

/-- A short send, and then the end of the client: its second byte is gone. -/
theorem short_send_loses_byte :
    ∃ q, Run (Flows Sample.env)
      ⟨⟨80, 0x0100000a⟩, some .onTargetData, true, [], [], [], [], false⟩
      [.data .clientToTarget ⟨.ok [1, 2], .ok 1⟩, .data .clientToTarget ⟨.ok [], .ok 0⟩] q ∧
      q.closed = true ∧ q.toTarget = [1] := by
  refine ⟨⟨⟨80, 0x0100000a⟩, some .onTargetData, true, [2], [], [1], [], true⟩, ?_, rfl, rfl⟩
  refine .snoc (t := ⟨⟨80, 0x0100000a⟩, some .onTargetData, true, [2], [], [1], [], false⟩)
    (.snoc .nil ?_) ?_
  · exact ⟨⟨rfl, rfl, honest_of_send (by decide) rfl (by decide), rfl⟩,
      ⟨_, rfl⟩, _, rfl⟩
  · exact ⟨⟨rfl, rfl, honest_of_send (by decide) rfl (by decide), rfl⟩,
      ⟨_, rfl⟩, _, rfl⟩

end TcpProxy
end BoardProxy
