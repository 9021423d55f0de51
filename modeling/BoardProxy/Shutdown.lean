import BoardProxy.Descriptors
import BoardProxy.ProcessDiscipline

/-!
# The end of the daemon

The loop ends after a signal or when the last session of a socket-activated daemon is
gone. The members of `Daemon` are then destroyed in the reverse order of their declaration:
first the listeners and the queue, then the sessions, and the boards behind them. The same
happens after an exception; after `SIGPIPE` no destructor runs. No child is killed in either
case, and the next daemon does not know them.
-/

namespace BoardProxy
namespace Daemon

variable {env : Env} {sys : Sys} {d d₀ d' : Daemon} {e : Event} {es : List Event} {sid k i : ℕ}
  {s : Session} {bs : List BoardSpec} {fs : List ProxyFactory} {sd : Bool}

def destroyAll (d : Daemon) (ids : List ℕ) : Daemon := ids.foldl Session.destroy d

def shutdown (d : Daemon) : Daemon :=
  { d with waitQueue := [], proxyListeners := [] }.destroyAll (d.sessions.map Session.id)

theorem processes_destroy (d : Daemon) (sid : ℕ) :
    (Session.destroy d sid).processes = d.processes := by
  cases hs : d.session sid with
  | none => rw [Session.destroy, hs]
  | some s => exact (destroy_fields hs).2.1

theorem processes_shutdown (d : Daemon) : d.shutdown.processes = d.processes := by
  have hall : ∀ (ids : List ℕ) (d : Daemon), (d.destroyAll ids).processes = d.processes := by
    intro ids
    induction ids with
    | nil => exact fun _ => rfl
    | cons sid ids ih => exact fun d => (ih _).trans (processes_destroy d sid)
  exact hall _ _

theorem destroyAll_session (ids : List ℕ) :
    (d.destroyAll ids).session k = if k ∈ ids then none else d.session k := by
  induction ids generalizing d with
  | nil => rfl
  | cons sid ids ih =>
    rw [destroyAll, List.foldl_cons, ← destroyAll, ih, destroy_session]
    by_cases hk : k ∈ ids
    · rw [if_pos hk, if_pos (List.mem_cons_of_mem _ hk)]
    · by_cases hks : k = sid
      · rw [if_neg hk, if_pos hks, if_pos (hks ▸ List.mem_cons_self)]
      · rw [if_neg hk, if_neg hks, if_neg (List.not_mem_cons_of_ne_of_not_mem hks hk)]

structure Ending (d₀ d : Daemon) : Prop where
  queue : d.waitQueue = []
  processes : d.processes = d₀.processes
  closes : ∃ cs, d.trace = d₀.trace ++ cs ∧ ∀ a ∈ cs, ∃ k fd, a = .close k fd
  owned : ∀ i k, d.owner i = some k → ∃ s, d.session k = some s ∧ s.board = some i
  booked : ∀ k, Booked k d₀ d

namespace Ending

theorem destroy (h : Ending d₀ d) (sid : ℕ) : Ending d₀ (Session.destroy d sid) := by
  cases hs : d.session sid with
  | none =>
    rw [Session.destroy, hs]
    exact h
  | some s =>
    obtain ⟨hqueue, hproc, _⟩ := destroy_fields hs
    obtain ⟨cs, htrace, hcs⟩ := h.closes
    refine ⟨hqueue.trans h.queue, hproc.trans h.processes,
      ⟨cs ++ [.close sid s.fdIn, .close sid s.fdOut, .close sid s.fdErr], ?_, fun a ha => ?_⟩,
      ?_, fun k => (h.booked k).trans (Booked.destroy hs)⟩
    · rw [destroy_trace hs, htrace, List.append_assoc]
    · rcases List.mem_append.1 ha with ha | ha
      · exact hcs a ha
      · simp only [List.mem_cons, List.not_mem_nil, or_false] at ha
        rcases ha with rfl | rfl | rfl <;> exact ⟨_, _, rfl⟩
    · intro i k hi
      rw [destroy_owner hs] at hi
      by_cases hb : s.board = some i
      · rw [if_pos hb] at hi
        cases hi
      · rw [if_neg hb] at hi
        obtain ⟨t, ht, hti⟩ := h.owned i k hi
        have hne : k ≠ sid := by
          rintro rfl
          rw [hs, Option.some.injEq] at ht
          exact hb (ht ▸ hti)
        refine ⟨t, ?_, hti⟩
        rw [destroy_session, if_neg hne, ht]

theorem destroyAll (h : Ending d₀ d) (ids : List ℕ) : Ending d₀ (d.destroyAll ids) := by
  induction ids generalizing d with
  | nil => exact h
  | cons sid ids ih => exact ih (h.destroy sid)

end Ending

theorem session_shutdown (d : Daemon) (k : ℕ) : d.shutdown.session k = none := by
  rw [shutdown, destroyAll_session]
  by_cases hk : k ∈ d.sessions.map Session.id
  · rw [if_pos hk]
  · rw [if_neg hk]
    by_contra hs
    obtain ⟨s, hs⟩ := Option.ne_none_iff_exists'.1 hs
    exact hk (List.mem_map.2 ⟨s, KeyedList.mem_of_lookup hs, KeyedList.key_of_lookup hs⟩)

theorem Orderly.ending_shutdown (h : Orderly es d) : Ending d d.shutdown := by
  have hstart : Ending d { d with waitQueue := [], proxyListeners := [] } := by
    refine ⟨rfl, rfl, ⟨[], (List.append_nil _).symm, fun a ha => (by cases ha)⟩, ?_, fun k => .refl⟩
    intro i k hi
    obtain ⟨t, ht, hb⟩ := (h.settled.coherent.owner_iff i k).1 hi
    obtain ⟨s, hs, rfl⟩ := exists_of_view_tenant ht
    exact ⟨s, hs, hb⟩
  exact hstart.destroyAll _

/-- At its end the daemon has closed every descriptor that the client of the session `k` has
passed, once each. No session is left and every board is free, but the processes go on as
they are. -/
theorem shutdown_leaves_children (h : Run (AccountableNext env k) (initial bs fs sd) es d)
    (hone : AtMostOneSetup es) :
    d.shutdown.sessions = [] ∧ (∀ i, d.shutdown.owner i = none) ∧
      d.shutdown.processes = d.processes ∧
      (∃ cs, d.shutdown.trace = d.trace ++ cs ∧ ∀ a ∈ cs, ∃ j fd, a = .close j fd) ∧
      ∀ fd : ℤ, 0 ≤ fd → (d.shutdown.ledger k).closed.count fd =
        (d.shutdown.ledger k).received.count fd := by
  have hend := (orderly_run (h.mono fun _ _ _ hn => hn.1) hone).ending_shutdown
  have hgone := session_shutdown d
  refine ⟨?_, fun i => ?_, hend.processes, hend.closes, fun fd hfd => ?_⟩
  · cases hl : d.shutdown.sessions with
    | nil => rfl
    | cons s l =>
      have hs := hgone s.id
      rw [session, hl, KeyedList.lookup_cons, if_pos rfl] at hs
      cases hs
  · by_contra hi
    obtain ⟨j, hj⟩ := Option.ne_none_iff_exists'.1 hi
    obtain ⟨s, hs, _⟩ := hend.owned i j hj
    rw [hgone j] at hs
    cases hs
  · have hb := (balanced_run h).path (hend.booked k)
    have hheld : (d.shutdown.ledger k).held = [] := by rw [ledger, hgone k, Option.elim_none]
    have hc := hb.count fd hfd
    rw [hheld, List.count_nil, Nat.add_zero] at hc
    exact hc.symm

theorem shutdown_leaves_children_running : ∃ d,
    (Run (AccountableNext Sample.env 0) (initial [Sample.board [] []] [] false)
      [Sample.accept, Sample.connect 0 7 100, Sample.accept, Sample.connect 1 8 101, .signal] d ∧
      (d.waitQueue, d.processes.map Process.state) = ([1], [.running])) ∧
    d.shutdown.sessions = [] ∧ (∀ i, d.shutdown.owner i = none) ∧
      d.shutdown.processes = d.processes := by
  obtain ⟨d, hr, hd⟩ : ∃ d, Run (AccountableNext Sample.env 0)
      (initial [Sample.board [] []] [] false)
      [Sample.accept, Sample.connect 0 7 100, Sample.accept, Sample.connect 1 8 101, .signal] d ∧
      (d.waitQueue, d.processes.map Process.state) = ([1], [.running]) :=
    exists_guarded_run (fun d : Daemon => (d.waitQueue, d.processes.map Process.state))
      (by decide +kernel)
  obtain ⟨hnil, hfree, hproc, _⟩ := shutdown_leaves_children hr (by decide +kernel)
  exact ⟨d, ⟨hr, hd⟩, hnil, hfree, hproc⟩

def runs (i : ℕ) (p : Process) : Bool := p.state = .running ∧ p.kind = .command ∧ p.board = i

theorem length_runs_le (h : Run (Next env) (initial bs fs sd) es d) (hone : AtMostOneSetup es)
    (i : ℕ) : (d.processes.filter (runs i)).length ≤ if (d.owner i).isSome then 1 else 0 := by
  have hset := (orderly_run h hone).settled
  have howner : ∀ p ∈ d.processes, runs i p = true → d.owner i = some p.session := by
    intro p hp hrun
    obtain ⟨hst, hkind, rfl⟩ := of_decide_eq_true hrun
    exact hset.command_owner hp hkind (by rw [hst]; decide)
  cases ho : d.owner i with
  | none =>
    have hnil : d.processes.filter (runs i) = [] := by
      refine List.filter_eq_nil_iff.2 fun p hp hrun => ?_
      rw [howner p hp hrun] at ho
      cases ho
    simp [hnil]
  | some k =>
    have hsub : d.processes.filter (runs i) =
        (Tenancy.children d.processes .command k).filter (runs i) := by
      rw [Tenancy.children, List.filter_filter]
      refine List.filter_congr fun p hp => ?_
      cases hrun : runs i p with
      | false => rfl
      | true =>
        have hk := howner p hp hrun
        rw [ho, Option.some.injEq] at hk
        obtain ⟨_, hkind, _⟩ := of_decide_eq_true hrun
        simp [hkind, hk]
    rw [hsub]
    exact (List.length_filter_le _ _).trans ((tidy_run h hone).1.once .command k)

theorem length_runs_moveProcess (pid : Pid) (i : ℕ) :
    ((d.moveProcess pid .zombie .reaped).processes.filter (runs i)).length =
      (d.processes.filter (runs i)).length := by
  simp only [moveProcess, setProcesses, List.filter_map, List.length_map]
  congr 1
  refine List.filter_congr fun p _ => ?_
  rw [Function.comp_apply]
  split_ifs with hp
  · simp [runs, hp.2]
  · rfl

def StartsNone (ps : List Process) (o : Outcome Daemon) : Prop :=
  ∀ f d', o = .threw f d' → d'.processes = ps

namespace StartsNone

variable {ps : List Process} {o : Outcome Daemon} {f : Fault}

theorem returned (d : Daemon) : StartsNone ps (.returned d) := fun _ _ h => by cases h

theorem threw (h : d.processes = ps) : StartsNone ps (.threw f d) := by
  intro _ _ heq
  cases heq
  exact h

theorem map (h : StartsNone ps o) {g : Daemon → Daemon} (hg : ∀ d, (g d).processes = d.processes) :
    StartsNone ps (o.map g) := by
  cases o with
  | returned d => exact returned _
  | threw f d => exact threw ((hg d).trans (h f d rfl))

theorem bind {k : Daemon → Outcome Daemon} (h : StartsNone ps o)
    (hk : ∀ d, o = .returned d → StartsNone ps (k d)) : StartsNone ps (o.bind k) := by
  cases o with
  | returned d => exact hk d rfl
  | threw f d => exact h

theorem dprintf {fd : ℤ} {text : Bytes} : StartsNone d.processes (d.dprintf sys sid fd text) := by
  unfold Daemon.dprintf
  split_ifs
  · exact threw rfl
  · exact returned _

theorem printStatus {fd : ℤ} : StartsNone d.processes (d.printStatus sys sid fd) := by
  unfold Daemon.printStatus
  split_ifs
  · exact threw rfl
  · exact returned _

theorem deref {k : Session → Outcome Daemon} (hd : d.processes = ps)
    (hk : ∀ s, StartsNone ps (k s)) : StartsNone ps (d.deref sid k) := by
  unfold Daemon.deref
  split
  · exact threw hd
  · exact hk _

theorem derefBoard {k : ℕ → BoardSpec → Outcome Daemon} (hd : d.processes = ps)
    (hk : ∀ i b, StartsNone ps (k i b)) : StartsNone ps (d.derefBoard s k) := by
  unfold Daemon.derefBoard
  split
  · exact threw hd
  · split
    · exact threw hd
    · exact hk _ _

theorem startProcess : StartsNone d.processes (Session.startProcess env sys d sid) := by
  refine deref rfl fun s => derefBoard rfl fun i b => ?_
  split
  · exact threw rfl
  · split
    · exact threw rfl
    · exact returned _

theorem startCloseCommand : StartsNone d.processes (Session.startCloseCommand env sys d sid) := by
  refine deref rfl fun s => derefBoard rfl fun i b => ?_
  split
  · exact threw rfl
  · split
    · exact threw rfl
    · exact returned _

theorem assignBoard : StartsNone d.processes (Session.assignBoard env sys d sid i) := by
  refine deref rfl fun s => ?_
  split
  · exact threw rfl
  · refine bind dprintf fun d₁ h₁ => ?_
    obtain ⟨_, rfl⟩ := dprintf_returned.1 h₁
    exact startProcess

theorem daemonCloseSession : StartsNone d.processes (Daemon.closeSession env sys d sid) := by
  have hproc : (d.departed sid).processes = d.processes := processes_destroy ..
  rw [← hproc, Daemon.closeSession]
  refine map ?_ fun d => ?_
  · unfold serveWaiting
    split
    · exact threw rfl
    · exact returned _
    · exact assignBoard
  · rw [exitIfIdle_eq_silent]
    rfl

theorem closeSession : StartsNone d.processes (Session.closeSession env sys d sid) := by
  unfold Session.closeSession
  split
  · exact threw rfl
  split
  · split
    · exact returned _
    · refine derefBoard rfl fun i b => ?_
      split
      · exact daemonCloseSession
      · exact startCloseCommand
  · exact daemonCloseSession

theorem onConnect {noWait : Bool} :
    StartsNone d.processes (Session.onConnect env sys d sid noWait) := by
  cases hs : d.session sid with
  | none =>
    have hnone : (d.modifySession sid fun s => { s with status := .awaitingBoard }).session sid =
        none := by simp [hs]
    rw [Session.onConnect, Daemon.assignBoard, Daemon.deref, hnone]
    exact threw rfl
  | some s =>
    cases hf : d.findAvailableBoard s.getUsername with
    | some i =>
      rw [onConnect_of_available noWait hs hf]
      exact assignBoard
    | none =>
      rw [onConnect_of_none noWait hs hf]
      split_ifs
      · exact threw rfl
      · exact daemonCloseSession
      · exact returned _

theorem onSetupMsg {pkt : Packet} (hf : pkt.fds.take Session.maxFds ≠ []) :
    StartsNone d.processes (Session.onSetupMsg env sys d sid pkt) := by
  rw [Session.onSetupMsg, if_neg (mt Session.controlLen_lt_iff.1 hf), Outcome.bind, if_neg hf]
  refine deref rfl fun s => ?_
  split
  · exact threw rfl
  · split
    · exact onConnect
    · split
      · refine bind printStatus fun d₁ h₁ => ?_
        obtain rfl := printStatus_returned h₁
        exact closeSession
      · exact returned _

theorem onDataFromClient {recv : Except Errno Packet} (hs : d.session sid = some s)
    (hg : ∀ x, (Event.clientData sid recv sys).setup? = some x →
      x.2.fds.take Session.maxFds ≠ []) :
    StartsNone d.processes (Session.onDataFromClient env sys d sid recv) := by
  by_cases hend : recvEnds recv = true
  · rw [onDataFromClient_hangUp hend]
    exact closeSession
  cases recv with
  | error e => exact absurd rfl hend
  | ok pkt =>
    rw [onDataFromClient_packet hs fun hd => hend (decide_eq_true hd)]
    rcases Event.setup_cases sid pkt sys with hset | hset
    · rw [hset]
      exact returned _
    · rw [hset]
      exact onSetupMsg (hg _ hset)

theorem onChild {pid : Pid} : StartsNone d.processes (Daemon.onChild env sys d pid) := by
  unfold Daemon.onChild
  split
  · exact returned _
  · split
    · exact returned _
    · split
      · exact closeSession
      · exact closeSession

theorem onSocketConnecting {io : ConnectIo} {listener : ℕ} {peer : Pid} :
    StartsNone d.processes (Daemon.onSocketConnecting env io d listener peer) := by
  unfold Daemon.onSocketConnecting
  split
  · exact threw rfl
  · split
    · refine deref rfl fun s => ?_
      split
      · exact returned _
      · split
        · exact threw rfl
        · exact returned _
    · exact returned _

theorem runProxy {pid : ℕ} {run : Session → ProxyConn → Outcome ProxyConn} :
    StartsNone d.processes (Session.runProxy d sid pid run) := by
  refine deref rfl fun s => ?_
  split
  · exact threw rfl
  · rename_i p _
    cases run s p.conn with
    | returned conn => exact returned _
    | threw f conn => exact threw rfl

end StartsNone

theorem length_runs_of_threw {f : Fault} (hen : d.enabled e = true)
    (hg : ∀ x, e.setup? = some x → x.2.fds.take Session.maxFds ≠ [])
    (h : d.step env e = .threw f d') (i : ℕ) :
    (d'.processes.filter (runs i)).length = (d.processes.filter (runs i)).length := by
  cases e with
  | clientConnecting => cases h
  | acceptFailed => cases h; rfl
  | clientData sid recv sys =>
    simp only [enabled, Bool.and_eq_true, Option.any_eq_true] at hen
    obtain ⟨⟨s, hs, _⟩, _⟩ := hen
    rw [StartsNone.onDataFromClient hs hg f d' h]
  | processExits => cases h
  | childReaped pid sys => rw [StartsNone.onChild f d' h, length_runs_moveProcess]
  | socketConnecting => rw [StartsNone.onSocketConnecting f d' h]
  | signal => cases h
  | wrClientData => rw [StartsNone.runProxy f d' h]
  | wrTargetData => rw [StartsNone.runProxy f d' h]
  | tcpTargetConnected => rw [StartsNone.runProxy f d' h]
  | tcpClientData => rw [StartsNone.runProxy f d' h]
  | tcpTargetData => rw [StartsNone.runProxy f d' h]

end Daemon

/-- The daemons that run one after the other, and the children that they leave behind. `log`
lists the callbacks of the running daemon, and `cuts` counts for every board how often a
daemon has ended while it was in use. -/
structure Machine where
  daemon : Option Daemon
  log : List Event
  orphans : List Process
  cuts : ℕ → ℕ

/-- What happens to a machine. A daemon ends when its loop was asked to stop, or in a
callback that does not return. -/
inductive Turn
  | start
  | callback (e : Event)
  | exit
  | fails (e : Event)
  | ends (p : Process)

def Turn.events : Turn → List Event
  | .callback e | .fails e => [e]
  | _ => []

namespace Machine

def initial : Machine := ⟨none, [], [], fun _ => 0⟩

def ended (m : Machine) (d d' : Daemon) : Machine where
  daemon := none
  log := []
  orphans := m.orphans ++ d'.processes.filter fun p => p.state = .running
  cuts i := m.cuts i + if (d.owner i).isSome then 1 else 0

def next (env : Env) (bs : List BoardSpec) (fs : List ProxyFactory) (sd : Bool) (m : Machine) :
    Turn → Option Machine
  | .start =>
    match m.daemon with
    | some _ => none
    | none => some { m with daemon := some (Daemon.initial bs fs sd), log := [] }
  | .callback e => m.daemon.bind fun d => (d.next env e).map fun d' =>
    { m with daemon := some d', log := m.log ++ [e] }
  | .exit => m.daemon.bind fun d => if d.breakLoop then some (m.ended d d.shutdown) else none
  | .fails e => m.daemon.bind fun d =>
    match d.enabled e, d.step env e with
    | true, .threw .brokenPipe d' => some (m.ended d d')
    | true, .threw _ d' => some (m.ended d d'.shutdown)
    | _, _ => none
  | .ends p => if p ∈ m.orphans then some { m with orphans := m.orphans.erase p } else none

/-- Every client of the running daemon sends one setup message at most, with descriptors. -/
def Fair (m : Machine) (t : Turn) : Prop :=
  AtMostOneSetup (m.log ++ t.events) ∧
    ∀ x ∈ setupPackets t.events, x.2.fds.take Session.maxFds ≠ []

instance (m : Machine) (t : Turn) : Decidable (m.Fair t) := inferInstanceAs (Decidable (_ ∧ _))

def Next (env : Env) (bs : List BoardSpec) (fs : List ProxyFactory) (sd : Bool) (m : Machine)
    (t : Turn) (m' : Machine) : Prop := m.next env bs fs sd t = some m' ∧ m.Fair t

def live (m : Machine) (i : ℕ) : List Process :=
  (m.orphans ++ m.daemon.elim [] Daemon.processes).filter (Daemon.runs i)

variable {env : Env} {bs : List BoardSpec} {fs : List ProxyFactory} {sd : Bool} {m m' : Machine}
  {t : Turn} {ts : List Turn} {d d' : Daemon}

structure Kept (env : Env) (bs : List BoardSpec) (fs : List ProxyFactory) (sd : Bool)
    (m : Machine) : Prop where
  orphans : ∀ i, (m.orphans.filter (Daemon.runs i)).length ≤ m.cuts i
  daemon : ∀ d, m.daemon = some d →
    Run (Daemon.Next env) (Daemon.initial bs fs sd) m.log d ∧ AtMostOneSetup m.log

namespace Kept

theorem ended (h : Kept env bs fs sd m) (hd : m.daemon = some d)
    (hruns : ∀ i, (d'.processes.filter (Daemon.runs i)).length =
      (d.processes.filter (Daemon.runs i)).length) : Kept env bs fs sd (m.ended d d') := by
  obtain ⟨hr, hone⟩ := h.daemon d hd
  refine ⟨fun i => ?_, fun d hd => (by cases hd)⟩
  have hrun : (d'.processes.filter fun p => p.state = .running).filter (Daemon.runs i) =
      d'.processes.filter (Daemon.runs i) := by
    rw [List.filter_filter]
    refine List.filter_congr fun p _ => ?_
    by_cases hst : p.state = .running <;> simp [Daemon.runs, hst]
  rw [Machine.ended, List.filter_append, List.length_append, hrun, hruns i]
  exact Nat.add_le_add (h.orphans i) (Daemon.length_runs_le hr hone i)

theorem step (h : Kept env bs fs sd m) (hn : m.Next env bs fs sd t m') :
    Kept env bs fs sd m' := by
  obtain ⟨hn, hone, hfds⟩ := hn
  cases t with
  | start =>
    cases hd : m.daemon with
    | some d =>
      rw [next, hd] at hn
      cases hn
    | none =>
      rw [next, hd] at hn
      cases hn
      refine ⟨h.orphans, fun d hd => ?_⟩
      cases hd
      exact ⟨.nil, List.nodup_nil⟩
  | callback e =>
    obtain ⟨d, hd, hn⟩ := Option.bind_eq_some_iff.1 hn
    obtain ⟨d', hd', rfl⟩ := Option.map_eq_some_iff.1 hn
    refine ⟨h.orphans, fun d₁ hd₁ => ?_⟩
    cases hd₁
    exact ⟨(h.daemon d hd).1.snoc hd', hone⟩
  | exit =>
    obtain ⟨d, hd, hn⟩ := Option.bind_eq_some_iff.1 hn
    split_ifs at hn
    cases hn
    exact h.ended hd fun i => by rw [Daemon.processes_shutdown]
  | fails e =>
    obtain ⟨d, hd, hn⟩ := Option.bind_eq_some_iff.1 hn
    have hnone : ∀ {f d'}, d.enabled e = true → d.step env e = .threw f d' → ∀ i,
        (d'.processes.filter (Daemon.runs i)).length =
          (d.processes.filter (Daemon.runs i)).length := fun hen hst =>
      Daemon.length_runs_of_threw hen
        (fun x hx => hfds x (by simp [setupPackets, Turn.events, hx])) hst
    split at hn
    · rename_i d' hen hst
      cases hn
      exact h.ended hd (hnone hen hst)
    · rename_i f d' _ hen hst
      cases hn
      exact h.ended hd fun i => by rw [Daemon.processes_shutdown, hnone hen hst i]
    · cases hn
  | ends p =>
    rw [next] at hn
    split_ifs at hn
    cases hn
    refine ⟨fun i => ?_, h.daemon⟩
    exact (((List.erase_sublist).filter _).length_le).trans (h.orphans i)

end Kept

end Machine
end BoardProxy
