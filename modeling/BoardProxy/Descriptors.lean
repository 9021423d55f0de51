import BoardProxy.EveryRun
import BoardProxy.Ledger

/-!
# The descriptors of a session

The trace and the process table are the books of every session: what was
delivered on its socket, and what the daemon closed, wrote to and handed to a
child on its behalf. The value -1 marks a field that holds no descriptor.
-/

namespace BoardProxy

namespace Action

def received (k : ℕ) : Action → List ℤ
  | .receiveFds sid fds => if sid = k then fds else []
  | _ => []

def closed (k : ℕ) : Action → List ℤ
  | .close sid fd => if sid = k then [fd] else []
  | _ => []

def written (k : ℕ) : Action → List ℤ
  | .dprintf sid fd _ | .printStatus sid fd _ => if sid = k then [fd] else []
  | _ => []

end Action

def Process.given (k : ℕ) (p : Process) : List ℤ :=
  match p.stdio with
  | none => []
  | some (fdIn, fdOut, fdErr) => if p.session = k then [fdIn, fdOut, fdErr] else []

def Session.fds (s : Session) : List ℤ := [s.fdIn, s.fdOut, s.fdErr]

namespace Daemon

variable {env : Env} {sys : Sys} {d d' : Daemon} {e : Event} {es : List Event} {sid k i : ℕ}
  {s : Session} {bs : List BoardSpec} {fs : List ProxyFactory} {sd : Bool}

def ledger (d : Daemon) (k : ℕ) : Ledger ℤ where
  received := d.trace.flatMap (Action.received k)
  closed := d.trace.flatMap (Action.closed k)
  held := (d.session k).elim [] Session.fds
  used := d.trace.flatMap (Action.written k)
  given := d.processes.flatMap (Process.given k)

theorem held_of_session (hs : d.session k = some s) : (d.ledger k).held = s.fds := by
  rw [ledger, hs, Option.elim_some]

theorem ledger_congr (ht : d'.trace = d.trace)
    (hp : d'.processes.flatMap (Process.given k) = d.processes.flatMap (Process.given k))
    (hs : (d'.session k).map Session.fds = (d.session k).map Session.fds) :
    d'.ledger k = d.ledger k := by
  have hheld : ∀ d : Daemon, (d.session k).elim [] Session.fds =
      ((d.session k).map Session.fds).getD [] := by
    intro d
    cases d.session k <;> rfl
  rw [ledger, ledger, ht, hp, hheld, hheld, hs]

theorem ledger_modifySession (d : Daemon) (sid : ℕ) {f : Session → Session}
    (hid : ∀ s, (f s).id = s.id) (hf : ∀ s, (f s).fds = s.fds) :
    (d.modifySession sid f).ledger k = d.ledger k := by
  refine ledger_congr rfl rfl ?_
  rw [session_modifySession d sid k f hid]
  by_cases hk : k = sid
  · rw [if_pos hk, hk, Option.map_map]
    exact Option.map_congr fun s _ => hf s
  · rw [if_neg hk]

theorem ledger_act (d : Daemon) (as : List Action) : (d.act as).ledger k =
    ⟨(d.ledger k).received ++ as.flatMap (Action.received k),
      (d.ledger k).closed ++ as.flatMap (Action.closed k), (d.ledger k).held,
      (d.ledger k).used ++ as.flatMap (Action.written k), (d.ledger k).given⟩ := by
  simp [ledger]

theorem ledger_grant (hs : d.session sid = some s) (b : BoardSpec) (argv : List Bytes) (pid : Pid)
    (now : ℤ) : (d.grant sid i s b argv pid now).ledger k =
      if k = sid then (((d.ledger k).use [s.fdErr]).give).close [-1, -1, -1] else d.ledger k := by
  by_cases hk : k = sid
  · subst hk
    rw [if_pos rfl, ledger, grant_session, if_pos rfl, hs]
    simp [grant, ledger, hs, Ledger.use, Ledger.give, Ledger.close, Action.received, Action.closed,
      Action.written, Process.given, Session.fds, Session.granted]
  · rw [if_neg hk, ledger, grant_session, if_neg hk]
    simp [grant, ledger, Action.received, Action.closed, Action.written, Process.given, Ne.symm hk]

theorem ledger_destroy (hs : d.session sid = some s) : (Session.destroy d sid).ledger k =
    if k = sid then (d.ledger k).close [] else d.ledger k := by
  have hproc := (destroy_fields hs).2.1
  by_cases hk : k = sid
  · subst hk
    rw [if_pos rfl, ledger, destroy_session, if_pos rfl, destroy_trace hs, hproc]
    simp [ledger, hs, Ledger.close, Action.received, Action.closed, Action.written, Session.fds]
  · rw [if_neg hk, ledger, destroy_session, if_neg hk, destroy_trace hs, hproc]
    simp [ledger, Action.received, Action.closed, Action.written, Ne.symm hk]

theorem ledger_departed (hs : d.session sid = some s) :
    (d.departed sid).ledger k = if k = sid then (d.ledger k).close [] else d.ledger k := by
  have hlog : ((d.act [.closeSession sid]).dequeue sid).ledger k = d.ledger k := by
    refine (ledger_act d [.closeSession sid]).trans ?_
    simp [Action.received, Action.closed, Action.written]
  rw [departed, ledger_destroy (d := (d.act _).dequeue sid) hs, hlog]

theorem ledger_startClosing (argv : List Bytes) (pid : Pid) :
    (d.startClosing sid i argv pid).ledger k = d.ledger k := by
  refine ledger_congr rfl ?_ ?_
  · rw [(startClosing_fields argv pid).2.2.1]
    simp [Process.given]
  · rw [startClosing_session]
    by_cases hk : k = sid
    · rw [if_pos hk, hk, Option.map_map]
      rfl
    · rw [if_neg hk]

def Booked (k : ℕ) (d d' : Daemon) : Prop :=
  Relation.ReflTransGen (Ledger.Step fun fd : ℤ => 0 ≤ fd) (d.ledger k) (d'.ledger k)

namespace Booked

theorem of_eq (h : d'.ledger k = d.ledger k) : Booked k d d' := by
  rw [Booked, h]

theorem grant (hs : d.session sid = some s) (b : BoardSpec) (argv : List Bytes) (pid : Pid)
    (now : ℤ) : Booked k d (d.grant sid i s b argv pid now) := by
  rw [Booked, ledger_grant hs]
  by_cases hk : k = sid
  · subst hk
    rw [if_pos rfl]
    have huse : [s.fdErr] ⊆ (d.ledger k).held := by
      rw [held_of_session hs]
      simp [Session.fds]
    exact ((Relation.ReflTransGen.single (.use huse)).tail .give).tail (.close (by decide))
  · rw [if_neg hk]

theorem destroy (hs : d.session sid = some s) : Booked k d (Session.destroy d sid) := by
  rw [Booked, ledger_destroy hs]
  by_cases hk : k = sid
  · rw [if_pos hk]
    exact .single (.close (by decide))
  · rw [if_neg hk]

theorem departed (hs : d.session sid = some s) : Booked k d (d.departed sid) := by
  have hdes := destroy (k := k) hs
  rwa [Booked, ledger_destroy hs, ← ledger_departed hs] at hdes

theorem exitIfIdle (d : Daemon) : Booked k d d.exitIfIdle := by
  rw [exitIfIdle_eq_silent]
  exact .refl

theorem leaves (hs : d.session sid = some s) (h : Leaves env sys d sid d') : Booked k d d' := by
  cases h with
  | idle => exact (departed hs).trans (exitIfIdle _)
  | @handOver v i t b argv pid hf ht =>
    have hd : ((d.departed sid).dequeue v).session v = some t := ht
    exact (departed hs).trans ((grant hd b argv pid sys.now).trans (exitIfIdle _))

theorem closes (hs : d.session sid = some s) (h : Closes env sys d sid s d') : Booked k d d' := by
  cases h with
  | kill =>
    refine of_eq ?_
    rw [ledger_act]
    simp [Action.received, Action.closed, Action.written]
  | startClosing => exact of_eq (ledger_startClosing _ _)
  | leave _ hl => exact leaves hs hl

theorem closeSession (h : Session.closeSession env sys d sid = .returned d') : Booked k d d' := by
  obtain ⟨s, hs, hc⟩ := closes_of_closeSession h
  exact closes hs hc

theorem modifySession (d : Daemon) (sid : ℕ) {f : Session → Session}
    (hid : ∀ s, (f s).id = s.id) (hf : ∀ s, (f s).fds = s.fds) :
    Booked k d (d.modifySession sid f) :=
  of_eq (ledger_modifySession d sid hid hf)

theorem act {as : List Action} {l : List ℤ} (hs : d.session sid = some s) (hl : l ⊆ s.fds)
    (has : ∀ k, as.flatMap (Action.received k) = [] ∧ as.flatMap (Action.closed k) = [] ∧
      as.flatMap (Action.written k) = if sid = k then l else []) : Booked k d (d.act as) := by
  obtain ⟨hr, hc, hw⟩ := has k
  have hact : (d.act as).ledger k = (d.ledger k).use (if sid = k then l else []) := by
    rw [ledger_act, hr, hc, hw, List.append_nil, List.append_nil]
    rfl
  rw [Booked, hact]
  refine .single (.use ?_)
  by_cases hk : sid = k
  · subst hk
    rw [if_pos rfl, held_of_session hs]
    exact hl
  · rw [if_neg hk]
    exact List.nil_subset _

theorem statusNotice (hs : d.session sid = some s) :
    Booked k d (d.act (d.statusNotice sid s.fdOut)) := by
  refine act (l := [s.fdOut]) hs (by simp [Session.fds]) fun k => ?_
  simp [Daemon.statusNotice, Action.received, Action.closed, Action.written]

theorem waitNotice (noWait : Bool) (hs : d.session sid = some s) :
    Booked k d (d.act (d.waitNotice sid s.fdErr noWait)) := by
  refine act (l := [s.fdErr, s.fdErr]) hs (by simp [Session.fds]) fun k => ?_
  by_cases hk : sid = k <;>
    simp [Daemon.waitNotice, Daemon.statusNotice, Action.received, Action.closed, Action.written,
      hk]

theorem enqueue (d : Daemon) (sid : ℕ) : Booked k d (d.enqueue sid) :=
  modifySession d sid (f := fun s => { s with status := .awaitingBoard }) (fun _ => rfl)
    fun _ => rfl

theorem onConnect {noWait : Bool} (h : Session.onConnect env sys d sid noWait = .returned d') :
    Booked k d d' := by
  obtain ⟨s, hs, hcase⟩ := onConnect_returned h
  have hse := enqueue_session_self hs
  have hnotice : Booked k (d.enqueue sid)
      ((d.enqueue sid).act ((d.enqueue sid).waitNotice sid s.fdErr noWait)) :=
    waitNotice (s := { s with status := .awaitingBoard }) noWait hse
  rcases hcase with ⟨i, _, ha⟩ | ⟨_, _, rfl⟩ | ⟨_, _, hc⟩
  · obtain ⟨t, b, argv, pid, ht, _, _, _, rfl⟩ := sessionAssignBoard_returned ha
    exact (enqueue d sid).trans (grant (d := d.setAwaiting sid) ht b argv pid sys.now)
  · exact (enqueue d sid).trans hnotice
  · exact (enqueue d sid).trans (hnotice.trans
      (leaves (s := { s with status := .awaitingBoard }) hse (leaves_of_closeSession hc)))

end Booked

/-- The descriptors of a packet of the client `k` come with a setup message, are
three, and find a session that holds none. -/
def Accountable (k : ℕ) (d : Daemon) : Event → Prop
  | .clientData sid (.ok pkt) sys => sid = k → pkt.fds.take Session.maxFds ≠ [] →
      (Event.clientData sid (.ok pkt) sys).setup?.isSome = true ∧
        (pkt.fds.take Session.maxFds).length = 3 ∧ ∀ fd ∈ (d.ledger k).held, ¬0 ≤ fd
  | _ => True

instance (k : ℕ) (d : Daemon) (e : Event) : Decidable (d.Accountable k e) := by
  cases e with
  | clientData sid recv sys =>
    cases recv with
    | error _ => exact isTrue trivial
    | ok pkt => exact inferInstanceAs (Decidable (_ → _ → _ ∧ _ ∧ _))
  | _ => exact isTrue trivial

theorem Accountable.fds_eq_nil {pkt : Packet}
    (h : d.Accountable k (.clientData sid (.ok pkt) sys))
    (hset : (Event.clientData sid (.ok pkt) sys).setup? = none) (hk : sid = k) :
    pkt.fds.take Session.maxFds = [] := by
  by_contra hn
  have hsome := (h hk hn).1
  rw [hset] at hsome
  cases hsome

theorem ledger_receiveFds {l : List ℤ} (h : sid = k → l = []) :
    (d.act [.receiveFds sid l]).ledger k = d.ledger k := by
  rw [ledger_act]
  have hr : [Action.receiveFds sid l].flatMap (Action.received k) = [] := by
    simpa [Action.received] using h
  simp [hr, Action.closed, Action.written]

theorem ledger_receive {pkt : Packet} (h : sid = k → pkt.fds.take Session.maxFds = []) :
    (d.receive sid pkt).ledger k = d.ledger k := by
  rw [receive, ledger_modifySession, ledger_receiveFds h]
  · exact fun _ => rfl
  · exact fun _ => rfl

theorem ledger_introduce_self {pkt : Packet} (r : Proto.Request) (hs : d.session sid = some s)
    (hlen : (pkt.fds.take Session.maxFds).length = 3) :
    (d.introduce sid pkt r).ledger sid = (d.ledger sid).receive (pkt.fds.take Session.maxFds) := by
  obtain ⟨a, b, c, hl⟩ := List.length_eq_three.1 hlen
  rw [ledger, session_introduce_self pkt r hs, hl]
  simp [introduce, receive, ledger, Ledger.receive, Action.received, Action.closed, Action.written,
    Session.fds, Session.introduced, hl]

theorem ledger_introduce_ne {pkt : Packet} (r : Proto.Request) (hk : k ≠ sid) :
    (d.introduce sid pkt r).ledger k = d.ledger k := by
  have hi : (d.introduce sid pkt r).ledger k = (d.receive sid pkt).ledger k := by
    refine ledger_congr rfl rfl ?_
    rw [session_introduce, session_receive, if_neg hk, if_neg hk]
  rw [hi, ledger_receive fun h => absurd h.symm hk]

theorem setup_eq_none_of_recvEnds {pkt : Packet} (h : recvEnds (.ok pkt) = true) :
    (Event.clientData sid (.ok pkt) sys).setup? = none := by
  have hd : pkt.data = [] := of_decide_eq_true h
  simp [Event.setup?, hd, Proto.headerSize]

namespace Booked

theorem hangUp {recv : Except Errno Packet} (hr : recvEnds recv = true)
    (ha : d.Accountable k (.clientData sid recv sys)) :
    Booked k d ((d.act (recvFds sid recv)).modifySession sid Session.hungUp) := by
  have hrecv : (d.act (recvFds sid recv)).ledger k = d.ledger k := by
    cases recv with
    | error e => rw [recvFds, Daemon.act, List.append_nil]
    | ok pkt => exact ledger_receiveFds (ha.fds_eq_nil (setup_eq_none_of_recvEnds hr))
  exact (of_eq hrecv).trans (modifySession _ sid (fun _ => rfl) fun _ => rfl)

theorem introduce {pkt : Packet} (r : Proto.Request) (hs : d.session sid = some s)
    (hf : pkt.fds.take Session.maxFds ≠ [])
    (ha : d.Accountable k (.clientData sid (.ok pkt) sys)) :
    Booked k d (d.introduce sid pkt r) := by
  by_cases hk : k = sid
  · subst hk
    obtain ⟨_, hlen, hheld⟩ := ha rfl hf
    rw [Booked, ledger_introduce_self r hs hlen]
    exact .single (.receive hheld)
  · exact of_eq (ledger_introduce_ne r hk)

theorem clientData {recv : Except Errno Packet}
    (ha : d.Accountable k (.clientData sid recv sys)) (hs : d.session sid = some s)
    (h : Session.onDataFromClient env sys d sid recv = .returned d') : Booked k d d' := by
  rcases onDataFromClient_returned hs h with ⟨hr, hc⟩ | ⟨pkt, rfl, ⟨hn, rfl⟩ | ⟨_, hset⟩⟩
  · exact (hangUp hr ha).trans (closeSession hc)
  · exact of_eq (ledger_receive (ha.fds_eq_nil hn))
  · rcases onSetupMsg_returned hset with ⟨hf, d₁, h₁, h₂⟩ | ⟨hf, t, r, ht, _, hcase⟩
    · exact (of_eq (ledger_receive fun _ => hf)).trans ((closeSession h₁).trans (closeSession h₂))
    · have hi := introduce r hs hf ha
      rcases hcase with ⟨_, hcon⟩ | ⟨_, _, hcl⟩ | ⟨_, _, rfl⟩
      · exact hi.trans (onConnect hcon)
      · have hst : (d.introduce sid pkt r).session sid = some (t.introduced pkt r) := by
          rw [Daemon.introduce, session_modifySession, if_pos rfl, ht, Option.map_some]
          exact fun _ => rfl
        exact hi.trans ((statusNotice hst).trans (closeSession hcl))
      · exact hi

theorem moveProcess (d : Daemon) (pid : Pid) (a b : ProcessState) :
    Booked k d (d.moveProcess pid a b) := by
  refine of_eq (ledger_congr rfl ?_ rfl)
  simp only [Daemon.moveProcess, setProcesses, List.flatMap_map]
  congr 1
  funext p
  split_ifs <;> rfl

theorem accept (hnew : d.session d.counter = none) (cred : Bytes) (ppid : Pid) (buffer : Memory)
    (now : ℤ) : Booked k d (d.onClientConnecting cred ppid buffer now) := by
  by_cases hk : k = d.counter
  · subst hk
    have hl : (d.onClientConnecting cred ppid buffer now).ledger d.counter =
        (d.ledger d.counter).close [-1, -1, -1] := by
      simp [ledger, onClientConnecting, session_addSession, hnew, Ledger.close, Session.fds]
    rw [Booked, hl]
    exact .single (.close (by decide))
  · refine of_eq (ledger_congr rfl rfl ?_)
    simp [onClientConnecting, session_addSession, Ne.symm hk]

theorem next (hn : d.Next env e d') (hs : Sound none d) (ha : d.Accountable k e) :
    Booked k d d' := by
  have hstep := (next_iff.1 hn).2
  cases callback_of_next hn with
  | accept => exact accept hs.session_counter _ _ _ _
  | hangUp _ hs' => exact clientData ha hs' hstep
  | ignore _ hs' => exact clientData ha hs' hstep
  | noFds _ hs' => exact clientData ha hs' hstep
  | connect _ hs' => exact clientData ha hs' hstep
  | listSessions _ hs' => exact clientData ha hs' hstep
  | otherCommand _ hs' => exact clientData ha hs' hstep
  | processExits => exact moveProcess d _ _ _
  | reapUnwatched => exact moveProcess d _ _ _
  | @reap pid sys s t c d' hz hf hmem hcw hpid ht hcl =>
    have hstop : Booked k d (Session.stopChildWatcher (d.moveProcess pid .zombie .reaped) s.id) :=
      (moveProcess d pid _ _).trans (modifySession _ s.id (fun _ => rfl) fun _ => rfl)
    exact hstop.trans (closes (session_stop_moveProcess ht) hcl)
  | unrouted => exact .refl
  | attach => exact modifySession _ _ (fun _ => rfl) fun _ => rfl
  | proxied => exact modifySession _ _ (fun _ => rfl) fun _ => rfl
  | signal => exact .refl

end Booked

def AccountableNext (env : Env) (k : ℕ) (d : Daemon) (e : Event) (d' : Daemon) : Prop :=
  d.Next env e d' ∧ d.Accountable k e

theorem balanced_run (h : Run (AccountableNext env k) (initial bs fs sd) es d) :
    (d.ledger k).Balanced fun fd => 0 ≤ fd := by
  have hinv : Sound none d ∧ (d.ledger k).Balanced fun fd => 0 ≤ fd := by
    refine h.invariant (fun d => Sound none d ∧ (d.ledger k).Balanced fun fd => 0 ≤ fd) ?_ ?_
    · exact ⟨sound_initial, fun _ _ => rfl, nofun, nofun⟩
    · intro d e d' ⟨hs, hb⟩ ⟨hn, ha⟩
      exact ⟨hs.callback (callback_of_next hn), hb.path (Booked.next hn hs ha)⟩
  exact hinv.2

/-- Every descriptor is closed once by the time its session is gone, and nothing
else is closed, written to or handed to a child. -/
theorem accountable_run_closed_once (h : Run (AccountableNext env k) (initial bs fs sd) es d) :
    (d.session k = none → ∀ fd : ℤ, 0 ≤ fd →
      (d.ledger k).closed.count fd = (d.ledger k).received.count fd) ∧
    ∀ fd : ℤ, 0 ≤ fd → (d.ledger k).closed.count fd ≤ (d.ledger k).received.count fd ∧
      (fd ∈ (d.ledger k).closed ∨ fd ∈ (d.ledger k).used ∨ fd ∈ (d.ledger k).given →
        fd ∈ (d.ledger k).received) := by
  have hb := balanced_run h
  refine ⟨fun hk fd hfd => ?_, fun fd hfd => ⟨?_, ?_⟩⟩
  · have hheld : (d.ledger k).held = [] := by rw [ledger, hk, Option.elim_none]
    have hc := hb.count fd hfd
    rw [hheld, List.count_nil, Nat.add_zero] at hc
    exact hc.symm
  · have hc := hb.count fd hfd
    omega
  · rintro (hmem | hmem | hmem)
    · exact hb.closed_mem hmem hfd
    · exact hb.used fd hmem hfd
    · exact hb.given fd hmem hfd

theorem accountable_run_closed_once_after_exit : ∃ d,
    (Run (AccountableNext Sample.env 0) (initial [Sample.board [] []] [] false)
      [Sample.accept, Sample.connect 0 7 100, .processExits 100,
        .childReaped 100 (Sample.sys 101)] d ∧
      ((d.session 0).isSome, (d.ledger 0).received, (d.ledger 0).closed, (d.ledger 0).given) =
        (false, [3, 4, 5], [3, 4, 5, -1, -1, -1], [3, 4, 5])) ∧
    ∀ fd : ℤ, 0 ≤ fd → (d.ledger 0).closed.count fd = (d.ledger 0).received.count fd := by
  refine Exists.imp (fun d hr => ⟨hr, ?_⟩) (exists_guarded_run (fun d : Daemon =>
    ((d.session 0).isSome, (d.ledger 0).received, (d.ledger 0).closed, (d.ledger 0).given))
    (by decide +kernel))
  have hgone : d.session 0 = none := by
    rw [← Option.not_isSome_iff_eq_none, (Prod.mk.inj hr.2).1]
    exact Bool.false_ne_true
  exact (accountable_run_closed_once hr.1).1 hgone

/-- The fourth descriptor of a request is never closed, and after a request with
one descriptor the daemon closes whatever numbers were on its stack. -/
theorem fourth_descriptor_leaks :
    (∃ d, Run (Next Sample.env) (initial [] [] false)
      [Sample.accept, .clientData 0 (.ok { Client.sendSetup 1 7 [] false (0, 0, 0) 3 4 5 fun _ => 0
        with fds := [3, 4, 5, 6] }) (Sample.sys 100)] d ∧
      ((d.session 0).isSome, (d.ledger 0).received, (d.ledger 0).closed) =
        (false, [3, 4, 5, 6], [3, 4, 5])) ∧
    ∃ d, Run (Next Sample.env) (initial [] [] false)
      [Sample.accept, .clientData 0 (.ok { Client.sendSetup 1 7 [] false (0, 0, 0) 3 4 5 fun _ => 2
        with fds := [3] }) (Sample.sys 100)] d ∧
      ((d.session 0).isSome, (d.ledger 0).received, (d.ledger 0).closed) =
        (false, [3], [3, 2, 2]) :=
  ⟨exists_run (fun d : Daemon => ((d.session 0).isSome, (d.ledger 0).received,
    (d.ledger 0).closed)) (by decide +kernel),
  exists_run (fun d : Daemon => ((d.session 0).isSome, (d.ledger 0).received,
    (d.ledger 0).closed)) (by decide +kernel)⟩

end Daemon
end BoardProxy
