import BoardProxy.Exceptions
import BoardProxy.Routing
import Mathlib.Algebra.Order.BigOperators.Group.List
import Mathlib.Algebra.Order.Group.Nat

/-!
# The daemon can always be emptied

No session is ever left without an active watcher. When the clients go away and the
children end, and nobody new comes, every callback that runs brings the daemon closer to
its end: sessions that wait are served first, and their commands and close commands have
to run too. Only an idle daemon with all boards free has no such callback left.
-/

namespace BoardProxy

/-- What is left to happen for a session: the end of its connection, and a command and a
close command with two events each. -/
def Session.effort (s : Session) : ℕ :=
  (if s.clientWatcher then 1 else 0) +
    match s.status with
    | .created | .closingBoard => 0
    | .hasBoard => 2
    | .awaitingBoard => 4

def ProcessState.effort : ProcessState → ℕ
  | .running => 2
  | .zombie => 1
  | .reaped => 0

def Event.drains : Event → Bool
  | .clientData _ recv _ => recvEnds recv
  | .processExits _ | .childReaped .. => true
  | _ => false

theorem Event.setup_of_drains {e : Event} (h : e.drains = true) : e.setup? = none := by
  cases e with
  | clientData sid recv sys =>
    cases recv with
    | error e => rfl
    | ok pkt =>
      have hnil : pkt.data = [] := of_decide_eq_true h
      simp [setup?, hnil, Proto.headerSize]
  | _ => rfl

theorem AtMostOneSetup.of_drains {es : List Event} {e : Event} (h : AtMostOneSetup es)
    (he : e.drains = true) : AtMostOneSetup (es ++ [e]) := by
  have hnil : setUps [e] = [] := by simp [setUps, Event.setup_of_drains he]
  rwa [AtMostOneSetup, setUps_append, hnil, List.append_nil]

namespace Daemon

open Session (Passes)

variable {env : Env} {sys : Sys} {d d' : Daemon} {e : Event} {es : List Event} {sid k i : ℕ}
  {s s' : Session} {bs : List BoardSpec} {fs : List ProxyFactory} {sd : Bool}

/-- One of the two watchers of the session is active, and that of the close command while it
runs. -/
structure Listens (s : Session) : Prop where
  active : s.clientWatcher = true ∨ s.childWatcher ≠ none
  closing : s.status = .closingBoard → s.childWatcher ≠ none

theorem listens_of_child (h : s.childWatcher ≠ none) : Listens s := ⟨.inr h, fun _ => h⟩

theorem Listens.passes {q : List ℕ} (h : Listens s) (hp : Passes q s s') : Listens s' := by
  cases hp with
  | same => exact h
  | granted => exact listens_of_child (Option.some_ne_none _)
  | closing => exact listens_of_child (Option.some_ne_none _)

theorem listens_of_closes (hs : d.session sid = some s) (hc : Closes env sys d sid s d')
    (hk : d'.session sid = some s') : Listens s' := by
  cases hc with
  | kill _ hw =>
    rw [session_act, hs, Option.some.injEq] at hk
    subst hk
    exact listens_of_child (by simp [hw])
  | startClosing =>
    rw [startClosing_session, if_pos rfl, hs, Option.map_some, Option.some.injEq] at hk
    subst hk
    exact listens_of_child (Option.some_ne_none _)
  | leave _ hl =>
    rw [leaves_session_self hl] at hk
    cases hk

theorem listens_closes (hs : d.session sid = some s) (hc : Closes env sys d sid s d')
    (h : ∀ k ≠ sid, ∀ s, d.session k = some s → Listens s) (hk : d'.session k = some s') :
    Listens s' := by
  by_cases he : k = sid
  · subst he
    exact listens_of_closes hs hc hk
  · obtain ⟨t, ht, hp⟩ := closes_passes hs hc hk
    exact (h k he t ht).passes hp

theorem listens_map {f : Session → Session} (h : ∀ k s, d.session k = some s → Listens s)
    (hk : d'.session k = some s')
    (hd : d'.session k = if k = sid then (d.session sid).map f else d.session k)
    (hf : ∀ s, (f s).clientWatcher = s.clientWatcher ∧ (f s).childWatcher = s.childWatcher ∧
      (f s).status = s.status) : Listens s' := by
  rw [hk] at hd
  by_cases he : k = sid
  · rw [if_pos he] at hd
    obtain ⟨s, hs, rfl⟩ := Option.map_eq_some_iff.1 hd.symm
    obtain ⟨hclient, hchild, hst⟩ := hf s
    have hold := h sid s hs
    exact ⟨by rw [hclient, hchild]; exact hold.active, by rw [hst, hchild]; exact hold.closing⟩
  · rw [if_neg he] at hd
    exact h k s' hd.symm

theorem listens_connects {noWait : Bool} (hs : d.session sid = some s)
    (hc : Connects env sys d sid s noWait d') (h : ∀ k s, d.session k = some s → Listens s)
    (hk : d'.session k = some s') : Listens s' := by
  by_cases he : k = sid
  · subst he
    cases hc with
    | grant =>
      rw [grant_session, if_pos rfl, hs, Option.map_some, Option.some.injEq] at hk
      subst hk
      exact listens_of_child (Option.some_ne_none _)
    | wait =>
      have henq : (d.enqueue k).session k = some s' := hk
      rw [enqueue_session_self hs, Option.some.injEq] at henq
      subst henq
      exact ⟨(h k s hs).active, fun hst => (by cases hst)⟩
    | turnAway _ _ hl =>
      rw [leaves_session_self hl] at hk
      cases hk
  · rcases connects_passes hs hc hk with ⟨heq, _⟩ | ⟨_, t, ht, hp⟩
    · exact absurd heq he
    · exact (h k t ht).passes hp

theorem listens_callback (hset : Settled d) (hc : Callback env d e d')
    (h : ∀ k s, d.session k = some s → Listens s) (hk : d'.session k = some s') :
    Listens s' := by
  cases hc with
  | accept =>
    rw [onClientConnecting, session_addSession, Option.or_eq_some_iff] at hk
    rcases hk with hk | ⟨_, hk⟩
    · exact h k s' hk
    · split_ifs at hk
      rw [Option.some.injEq] at hk
      subst hk
      exact ⟨.inl rfl, fun hst => (by cases hst)⟩
  | @hangUp sid recv sys as s d' _ hs _ _ hcl =>
    refine listens_closes (session_hangUp_self as hs) hcl (fun j hj t ht => ?_) hk
    rw [session_hangUp as, if_neg hj] at ht
    exact h j t ht
  | @ignore sid pkt => exact listens_map h hk (session_receive sid pkt) fun _ => ⟨rfl, rfl, rfl⟩
  | @noFds sid pkt sys s t d₁ d' _ hs _ ht hcl h₂ =>
    obtain ⟨c, _, _, rfl⟩ := noFds_kills (settled_receive hset hs) ht hcl h₂
    exact listens_map h hk (session_receive sid pkt) fun _ => ⟨rfl, rfl, rfl⟩
  | @connect sid pkt sys r s d' _ hs _ _ hcon =>
    refine listens_connects (session_introduce_self pkt r hs) hcon (fun j t ht => ?_) hk
    exact listens_map h ht (session_introduce sid pkt r) fun _ => ⟨rfl, rfl, rfl⟩
  | @listSessions sid pkt sys r as s d' _ hs _ _ hcl =>
    have hsi : ((d.introduce sid pkt r).act as).session sid = _ := session_introduce_self pkt r hs
    refine listens_closes hsi hcl (fun j hj t ht => ?_) hk
    rw [session_act, session_introduce, if_neg hj] at ht
    exact h j t ht
  | @otherCommand sid pkt _ r =>
    exact listens_map h hk (session_introduce sid pkt r) fun _ => ⟨rfl, rfl, rfl⟩
  | processExits => exact h k s' hk
  | reapUnwatched => exact h k s' hk
  | @reap pid sys s t c d' _ _ _ _ _ ht hcl =>
    refine listens_closes (session_stop_moveProcess ht) hcl (fun j hj u hu => ?_) hk
    rw [session_stopChildWatcher, if_neg hj] at hu
    exact h j u hu
  | unrouted => exact h k s' hk
  | attach =>
    exact listens_map h hk (session_modifySession _ _ _ _ fun _ => rfl) fun _ => ⟨rfl, rfl, rfl⟩
  | proxied =>
    exact listens_map h hk (session_modifySession _ _ _ _ fun _ => rfl) fun _ => ⟨rfl, rfl, rfl⟩
  | signal => exact h k s' hk

theorem listens_run (h : Run (Next env) (initial bs fs sd) es d) (ho : AtMostOneSetup es) :
    ∀ k s, d.session k = some s → Listens s := by
  refine h.history (fun es d => AtMostOneSetup es → ∀ k s, d.session k = some s → Listens s) ?_ ?_
    ho
  · exact fun _ k s hs => (by cases hs)
  · intro es t e u hr ih hn ho k s hk
    exact listens_callback (orderly_run hr ho.of_append).settled (callback_of_next hn)
      (ih ho.of_append) hk

def effort (d : Daemon) : ℕ :=
  (d.sessions.map Session.effort).sum + (d.processes.map fun p => p.state.effort).sum

theorem effort_modifySession {f : Session → Session} (hid : (d.sessions.map Session.id).Nodup)
    (hs : d.session sid = some s) :
    (d.modifySession sid f).effort + s.effort = d.effort + (f s).effort := by
  have hsum := KeyedList.sum_modify Session.effort f hid hs
  simp only [effort, modifySession]
  omega

theorem effort_departed (hid : (d.sessions.map Session.id).Nodup) (hs : d.session sid = some s) :
    (d.departed sid).effort + s.effort = d.effort := by
  obtain ⟨_, hps, _, hss⟩ := departed_fields hs
  have hsum := KeyedList.sum_remove Session.effort hid hs
  simp only [effort, hps, hss]
  omega

theorem grant_sessions (b : BoardSpec) (argv : List Bytes) (pid : Pid) (now : ℤ) :
    (d.grant sid i s b argv pid now).sessions =
      KeyedList.modify Session.id sid (Session.granted i pid now) d.sessions := by
  simp only [grant, modifySession_sessions, act_sessions, setProcesses_sessions,
    modifyBoard_sessions]
  rw [KeyedList.modify_modify]
  · rfl
  · exact fun _ => rfl

theorem startClosing_sessions (argv : List Bytes) (pid : Pid) :
    (d.startClosing sid i argv pid).sessions =
      KeyedList.modify Session.id sid (Session.closing pid) d.sessions := by
  simp only [startClosing, modifySession_sessions, setProcesses_sessions]
  rw [KeyedList.modify_modify]
  · rfl
  · exact fun _ => rfl

theorem effort_start {f : Session → Session} {n : Process}
    (hid : (d.sessions.map Session.id).Nodup) (hs : d.session sid = some s)
    (hss : d'.sessions = KeyedList.modify Session.id sid f d.sessions)
    (hps : d'.processes = d.processes ++ [n]) (hn : n.state = .running)
    (hf : (f s).effort + 2 = s.effort) : d'.effort = d.effort := by
  have hsum := KeyedList.sum_modify Session.effort f hid hs
  have hproc : (d'.processes.map fun p => p.state.effort).sum =
      (d.processes.map fun p => p.state.effort).sum + 2 := by
    rw [hps, List.map_append, List.sum_append, List.map_singleton, List.sum_singleton, hn]
    rfl
  rw [effort, effort, hproc, hss]
  omega

theorem effort_grant {b : BoardSpec} {argv : List Bytes} {pid : Pid} {now : ℤ}
    (hid : (d.sessions.map Session.id).Nodup) (hs : d.session sid = some s)
    (hst : s.status = .awaitingBoard) : (d.grant sid i s b argv pid now).effort = d.effort := by
  refine effort_start hid hs (grant_sessions b argv pid now)
    (grant_fields b argv pid now).2.1 rfl ?_
  rw [Session.effort, Session.effort, hst]
  rfl

theorem effort_startClosing {argv : List Bytes} {pid : Pid}
    (hid : (d.sessions.map Session.id).Nodup) (hs : d.session sid = some s)
    (hst : s.status = .hasBoard) : (d.startClosing sid i argv pid).effort = d.effort := by
  refine effort_start hid hs (startClosing_sessions argv pid) (startClosing_fields argv pid).2.2.1
    rfl ?_
  rw [Session.effort, Session.effort, hst]
  rfl

theorem effort_leaves (h : d.view.Coherent) (hs : d.session sid = some s)
    (hl : Leaves env sys d sid d') : d'.effort ≤ d.effort := by
  have hdep := effort_departed h.ids_nodup hs
  cases hl with
  | idle =>
    rw [exitIfIdle_eq_silent]
    exact Nat.le.intro hdep
  | @handOver v i t b argv pid hf ht =>
    have hids : ((d.departed sid).sessions.map Session.id).Nodup := by
      rw [(departed_fields hs).2.2.2, KeyedList.keys_remove]
      exact List.Nodup.filter _ h.ids_nodup
    have hst : t.status = .awaitingBoard := by
      obtain ⟨pre, post, _, hq, _⟩ := findWaiting_some hf
      have hmem : v ∈ (d.departed sid).waitQueue := hq ▸ List.mem_append_right _ List.mem_cons_self
      rw [(departed_fields hs).1] at hmem
      obtain ⟨hmem, hne⟩ := List.mem_filter.1 hmem
      rw [departed_session, if_neg (of_decide_eq_true hne)] at ht
      obtain ⟨u, hu, hst⟩ := h.queued v hmem
      rw [view_tenant ht, Option.some.injEq] at hu
      subst hu
      exact hst
    have hgrant : (((d.departed sid).dequeue v).grant v i t b argv pid sys.now).effort =
        (d.departed sid).effort := effort_grant hids ht hst
    rw [exitIfIdle_eq_silent]
    exact hgrant.trans_le (Nat.le.intro hdep)

theorem effort_closes (h : d.view.Coherent) (hs : d.session sid = some s)
    (hc : Closes env sys d sid s d') : d'.effort ≤ d.effort := by
  cases hc with
  | kill => exact Nat.le_refl _
  | startClosing hst => exact (effort_startClosing h.ids_nodup hs hst).le
  | leave _ hl => exact effort_leaves h hs hl

theorem effort_moveProcess {pid : Pid} {a b : ProcessState} (h : d.hasProcess pid a = true)
    (hab : b.effort < a.effort) : (d.moveProcess pid a b).effort < d.effort := by
  obtain ⟨p, hp, hpa⟩ := List.any_eq_true.1 h
  obtain ⟨hpid, hst⟩ := of_decide_eq_true hpa
  have hsum : (d.processes.map fun p => (p.moved pid a b).state.effort).sum <
      (d.processes.map fun p => p.state.effort).sum := by
    refine List.sum_lt_sum _ _ (fun q _ => ?_) ⟨p, hp, ?_⟩
    · unfold Process.moved
      split_ifs with hq
      · exact (hq.2 ▸ hab).le
      · exact Nat.le_refl _
    · rw [Process.moved, if_pos ⟨hpid, hst⟩, hst]
      exact hab
  simp only [effort, moveProcess, setProcesses, List.map_map]
  exact Nat.add_lt_add_left hsum _

theorem effort_hangUp {recv : Except Errno Packet} (h : Settled d) (hs : d.session sid = some s)
    (hw : s.clientWatcher = true) (hr : recvEnds recv = true)
    (hd : Session.onDataFromClient env sys d sid recv = .returned d') : d'.effort < d.effort := by
  rw [onDataFromClient_hangUp hr] at hd
  obtain ⟨u, hu, hcl⟩ := closes_of_closeSession hd
  have hle := effort_closes ((view_hangUp _ hs).symm ▸ h.coherent) hu hcl
  have hone := effort_modifySession (d := d.act (recvFds sid recv)) (f := Session.hungUp)
    h.coherent.ids_nodup hs
  have hact : (d.act (recvFds sid recv)).effort = d.effort := rfl
  have hun : s.hungUp.effort + 1 = s.effort := by
    simp [Session.effort, Session.hungUp, hw, Nat.add_comm]
  omega

theorem effort_reap {c : ChildWatcher} (h : Settled d) (hs : d.session sid = some s)
    (hc : s.childWatcher = some c) (hz : d.hasProcess c.pid .zombie = true)
    (hcl : Closes env sys (Session.stopChildWatcher (d.moveProcess c.pid .zombie .reaped) sid) sid
      { s with childWatcher := none } d') : d'.effort < d.effort := by
  have hstep := view_reap (fun _ _ => True) (fun _ _ => True) hs hc hz
  have hle := effort_closes (h.coherent.step hstep) (session_stop_moveProcess hs) hcl
  have hsame := effort_modifySession (d := d.moveProcess c.pid .zombie .reaped)
    (f := fun s => { s with childWatcher := none }) h.coherent.ids_nodup hs
  have heq : Session.effort { s with childWatcher := none } = s.effort := rfl
  have hlt := effort_moveProcess hz (b := .reaped) (by decide)
  unfold Session.stopChildWatcher at hle
  omega

theorem effort_lt_of_next (h : Settled d) (hn : d.Next env e d') (he : e.drains = true) :
    d'.effort < d.effort := by
  obtain ⟨hen, hd⟩ := next_iff.1 hn
  cases e with
  | clientData sid recv sys =>
    obtain ⟨s, hs, hw⟩ := (Option.any_eq_true _ _).1 (Bool.and_eq_true_iff.1 hen).1
    exact effort_hangUp h hs hw he hd
  | processExits pid =>
    rw [← Outcome.returned.inj hd]
    exact effort_moveProcess hen (by decide)
  | childReaped pid sys =>
    cases callback_of_next hn with
    | reapUnwatched => exact effort_moveProcess (Bool.and_eq_true_iff.1 hen).1 (by decide)
    | reap hz _ hs hc hpid ht hcl =>
      subst hpid
      rw [h.session_of_mem hs, Option.some.injEq] at ht
      subst ht
      exact effort_reap h (h.session_of_mem hs) hc hz hcl
    | proxied hp => cases hp
  | _ => cases he

/-! Some such callback can run as long as anything is left. -/

def Splits (env : Env) (d : Daemon) : Prop :=
  ∀ i b, d.spec i = some b → env.splitUnix b.command ≠ none ∧ env.splitUnix b.closeCommand ≠ none

theorem LaunchFault.elim {f : Fault} {own : List ℤ} {pid : Pid}
    (hf : LaunchFault env (Sample.sys pid) d own f) (hsplit : d.Splits env) : False := by
  rcases hf with ⟨e, _, he⟩ | ⟨_, i, b, hb, hn | hn⟩ | ⟨_, fd, _, hp⟩
  · cases he
  · exact (hsplit i b hb).1 hn
  · exact (hsplit i b hb).2 hn
  · cases hp

theorem exists_next (h : Sound none d) (hen : d.enabled e = true) (he : e.drains = true)
    (hf : ∀ f, ¬d.MayThrow env e f) : ∃ d', d.Next env e d' := by
  have hthrows : (d.step env e).Throws (d.MayThrow env e) := throws_step h hen fun x hx => by
    rw [Event.setup_of_drains he] at hx
    cases hx
  cases hd : d.step env e with
  | returned d' => exact ⟨d', next_iff.2 ⟨hen, hd⟩⟩
  | threw f d' =>
    rw [hd, Outcome.throws_threw] at hthrows
    exact absurd hthrows (hf f)

/-- A callback for a client that has gone or a child that has ended. -/
def Drain (env : Env) (d : Daemon) (e : Event) (d' : Daemon) : Prop :=
  e.drains = true ∧ d.Next env e d'

theorem exists_drain_of_process {p : Process} (h : Settled d) (hsound : Sound none d)
    (hsplit : d.Splits env) (hp : p ∈ d.processes) (hst : p.state ≠ .reaped) :
    ∃ e d', Drain env d e d' ∧ e.hangUp? = none := by
  have hhas : ∀ {a}, p.state = a → d.hasProcess p.pid a = true := fun ha =>
    List.any_eq_true.2 ⟨p, hp, decide_eq_true ⟨rfl, ha⟩⟩
  cases hs : p.state with
  | running => exact ⟨.processExits p.pid, _, ⟨rfl, next_iff.2 ⟨hhas hs, rfl⟩⟩, rfl⟩
  | zombie =>
    -- the pid of the reaped child is free again
    have hfresh : forkFresh (Sample.sys p.pid)
        (d.moveProcess p.pid .zombie .reaped).processes = true := by
      refine List.all_eq_true.2 fun q hq => decide_eq_true fun hpid => ?_
      obtain ⟨r, hr, rfl⟩ := List.mem_map.1 hq
      split_ifs at hpid ⊢ with hm
      · rfl
      · by_contra hrs
        obtain rfl := h.coherent.pids r hr p hp hrs hst hpid
        exact hm ⟨rfl, hs⟩
    have hen : d.enabled (.childReaped p.pid (Sample.sys p.pid)) = true :=
      Bool.and_eq_true_iff.2 ⟨hhas hs, hfresh⟩
    obtain ⟨d', hd⟩ := exists_next hsound hen rfl fun f hf => LaunchFault.elim hf hsplit
    exact ⟨_, d', ⟨rfl, hd⟩, rfl⟩
  | reaped => exact absurd hs hst

theorem exists_drain_of_session (h : Settled d) (hsound : Sound none d) (hsplit : d.Splits env)
    (hlisten : Listens s) (hall : ∀ p ∈ d.processes, p.state = .reaped)
    (hs : d.session sid = some s) : ∃ e d', Drain env d e d' ∧ e.hangUp? = some sid := by
  have hw : s.clientWatcher = true := by
    refine hlisten.active.resolve_right fun hc => ?_
    obtain ⟨c, hc⟩ := Option.ne_none_iff_exists'.1 hc
    obtain ⟨p, hp, hst, _⟩ := h.coherent.watched sid s.tenant c (view_tenant hs) hc
    exact hst (hall p hp)
  have hfresh : forkFresh (Sample.sys 0) d.processes = true :=
    List.all_eq_true.2 fun p hp => decide_eq_true fun _ => hall p hp
  have hen : d.enabled (.clientData sid (.error 0) (Sample.sys 0)) = true :=
    Bool.and_eq_true_iff.2 ⟨(Option.any_eq_true _ _).2 ⟨s, hs, hw⟩, hfresh⟩
  obtain ⟨d', hd⟩ := exists_next hsound hen rfl fun f hf => LaunchFault.elim hf hsplit
  exact ⟨_, d', ⟨rfl, hd⟩, rfl⟩

structure Idle (d : Daemon) : Prop where
  sessions : d.sessions = []
  queue : d.waitQueue = []
  boards : ∀ i, d.owner i = none
  processes : ∀ p ∈ d.processes, p.state = .reaped

theorem spec_run (h : Run (Next env) (initial bs fs sd) es d) (ho : AtMostOneSetup es) :
    d.spec = (initial bs fs sd).spec := by
  refine h.history (fun es d => AtMostOneSetup es → d.spec = (initial bs fs sd).spec) ?_ ?_ ho
  · exact fun _ => rfl
  · intro es t e u hr ih hn ho
    exact (spec_of_next (orderly_run hr ho.of_append) ho hn).trans (ih ho.of_append)

section Reached

def Reached (env : Env) (bs : List BoardSpec) (fs : List ProxyFactory) (sd : Bool) (d : Daemon) :
    Prop :=
  ∃ es, Run (Next env) (initial bs fs sd) es d ∧ AtMostOneSetup es

theorem Reached.drain (h : Reached env bs fs sd d) (hd : Drain env d e d') :
    Reached env bs fs sd d' ∧ d'.effort < d.effort := by
  obtain ⟨es, hr, ho⟩ := h
  exact ⟨⟨es ++ [e], hr.snoc hd.2, ho.of_drains hd.1⟩,
    effort_lt_of_next (orderly_run hr ho).settled hd.2 hd.1⟩

theorem Reached.splits (h : Reached env bs fs sd d)
    (hsplit : ∀ b ∈ bs, env.splitUnix b.command ≠ none ∧ env.splitUnix b.closeCommand ≠ none) :
    d.Splits env := by
  obtain ⟨es, hr, ho⟩ := h
  intro i b hb
  rw [spec_run hr ho] at hb
  simp only [spec, initial, List.getElem?_map, Option.map_map] at hb
  obtain ⟨c, hc, rfl⟩ := Option.map_eq_some_iff.1 hb
  exact hsplit c (List.mem_of_getElem? hc)

theorem Reached.reaped (h : Reached env bs fs sd d) (hsplit : d.Splits env)
    (hstuck : ∀ e d', e.hangUp? = none → ¬Drain env d e d') :
    ∀ p ∈ d.processes, p.state = .reaped := by
  obtain ⟨es, hr, ho⟩ := h
  intro p hp
  by_contra hst
  obtain ⟨e, d', hd, he⟩ :=
    exists_drain_of_process (orderly_run hr ho).settled (sound_run hr) hsplit hp hst
  exact hstuck e d' he hd

theorem Reached.gone (h : Reached env bs fs sd d) (hsplit : d.Splits env)
    (hall : ∀ p ∈ d.processes, p.state = .reaped)
    (hstuck : ∀ e d', e.hangUp? = some k → ¬Drain env d e d') : d.session k = none := by
  obtain ⟨es, hr, ho⟩ := h
  by_contra hk
  obtain ⟨s, hs⟩ := Option.ne_none_iff_exists'.1 hk
  obtain ⟨e, d', hd, he⟩ := exists_drain_of_session (orderly_run hr ho).settled
    (sound_run hr) hsplit (listens_run hr ho k s hs) hall hs
  exact hstuck e d' he hd

theorem Reached.idle (h : Reached env bs fs sd d)
    (hsplit : ∀ b ∈ bs, env.splitUnix b.command ≠ none ∧ env.splitUnix b.closeCommand ≠ none)
    (hstuck : ∀ e d', ¬Drain env d e d') : d.Idle := by
  have hall := h.reaped (h.splits hsplit) fun e d' _ => hstuck e d'
  have hnone : ∀ k, d.session k = none := fun k =>
    h.gone (h.splits hsplit) hall fun e d' _ => hstuck e d'
  obtain ⟨es, hr, ho⟩ := h
  have hset := (orderly_run hr ho).settled
  refine { sessions := ?_, queue := ?_, boards := ?_, processes := hall }
  · refine List.eq_nil_iff_forall_not_mem.2 fun s hs => ?_
    have hsome := hset.session_of_mem hs
    rw [hnone] at hsome
    cases hsome
  · exact List.eq_nil_iff_forall_not_mem.2 fun k hk => (sound_run hr).queued k hk (hnone k)
  · intro i
    cases ho : d.owner i with
    | none => rfl
    | some k =>
      obtain ⟨s, hs, _⟩ := hset.owner_mem ho
      have hsome := hset.session_of_mem hs
      rw [hnone] at hsome
      cases hsome

end Reached

/-- When the clients go and the children end, the daemon comes to rest with all boards
free, whatever the order, and after a bounded number of callbacks. -/
theorem always_drains (h : Run (Next env) (initial bs fs sd) es d) (ho : AtMostOneSetup es)
    (hsplit : ∀ b ∈ bs, env.splitUnix b.command ≠ none ∧ env.splitUnix b.closeCommand ≠ none) :
    (∃ es' d', Run (Drain env) d es' d' ∧ d'.Idle) ∧
      ∀ es' d', Run (Drain env) d es' d' → es'.length ≤ d.effort ∧
        ((∀ e d'', ¬Drain env d' e d'') → d'.Idle) := by
  have hd : Reached env bs fs sd d := ⟨es, h, ho⟩
  have hstep : ∀ t e u, Reached env bs fs sd t → Drain env t e u →
      Reached env bs fs sd u ∧ u.effort < t.effort := fun _ _ _ => Reached.drain
  have hidle : ∀ {es' d'}, Run (Drain env) d es' d' → (∀ e d'', ¬Drain env d' e d'') → d'.Idle :=
    fun hr => (hr.invariant _ hd fun t e u ht hu => (hstep t e u ht hu).1).idle hsplit
  refine ⟨?_, fun es' d' hr => ⟨?_, hidle hr⟩⟩
  · obtain ⟨es', d', hr, hstuck⟩ := Run.exists_stuck hstep hd
    exact ⟨es', d', hr, hidle hr hstuck⟩
  · exact (Nat.le_add_right _ _).trans (Run.length_add_le hstep hd hr)

theorem always_drains_waiting_client : ∃ d,
    (Run (Next Sample.env) (initial [Sample.board (ascii "off") []] [] false)
      [Sample.accept, Sample.connect 0 7 100, Sample.accept, Sample.connect 1 8 101] d ∧
      (d.owner 0, d.waitQueue, d.effort) = (some 0, [1], 10)) ∧
    (∃ es' d', Run (Drain Sample.env) d es' d' ∧ d'.Idle) ∧
      ∀ es' d', Run (Drain Sample.env) d es' d' → es'.length ≤ d.effort ∧
        ((∀ e d'', ¬Drain Sample.env d' e d'') → d'.Idle) := by
  refine Exists.imp (fun d hr => ⟨hr, ?_⟩)
    (exists_run (fun d : Daemon => (d.owner 0, d.waitQueue, d.effort)) (by decide +kernel))
  exact always_drains hr.1 (by decide +kernel) (by simp [Sample.env])

end Daemon
end BoardProxy
