import BoardProxy.Ownership

/-!
# The parts of a callback

A callback handles what has happened, then it may close a session, and then it may start a
command, for the session that has asked or for one that waits. Each part says what it adds
to the trace, so that what the daemon writes and which descriptors it closes can be followed
through a run.
-/

namespace BoardProxy

def Session.fields (s : Session) : ℕ × Status × Option ℕ × ℤ × ℤ × ℤ :=
  (s.id, s.status, s.board, s.fdIn, s.fdOut, s.fdErr)

namespace Daemon

variable {env : Env} {sys : Sys} {d d' d₁ d₂ : Daemon} {e : Event} {es : List Event} {sid k i : ℕ}
  {s : Session}

def asked (s : Session) (pkt : Packet) (r : Proto.Request) : Session :=
  (s.received (pkt.data.take Proto.bufferSize)).introduced pkt r

inductive Opens (e : Event) (d : Daemon) : Daemon → Prop
  | accept {cred : Bytes} {ppid : Pid} {buffer : Memory} {now : ℤ} :
      e.setup? = none → d.session d.counter = none →
      Opens e d (d.onClientConnecting cred ppid buffer now)
  | receive {sid : ℕ} {pkt : Packet} {sys : Sys} :
      e = .clientData sid (.ok pkt) sys → e.setup? = none → Opens e d (d.receive sid pkt)
  | hangUp {sid : ℕ} {recv : Except Errno Packet} {sys : Sys} :
      e = .clientData sid recv sys → recvEnds recv = true →
      Opens e d ((d.act (recvFds sid recv)).modifySession sid Session.hungUp)
  | wait {sid : ℕ} {pkt : Packet} {r : Proto.Request} {s : Session} :
      d.request? e = some (sid, pkt, r) → d.session sid = some s → s.status = .created →
      r.cmd = Proto.connect → r.noWait = false →
      Opens e d (((d.introduce sid pkt r).enqueue sid).act
        (((d.introduce sid pkt r).enqueue sid).waitNotice sid (asked s pkt r).fdErr false))
  | turnAway {sid : ℕ} {pkt : Packet} {r : Proto.Request} {s : Session} :
      d.request? e = some (sid, pkt, r) → d.session sid = some s → s.status = .created →
      r.cmd = Proto.connect → r.noWait = true →
      Opens e d ((((d.introduce sid pkt r).enqueue sid).act
        (((d.introduce sid pkt r).enqueue sid).waitNotice sid (asked s pkt r).fdErr true)).departed
          sid)
  | list {sid : ℕ} {pkt : Packet} {r : Proto.Request} {s : Session} :
      d.request? e = some (sid, pkt, r) → d.session sid = some s → s.status = .created →
      r.cmd ≠ Proto.connect → r.cmd = Proto.listSessions →
      Opens e d (((d.introduce sid pkt r).act
        ((d.introduce sid pkt r).statusNotice sid (asked s pkt r).fdOut)).departed sid)
  | other {sid : ℕ} {pkt : Packet} {r : Proto.Request} {s : Session} :
      d.request? e = some (sid, pkt, r) → d.session sid = some s → s.status = .created →
      r.cmd ≠ Proto.connect → r.cmd ≠ Proto.listSessions → Opens e d (d.introduce sid pkt r)
  | move {pid : Pid} {x y : ProcessState} : e.setup? = none → Opens e d (d.moveProcess pid x y)
  | reap {pid : Pid} {sid : ℕ} : e.setup? = none →
      Opens e d (Session.stopChildWatcher (d.moveProcess pid .zombie .reaped) sid)
  | adjust {sid : ℕ} {f : Session → Session} :
      e.setup? = none → (∀ s, (f s).fields = s.fields) → Opens e d (d.modifySession sid f)
  | flag {b : Bool} : e.setup? = none → Opens e d { d with breakLoop := b }

inductive Shuts (d : Daemon) : Daemon → Prop
  | same : Shuts d d
  | kill {sid : ℕ} {pid : Pid} : Shuts d (d.act [.kill sid pid])
  | startClosing {sid i : ℕ} {s : Session} {argv : List Bytes} {pid : Pid} :
      d.session sid = some s → s.status = .hasBoard → Shuts d (d.startClosing sid i argv pid)
  | depart {sid : ℕ} {s : Session} : d.session sid = some s → Shuts d (d.departed sid)

/-- The whole callback. A command is started at its end or not at all. -/
inductive Course (e : Event) (d : Daemon) : Daemon → Prop
  | quiet {d₁ d₂ : Daemon} {b : Bool} :
      Opens e d d₁ → Shuts d₁ d₂ → Course e d { d₂ with breakLoop := b }
  | serve {sid i : ℕ} {pkt : Packet} {r : Proto.Request} {s : Session} {b : BoardSpec}
      {argv : List Bytes} {pid : Pid} {now : ℤ} :
      d.request? e = some (sid, pkt, r) → d.session sid = some s → s.status = .created →
      r.cmd = Proto.connect → d.spec i = some b →
      Course e d ((d.introduce sid pkt r).grant sid i (asked s pkt r) b argv pid now)
  | handOver {d₁ d₂ : Daemon} {v i : ℕ} {t : Session} {b : BoardSpec} {argv : List Bytes}
      {pid : Pid} {now : ℤ} {x : Bool} :
      Opens e d d₁ → Shuts d₁ d₂ → v ∈ d₂.waitQueue → d₂.session v = some t →
      t.status = .awaitingBoard → d₂.spec i = some b →
      Course e d { (d₂.dequeue v).grant v i t b argv pid now with breakLoop := x }

def QueueWaits (d : Daemon) (sid : ℕ) : Prop :=
  ∀ v ∈ d.waitQueue, v ≠ sid → ∀ t, d.session v = some t → t.status = .awaitingBoard

theorem QueueWaits.of_coherent (h : d.view.Coherent) (sid : ℕ) : d.QueueWaits sid := by
  intro v hv _ t ht
  obtain ⟨u, hu, hst⟩ := h.queued v hv
  rw [view_tenant ht, Option.some.injEq] at hu
  subst hu
  exact hst

theorem course_leaves (hopen : Opens e d d₁) (hshut : Shuts d₁ (d₂.departed sid))
    (hs : d₂.session sid = some s) (hq : d₂.QueueWaits sid) (hl : Leaves env sys d₂ sid d') :
    Course e d d' := by
  cases hl with
  | idle =>
    rw [exitIfIdle_eq_silent]
    exact .quiet hopen hshut
  | @handOver v i t b argv pid hf ht hspec =>
    obtain ⟨pre, post, _, hpq, _⟩ := findWaiting_some hf
    have hmem : v ∈ (d₂.departed sid).waitQueue :=
      hpq ▸ List.mem_append_right _ List.mem_cons_self
    have hst : t.status = .awaitingBoard := by
      rw [(departed_fields hs).1] at hmem
      obtain ⟨hmem, hne⟩ := List.mem_filter.1 hmem
      rw [departed_session, if_neg (of_decide_eq_true hne)] at ht
      exact hq v hmem (of_decide_eq_true hne) t ht
    rw [exitIfIdle_eq_silent]
    refine .handOver hopen hshut hmem ht hst ?_
    rw [departed_spec]
    exact hspec

theorem course_closes (hopen : Opens e d d₁) (hs : d₁.session sid = some s)
    (hq : d₁.QueueWaits sid) (hc : Closes env sys d₁ sid s d') : Course e d d' := by
  cases hc with
  | kill => exact .quiet hopen .kill
  | startClosing hst => exact .quiet hopen (.startClosing hs hst)
  | leave _ hl => exact course_leaves hopen (.depart hs) hs hq hl

theorem course_connect {pkt : Packet} {r : Proto.Request} (hreq : d.request? e = some (sid, pkt, r))
    (hs : d.session sid = some s) (hst : s.status = .created) (hcmd : r.cmd = Proto.connect)
    (hq : d.QueueWaits sid)
    (h : Session.onConnect env sys (d.introduce sid pkt r) sid r.noWait = .returned d') :
    Course e d d' := by
  obtain ⟨t, ht, hcase⟩ := onConnect_returned h
  rw [session_introduce_self pkt r hs, Option.some.injEq] at ht
  subst ht
  rcases hcase with ⟨i, _, ha⟩ | ⟨_, hno, rfl⟩ | ⟨_, hno, hcl⟩
  · obtain ⟨t, b, argv, pid, ht, hb, _, _, rfl⟩ := sessionAssignBoard_returned ha
    have hself : ((d.introduce sid pkt r).setAwaiting sid).session sid =
        some { asked s pkt r with status := .awaitingBoard } :=
      enqueue_session_self (session_introduce_self pkt r hs)
    rw [hself, Option.some.injEq] at ht
    subst ht
    rw [grant_setAwaiting]
    exact .serve hreq hs hst hcmd hb
  · rw [hno]
    exact .quiet (.wait hreq hs hst hcmd hno) .same
  · rw [hno] at hcl
    refine course_leaves (.turnAway hreq hs hst hcmd hno) .same
      (enqueue_session_self (session_introduce_self pkt r hs)) ?_ (leaves_of_closeSession hcl)
    intro v hv hne u hu
    have hold : v ∈ d.waitQueue :=
      (List.mem_append.1 hv).resolve_right fun hmem => hne (List.mem_singleton.1 hmem)
    rw [session_act, enqueue_session, if_neg hne, session_introduce, if_neg hne] at hu
    exact hq v hold hne u hu

theorem course_setup {pkt : Packet} (h : Orderly es d) (hs : d.session sid = some s)
    (hst : s.status = .created) (hset : e.setup? = some (sid, pkt))
    (hr : Session.onSetupMsg env sys (d.receive sid pkt) sid pkt = .returned d') :
    Course e d d' := by
  have hself := session_receive_self pkt hs
  rcases onSetupMsg_returned hr with ⟨_, d₁, h₁, h₂⟩ | ⟨hf, t, r, ht, hread, hcase⟩
  · -- the first of the two calls has destroyed the session
    obtain ⟨t, ht, hcl⟩ := closes_of_closeSession h₁
    obtain ⟨_, hhas, _⟩ := noFds_kills (settled_receive h.settled hs) ht hcl h₂
    rw [hself, Option.some.injEq] at ht
    subst ht
    rw [show (s.received _).status = s.status from rfl, hst] at hhas
    cases hhas
  · rw [hself, Option.some.injEq] at ht
    subst ht
    have hreq : d.request? e = some (sid, pkt, r) := by
      have hread' : Proto.readSetup (s.buffer.store (pkt.data.take Proto.bufferSize)) = some r :=
        hread
      simp only [request?, hset, Option.bind_some, if_neg hf, hs, hread', Option.map_some]
    have hq := QueueWaits.of_coherent h.settled.coherent sid
    rcases hcase with ⟨hcmd, hcon⟩ | ⟨hne, hcmd, hcl⟩ | ⟨hne, hne', rfl⟩
    · exact course_connect hreq hs hst hcmd hq hcon
    · obtain ⟨t, ht, hcl⟩ := closes_of_closeSession hcl
      have hsi : ((d.introduce sid pkt r).act
          ((d.introduce sid pkt r).statusNotice sid (asked s pkt r).fdOut)).session sid =
          some (asked s pkt r) := session_introduce_self pkt r hs
      have hts : t = asked s pkt r := Option.some.inj (ht.symm.trans hsi)
      subst hts
      have hcreated : (asked s pkt r).status = .created := hst
      cases hcl with
      | kill hhas =>
        rw [hcreated] at hhas
        cases hhas
      | startClosing hhas =>
        rw [hcreated] at hhas
        cases hhas
      | leave _ hl =>
        refine course_leaves (.list hreq hs hst hne hcmd) .same ht ?_ hl
        intro v hv hvne u hu
        have hu' : (d.introduce sid pkt r).session v = some u := hu
        rw [session_introduce, if_neg hvne] at hu'
        exact hq v hv hvne u hu'
    · exact .quiet (.other hreq hs hst hne hne') .same

theorem course_of_next (h : Orderly es d) (ho : AtMostOneSetup (es ++ [e])) (hn : d.Next env e d') :
    Course e d d' := by
  have hstep := (next_iff.1 hn).2
  have hq := fun sid => QueueWaits.of_coherent h.settled.coherent sid
  have hdata : ∀ {sid recv sys s}, e = .clientData sid recv sys → d.session sid = some s →
      Course e d d' := by
    rintro sid recv sys s rfl hs
    rcases onDataFromClient_returned hs hstep with ⟨hr, hc⟩ | ⟨pkt, rfl, ⟨hnone, rfl⟩ | ⟨hset, hm⟩⟩
    · obtain ⟨t, ht, hcl⟩ := closes_of_closeSession hc
      refine course_closes (.hangUp rfl hr) ht ?_ hcl
      intro v hv hne u hu
      rw [session_hangUp, if_neg hne] at hu
      exact hq sid v hv hne u hu
    · exact .quiet (.receive rfl hnone) .same
    · refine course_setup h hs ?_ hset hm
      exact h.created ho (by rw [Event.IsSetupFor, hset]; rfl) hs
  cases callback_of_next hn with
  | accept =>
    refine .quiet (.accept rfl ?_) .same
    by_contra hk
    obtain ⟨s, hs⟩ := Option.ne_none_iff_exists'.1 hk
    exact Nat.lt_irrefl _ (h.settled.coherent.tenant_lt _ _ (view_tenant hs))
  | hangUp _ hs => exact hdata rfl hs
  | ignore _ hs => exact hdata rfl hs
  | noFds _ hs => exact hdata rfl hs
  | connect _ hs => exact hdata rfl hs
  | listSessions _ hs => exact hdata rfl hs
  | otherCommand _ hs => exact hdata rfl hs
  | processExits => exact .quiet (.move rfl) .same
  | reapUnwatched => exact .quiet (.move rfl) .same
  | @reap pid sys s t c d' _ _ _ _ _ ht hcl =>
    refine course_closes (.reap rfl) (session_stop_moveProcess ht) ?_ hcl
    intro v hv hne u hu
    rw [session_stopChildWatcher, if_neg hne] at hu
    exact hq s.id v hv hne u hu
  | unrouted => exact .quiet (.flag rfl) .same
  | @attach listener peer io _ s _ conn =>
    have hop : Opens (.socketConnecting listener peer io) d (Session.addProxy d s.id peer conn) :=
      .adjust rfl fun _ => rfl
    exact .quiet hop .same
  | @proxied e sid pid _ _ conn he =>
    have hset : e.setup? = none := by
      cases e with
      | clientData => cases he
      | _ => rfl
    have hop : Opens e d (d.modifySession sid (Session.withProxies (setProxy pid conn) 0)) :=
      .adjust hset fun _ => rfl
    exact .quiet hop .same
  | signal => exact .quiet (.flag rfl) .same

end Daemon
end BoardProxy
