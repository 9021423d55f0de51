import BoardProxy.WaitQueue

/-!
# Clients that are turned away

A client that wants no board, does not wait for one or hangs up before it has
one is closed on the general path, which also scans the wait queue. No board
becomes free, and a waiting user could have none of the boards that are free
already, so the scan finds nothing and the daemon is as it is without the client.
Before, the answer is printed to descriptors of the client. A pipe without a
reader among them ends the daemon.
-/

namespace BoardProxy
namespace Daemon

variable {env : Env} {sys : Sys} {d d₁ d₂ d' : Daemon} {e : Event} {es : List Event}
  {sid k : ℕ} {s : Session} {bs : List BoardSpec} {fs : List ProxyFactory} {sd : Bool}

/-- The daemon `d'` is the daemon `d` without the session `sid`. -/
structure Without (d : Daemon) (sid : ℕ) (d' : Daemon) : Prop where
  owner : ∀ i, d'.owner i = d.owner i
  sessions : d'.sessions = KeyedList.remove Session.id sid d.sessions
  waitQueue : d'.waitQueue = d.waitQueue.filter fun k => decide (k ≠ sid)
  processes : d'.processes = d.processes

structure AgreeBut (sid : ℕ) (d d₁ : Daemon) : Prop where
  owner : ∀ i, d₁.owner i = d.owner i
  spec : ∀ i, d₁.spec i = d.spec i
  sessions : KeyedList.remove Session.id sid d₁.sessions =
    KeyedList.remove Session.id sid d.sessions
  waitQueue : (d₁.waitQueue.filter fun k => decide (k ≠ sid)) =
    d.waitQueue.filter fun k => decide (k ≠ sid)
  processes : d₁.processes = d.processes

namespace AgreeBut

theorem trans (h : AgreeBut sid d d₁) (h₂ : AgreeBut sid d₁ d₂) : AgreeBut sid d d₂ where
  owner i := (h₂.owner i).trans (h.owner i)
  spec i := (h₂.spec i).trans (h.spec i)
  sessions := h₂.sessions.trans h.sessions
  waitQueue := h₂.waitQueue.trans h.waitQueue
  processes := h₂.processes.trans h.processes

theorem act (d : Daemon) (as : List Action) : AgreeBut sid d (d.act as) :=
  ⟨fun _ => rfl, fun _ => rfl, rfl, rfl, rfl⟩

theorem modifySession (d : Daemon) {f : Session → Session} (hf : ∀ s, (f s).id = s.id) :
    AgreeBut sid d (d.modifySession sid f) :=
  ⟨fun _ => rfl, fun _ => rfl, KeyedList.remove_modify sid f hf d.sessions, rfl, rfl⟩

theorem introduce (d : Daemon) (pkt : Packet) (r : Proto.Request) :
    AgreeBut sid d (d.introduce sid pkt r) :=
  ((act d _).trans (modifySession _ (f := Session.received _) fun _ => rfl)).trans
    (modifySession _ (f := Session.introduced pkt r) fun _ => rfl)

theorem hangUp (d : Daemon) (as : List Action) :
    AgreeBut sid d ((d.act as).modifySession sid Session.hungUp) :=
  (act d as).trans (modifySession _ fun _ => rfl)

theorem enqueue (d : Daemon) : AgreeBut sid d (d.enqueue sid) := by
  refine (modifySession d (f := fun s => { s with status := .awaitingBoard }) fun _ => rfl).trans
    ⟨fun _ => rfl, fun _ => rfl, rfl, ?_, rfl⟩
  simp [Daemon.enqueue, setAwaiting]

theorem session (h : AgreeBut sid d d₁) (hk : k ≠ sid) : d₁.session k = d.session k := by
  have h₁ := d₁.session_removeSession sid k
  have h₂ := d.session_removeSession sid k
  rw [if_neg hk] at h₁ h₂
  rw [← h₁, ← h₂]
  exact congrArg (KeyedList.lookup Session.id k) h.sessions

theorem unserved (h : AgreeBut sid d d₁) (hk : k ≠ sid) (hu : d.Unserved k) : d₁.Unserved k := by
  obtain ⟨s, hs, hno⟩ := hu
  refine ⟨s, (h.session hk).trans hs, fun i bd hb ho => hno i bd ?_ ?_⟩
  · rw [← h.spec i, hb]
  · rw [← h.owner i, ho]

theorem departed (hs : d.session sid = some s) (hb : s.board = none) :
    AgreeBut sid d (d.departed sid) := by
  obtain ⟨hq, hp, _, hsess⟩ := departed_fields hs
  refine ⟨fun i => ?_, fun i => departed_spec, ?_, ?_, hp⟩
  · rw [departed_owner hs, hb, if_neg (Option.some_ne_none i).symm]
  · rw [hsess, KeyedList.remove_remove]
  · rw [hq]
    simp

theorem closeSession (h : AgreeBut sid d d₁) (hs : d₁.session sid = some s) (hb : s.board = none)
    (hq : ∀ k ∈ d.waitQueue, d.Unserved k) :
    ∃ d', Daemon.closeSession env sys d₁ sid = .returned d' ∧ d.Without sid d' := by
  have hd := h.trans (departed hs hb)
  obtain ⟨hwait, hproc, _, hsess⟩ := departed_fields hs
  have hnone : (d₁.departed sid).findWaiting (d₁.departed sid).waitQueue = .ok none := by
    refine findWaiting_none.2 fun k hk => ?_
    rw [hwait, h.waitQueue] at hk
    obtain ⟨hk, hne⟩ := List.mem_filter.1 hk
    obtain ⟨t, ht, hno⟩ := hd.unserved (of_decide_eq_true hne) (hq k hk)
    exact ⟨t, ht, findAvailableBoard_none.2 hno⟩
  have hserve : serveWaiting env sys (d₁.departed sid) = .returned (d₁.departed sid) := by
    rw [serveWaiting, hnone]
  refine ⟨(d₁.departed sid).exitIfIdle, ?_, ?_⟩
  · change (serveWaiting env sys (d₁.departed sid)).map exitIfIdle = _
    rw [hserve]
    rfl
  · rw [exitIfIdle_eq_silent]
    exact ⟨hd.owner, hsess.trans h.sessions, hwait.trans h.waitQueue, hd.processes⟩

end AgreeBut

/-- The event `e` turns the client of the session `sid` away, after the events
`es`. -/
inductive TurnedAway (es : List Event) (d : Daemon) (sid : ℕ) : Event → Prop
  | noWait {e : Event} {pkt : Packet} {r : Proto.Request} {s : Session} :
      d.request? e = some (sid, pkt, r) → r.cmd = Proto.connect → r.noWait = true →
      d.session sid = some s →
      (∀ i bd, d.spec i = some bd → d.owner i = none → ¬bd.Eligible (r.name s.usernameCred)) →
      TurnedAway es d sid e
  | listSessions {e : Event} {pkt : Packet} {r : Proto.Request} :
      d.request? e = some (sid, pkt, r) → r.cmd = Proto.listSessions → TurnedAway es d sid e
  | neverSetUp {recv : Except Errno Packet} {sys : Sys} {s : Session} :
      recvEnds recv = true → d.session sid = some s → sid ∉ setUps es →
      TurnedAway es d sid (.clientData sid recv sys)
  | waiting {recv : Except Errno Packet} {sys : Sys} {s : Session} :
      recvEnds recv = true → d.session sid = some s → s.status = .awaitingBoard →
      TurnedAway es d sid (.clientData sid recv sys)

/-- What is printed to the client of a request finds a reader. -/
def Reads (d : Daemon) (e : Event) : Prop :=
  ∀ sid pkt sys r, e = .clientData sid (.ok pkt) sys → d.request? e = some (sid, pkt, r) →
    (r.cmd = Proto.connect → sys.brokenPipe (pkt.fd 2) = false) ∧
      (r.cmd = Proto.listSessions → (∃ t ∈ d.sessions, t.status ≠ .created) →
        sys.brokenPipe (pkt.fd 1) = false)

theorem reads_of_request {pkt : Packet} {r : Proto.Request}
    (h : d.request? (.clientData sid (.ok pkt) sys) = some (sid, pkt, r)) :
    d.Reads (.clientData sid (.ok pkt) sys) ↔
      (r.cmd = Proto.connect → sys.brokenPipe (pkt.fd 2) = false) ∧
        (r.cmd = Proto.listSessions → (∃ t ∈ d.sessions, t.status ≠ .created) →
          sys.brokenPipe (pkt.fd 1) = false) := by
  constructor
  · exact fun hr => hr sid pkt sys r rfl h
  · rintro hr k p sys' r' he hreq
    cases he
    rw [h, Option.some.injEq, Prod.mk.injEq, Prod.mk.injEq] at hreq
    rwa [← hreq.2.2]

theorem reads_of_hangUp {recv : Except Errno Packet} (hr : recvEnds recv = true) :
    d.Reads (.clientData sid recv sys) := by
  rintro k pkt sys' r he hreq
  cases he
  have hset := (of_request hreq).1
  simp [Event.setup?, of_decide_eq_true hr, Proto.headerSize] at hset

theorem statusLines_introduce_ne_nil (d : Daemon) (sid : ℕ) (pkt : Packet) (r : Proto.Request) :
    (d.introduce sid pkt r).statusLines ≠ [] ↔ ∃ t ∈ d.sessions, t.status ≠ .created := by
  have hst :
      (d.introduce sid pkt r).sessions.map Session.status = d.sessions.map Session.status := by
    simp only [introduce, receive, modifySession_sessions, act_sessions, KeyedList.modify,
      List.map_map]
    refine List.map_congr_left fun s _ => ?_
    simp only [Function.comp_apply]
    split_ifs <;> rfl
  have hiff : ∀ d : Daemon, d.statusLines ≠ [] ↔ ∃ x ∈ d.sessions.map Session.status,
      x ≠ .created := by
    intro d
    rw [statusLines, ne_eq, List.map_eq_nil_iff, List.filter_eq_nil_iff]
    simp
  rw [hiff, hst]
  simp

theorem without_of_hangUp {recv : Except Errno Packet} (hr : recvEnds recv = true)
    (hs : d.session sid = some s) (hst : s.status ≠ .hasBoard) (hb : s.board = none)
    (hq : ∀ k ∈ d.waitQueue, d.Unserved k) :
    ∃ d', Session.onDataFromClient env sys d sid recv = .returned d' ∧ d.Without sid d' := by
  have hs₁ := session_hangUp_self (recvFds sid recv) hs
  rw [onDataFromClient_hangUp hr, closeSession_of_ne hs₁ hst]
  exact (AgreeBut.hangUp d _).closeSession hs₁ hb hq

theorem without_of_request {pkt : Packet} {r : Proto.Request}
    (hreq : d.request? e = some (sid, pkt, r)) (hs : d.session sid = some s)
    (hst : s.status ≠ .hasBoard) (hb : s.board = none)
    (hr : r.cmd = Proto.listSessions ∨ r.cmd = Proto.connect ∧ r.noWait = true ∧
      d.findAvailableBoard (r.name s.usernameCred) = none)
    (hq : ∀ k ∈ d.waitQueue, d.Unserved k) :
    (d.Reads e → ∃ d', d.step env e = .returned d' ∧ d.Without sid d') ∧
      (¬d.Reads e → ∃ d', d.step env e = .threw .brokenPipe d') := by
  obtain ⟨hset, hfds, t, ht, hread⟩ := of_request hreq
  obtain ⟨sys, rfl⟩ := Event.eq_of_setup hset
  rw [hs, Option.some.injEq] at ht
  subst ht
  have hsi := session_introduce_self pkt r hs
  rw [step, onDataFromClient_request hs hset hfds hread, reads_of_request hreq]
  rcases hr with hl | ⟨hc, hn, hf⟩
  · have hne : r.cmd ≠ Proto.connect := by rw [hl]; decide
    have hlines := statusLines_introduce_ne_nil d sid pkt r
    rw [if_neg hne, if_pos hl, printStatus]
    constructor
    · rintro ⟨_, hp⟩
      have hsa : ((d.introduce sid pkt r).act [.printStatus sid (s.introduced pkt r).fdOut
          (d.introduce sid pkt r).statusLines]).session sid = _ := hsi
      rw [if_neg, Outcome.returned_bind, closeSession_of_ne hsa hst]
      · exact ((AgreeBut.introduce d pkt r).trans (.act _ _)).closeSession hsa hb hq
      · intro hboth
        exact Bool.false_ne_true ((hp hl (hlines.1 hboth.1)).symm.trans hboth.2)
    · intro hp
      rw [if_pos]
      · exact ⟨_, rfl⟩
      · by_contra hno
        refine hp ⟨fun hc => absurd hc hne, fun _ hex => ?_⟩
        exact Bool.eq_false_iff.2 fun hbr => hno ⟨hlines.2 hex, hbr⟩
  · have hne : r.cmd ≠ Proto.listSessions := by rw [hc]; decide
    rw [if_pos hc, onConnect_of_none r.noWait hsi hf, if_pos hn]
    constructor
    · rintro ⟨hp, _⟩
      have hbr : ¬sys.brokenPipe
          (((s.received (pkt.data.take Proto.bufferSize)).introduced pkt r).fdErr) = true :=
        Bool.eq_false_iff.1 (hp hc)
      rw [if_neg hbr]
      exact (((AgreeBut.introduce d pkt r).trans (.enqueue _)).trans (.act _ _)).closeSession
        (enqueue_session_self hsi) hb hq
    · intro hp
      rw [if_pos]
      · exact ⟨_, rfl⟩
      · by_contra hbr
        exact hp ⟨fun _ => Bool.eq_false_iff.2 hbr, fun hl => absurd hl hne⟩

theorem Without.connecting {cred : Bytes} {ppid : Pid} {buffer : Memory} {now : ℤ}
    (hids : ((d.onClientConnecting cred ppid buffer now).sessions.map Session.id).Nodup)
    (hq : d.counter ∉ d.waitQueue)
    (h : (d.onClientConnecting cred ppid buffer now).Without d.counter d') :
    (∀ i, d'.owner i = d.owner i) ∧ d'.sessions = d.sessions ∧ d'.waitQueue = d.waitQueue ∧
      d'.processes = d.processes := by
  refine ⟨h.owner, ?_, ?_, h.processes⟩
  · have hne : ∀ s ∈ d.sessions, s.id ≠ d.counter := by
      intro s hs hid
      simp only [onClientConnecting, addSession_sessions, List.map_append, List.map_cons,
        List.map_nil, List.nodup_append] at hids
      exact hids.2.2 s.id (List.mem_map_of_mem hs) d.counter (List.mem_singleton_self _) hid
    rw [h.sessions, onClientConnecting, addSession_sessions, KeyedList.remove, List.filter_append,
      List.filter_eq_self.2 fun s hs => decide_eq_true (hne s hs)]
    simp
  · rw [h.waitQueue]
    exact Tenancy.filter_ne_of_notMem hq

theorem without_of_turnedAway (h : Run (Next env) (initial bs fs sd) es d)
    (ho : AtMostOneSetup (es ++ [e])) (ht : d.TurnedAway es sid e) :
    (d.Reads e → ∃ d', d.step env e = .returned d' ∧ d.Without sid d') ∧
      (¬d.Reads e → ∃ d', d.step env e = .threw .brokenPipe d') := by
  have hor := orderly_run h ho.of_append
  have hq : ∀ k ∈ d.waitQueue, d.Unserved k := fun k hk => waiting_unserved h ho.of_append hk
  have hboard : ∀ s, d.session sid = some s → s.status = .created ∨ s.status = .awaitingBoard →
      s.status ≠ .hasBoard ∧ s.board = none := by
    intro s hs hst
    refine ⟨?_, (hor.settled.coherent.board_none sid s.tenant (view_tenant hs)).2 hst⟩
    rcases hst with hst | hst <;> rw [hst] <;> decide
  cases ht with
  | noWait hreq hcmd hn hs hno =>
    have hst := hor.created ho (isSetupFor_of_request hreq) hs
    obtain ⟨hne, hb⟩ := hboard _ hs (Or.inl hst)
    exact without_of_request hreq hs hne hb
      (Or.inr ⟨hcmd, hn, findAvailableBoard_none.2 hno⟩) hq
  | listSessions hreq hcmd =>
    obtain ⟨_, _, s, hs, _⟩ := of_request hreq
    have hst := hor.created ho (isSetupFor_of_request hreq) hs
    obtain ⟨hne, hb⟩ := hboard s hs (Or.inl hst)
    exact without_of_request hreq hs hne hb (Or.inl hcmd) hq
  | @neverSetUp recv sys s hr hs hnever =>
    have hst : s.status = .created := by
      by_contra hn
      exact hnever (hor.lined.recorded sid s.tenant (view_tenant hs) hn)
    obtain ⟨hne, hb⟩ := hboard s hs (Or.inl hst)
    exact ⟨fun _ => without_of_hangUp hr hs hne hb hq, fun hn => absurd (reads_of_hangUp hr) hn⟩
  | waiting hr hs hst =>
    obtain ⟨hne, hb⟩ := hboard _ hs (Or.inr hst)
    exact ⟨fun _ => without_of_hangUp hr hs hne hb hq, fun hn => absurd (reads_of_hangUp hr) hn⟩

/-- A client that is turned away leaves no trace, exactly if it reads what it is told. -/
theorem once_run_turned_away_iff (h : Run (Next env) (initial bs fs sd) es d)
    (ho : AtMostOneSetup (es ++ [e])) (ht : d.TurnedAway es sid e) :
    (∃ d', d.step env e = .returned d' ∧ d.Without sid d' ∧
      ∀ (d₀ : Daemon) cred ppid buffer now, d = d₀.onClientConnecting cred ppid buffer now →
        sid = d₀.counter → (∀ i, d'.owner i = d₀.owner i) ∧ d'.sessions = d₀.sessions ∧
          d'.waitQueue = d₀.waitQueue ∧ d'.processes = d₀.processes) ↔ d.Reads e := by
  have hor := orderly_run h ho.of_append
  have hc := hor.settled.coherent
  obtain ⟨hread, hdeaf⟩ := without_of_turnedAway h ho ht
  refine ⟨fun ⟨d', hd, _⟩ => ?_, fun hr => ?_⟩
  · by_contra hn
    obtain ⟨d'', hd'⟩ := hdeaf hn
    rw [hd] at hd'
    cases hd'
  obtain ⟨d', hd, hw⟩ := hread hr
  refine ⟨d', hd, hw, ?_⟩
  intro d₀ cred ppid buffer now hd₀ hsid
  subst hd₀ hsid
  refine hw.connecting hc.ids_nodup ?_
  have hnew := hor.settled.session_of_mem
    (List.mem_append_right d₀.sessions (List.mem_singleton_self _))
  exact hc.notMem_queue (view_tenant hnew) nofun

/-- A client that does not wait is turned away while another one waits. -/
theorem once_run_turned_away_iff_no_wait : ∃ d,
    (Run (Next Sample.env) (initial [Sample.board [] []] [] false)
      [Sample.accept, Sample.connect 0 7 100, Sample.accept, Sample.connect 1 8 101,
        Sample.accept] d ∧
      ((d.session 2).map Session.usernameCred, d.findAvailableBoard (ascii "joe"),
        (d.request? (Sample.setup 2 0 9 [] true 101)).map fun x => (x.1, x.2.2)) =
        (some (ascii "joe"), none, some (2, ⟨Proto.connect, 9, [], true⟩))) ∧
    ∃ d', d.step Sample.env (Sample.setup 2 0 9 [] true 101) = .returned d' ∧ d.Without 2 d' := by
  refine Exists.imp (fun d hr => ⟨hr, ?_⟩) (exists_run (fun d : Daemon =>
    ((d.session 2).map Session.usernameCred, d.findAvailableBoard (ascii "joe"),
      (d.request? (Sample.setup 2 0 9 [] true 101)).map fun x => (x.1, x.2.2))) (by decide +kernel))
  obtain ⟨hrun, hd⟩ := hr
  simp only [Prod.mk.injEq, Option.map_eq_some_iff] at hd
  obtain ⟨⟨s, hs, hcred⟩, hf, ⟨k, pkt, r⟩, hreq, rfl, rfl⟩ := hd
  have hno : d.findAvailableBoard (Proto.Request.name ⟨Proto.connect, 9, [], true⟩ s.usernameCred) =
      none := by
    rw [hcred]
    exact hf
  have hreads : d.Reads (Sample.setup 2 0 9 [] true 101) := by
    rintro _ _ _ _ ⟨⟩ _
    exact ⟨fun _ => rfl, fun _ _ => rfl⟩
  obtain ⟨d', hd', hw, _⟩ := (once_run_turned_away_iff hrun (by decide +kernel)
    (.noWait hreq rfl rfl hs (findAvailableBoard_none.1 hno))).2 hreads
  exact ⟨d', hd', hw⟩

/-- The standard error of a client that does not wait is a pipe that nobody reads. -/
theorem deaf_client_ends_daemon :
    let deaf : Event := .clientData 1 (.ok (Client.sendSetup 0 8 [] true (0, 0, 0) 3 4 5
      fun _ => 0)) ⟨.ok 101, 0, fun fd => fd = 5⟩
    ∃ d, Run (Next Sample.env) (initial [Sample.board [] []] [] false)
        [Sample.accept, Sample.connect 0 7 100, Sample.accept] d ∧
      (d.owner 0, d.enabled deaf, (d.request? deaf).map fun x => x.2.2,
        (d.step Sample.env deaf).fault?) =
        (some 0, true, some ⟨Proto.connect, 8, [], true⟩, some .brokenPipe) := by
  intro deaf
  refine exists_run (fun d : Daemon => (d.owner 0, d.enabled deaf,
    (d.request? deaf).map fun x => x.2.2, (d.step Sample.env deaf).fault?)) ?_
  decide +kernel

end Daemon
end BoardProxy
