import BoardProxy.CallbackSpecs

/-!
# The cases of a callback

`Callback env d e d'` lists everything that a callback which returns can do,
with the guards under which it does it. Every invariant of the daemon is a case
analysis over this relation, and `callback_of_next` is the only place where the
event loop is inverted.
-/

namespace BoardProxy
namespace Daemon

variable {env : Env} {sys : Sys} {d d' : Daemon} {sid k i j : ℕ} {s : Session}

def silent (d : Daemon) (t : List Action) (b : Bool) : Daemon :=
  { d with trace := t, breakLoop := b }

theorem exitIfIdle_eq_silent : d.exitIfIdle = d.silent d.trace d.exitIfIdle.breakLoop := by
  unfold exitIfIdle
  split <;> rfl

theorem grant_setAwaiting (b : BoardSpec) (argv : List Bytes) (pid : Pid) (now : ℤ) :
    (d.setAwaiting sid).grant sid i { s with status := .awaitingBoard } b argv pid now =
      d.grant sid i s b argv pid now := by
  simp only [grant, setAwaiting, modifySession, modifyBoard, act, setProcesses, KeyedList.modify,
    List.map_map]
  congr 1
  apply List.map_congr_left
  intro t _
  by_cases ht : t.id = sid <;> simp [ht]

inductive Leaves (env : Env) (sys : Sys) (d : Daemon) (sid : ℕ) : Daemon → Prop
  | idle :
      (d.departed sid).findWaiting (d.departed sid).waitQueue = .ok none →
      Leaves env sys d sid (d.departed sid).exitIfIdle
  | handOver {v i : ℕ} {t : Session} {b : BoardSpec} {argv : List Bytes} {pid : Pid} :
      (d.departed sid).findWaiting (d.departed sid).waitQueue = .ok (some (v, i)) →
      (d.departed sid).session v = some t → d.spec i = some b →
      env.splitUnix b.command = some argv → sys.fork = .ok pid →
      Leaves env sys d sid (((d.departed sid).dequeue v).grant v i t b argv pid sys.now).exitIfIdle

theorem leaves_of_closeSession (h : Daemon.closeSession env sys d sid = .returned d') :
    Leaves env sys d sid d' := by
  obtain ⟨d₁, h₁, rfl⟩ := daemonCloseSession_returned h
  rcases serveWaiting_returned h₁ with ⟨hf, rfl⟩ | ⟨v, i, hf, ha⟩
  · exact .idle hf
  · obtain ⟨t, b, argv, pid, ht, hb, hc, hp, rfl⟩ := sessionAssignBoard_returned ha
    rw [dequeue_spec, departed_spec] at hb
    exact .handOver hf ht hb hc hp

inductive Closes (env : Env) (sys : Sys) (d : Daemon) (sid : ℕ) (s : Session) : Daemon → Prop
  | kill {c : ChildWatcher} :
      s.status = .hasBoard → s.childWatcher = some c →
      Closes env sys d sid s (d.act [.kill sid c.pid])
  | startClosing {i : ℕ} {b : BoardSpec} {argv : List Bytes} {pid : Pid} :
      s.status = .hasBoard → s.childWatcher = none → s.board = some i → d.spec i = some b →
      b.closeCommand ≠ [] → sys.fork = .ok pid →
      Closes env sys d sid s (d.startClosing sid i argv pid)
  | leave {d' : Daemon} :
      (s.status = .hasBoard → s.childWatcher = none ∧
        ∃ i b, s.board = some i ∧ d.spec i = some b ∧ b.closeCommand = []) →
      Leaves env sys d sid d' → Closes env sys d sid s d'

theorem closes_of_closeSession (h : Session.closeSession env sys d sid = .returned d') :
    ∃ s, d.session sid = some s ∧ Closes env sys d sid s d' := by
  obtain ⟨s, hs, hcase⟩ := closeSession_returned h
  refine ⟨s, hs, ?_⟩
  rcases hcase with ⟨c, hst, hc, rfl⟩ | ⟨i, b, argv, pid, hst, hc, hi, hb, hcc, hf, rfl⟩ | ⟨hg, hd⟩
  · exact .kill hst hc
  · exact .startClosing hst hc hi hb hcc hf
  · exact .leave hg (leaves_of_closeSession hd)

inductive Connects (env : Env) (sys : Sys) (d : Daemon) (sid : ℕ) (s : Session) (noWait : Bool) :
    Daemon → Prop
  | grant {i : ℕ} {b : BoardSpec} {argv : List Bytes} {pid : Pid} :
      d.findAvailableBoard s.getUsername = some i → d.spec i = some b →
      env.splitUnix b.command = some argv → sys.fork = .ok pid →
      Connects env sys d sid s noWait (d.grant sid i s b argv pid sys.now)
  | wait {as : List Action} :
      d.findAvailableBoard s.getUsername = none → noWait = false →
      Connects env sys d sid s noWait ((d.enqueue sid).act as)
  | turnAway {as : List Action} {d' : Daemon} :
      d.findAvailableBoard s.getUsername = none → noWait = true →
      Leaves env sys ((d.enqueue sid).act as) sid d' → Connects env sys d sid s noWait d'

theorem connects_of_onConnect {noWait : Bool}
    (h : Session.onConnect env sys d sid noWait = .returned d') :
    ∃ s, d.session sid = some s ∧ Connects env sys d sid s noWait d' := by
  obtain ⟨s, hs, hcase⟩ := onConnect_returned h
  refine ⟨s, hs, ?_⟩
  rcases hcase with ⟨i, hf, ha⟩ | ⟨hf, hn, rfl⟩ | ⟨hf, hn, hc⟩
  · obtain ⟨t, b, argv, pid, ht, hb, hc, hp, rfl⟩ := sessionAssignBoard_returned ha
    simp only [setAwaiting, implies_true, session_modifySession, ↓reduceIte, hs, Option.map_some,
      Option.some.injEq] at ht
    subst ht
    rw [grant_setAwaiting]
    exact .grant hf hb hc hp
  · exact .wait hf hn
  · exact .turnAway hf hn (leaves_of_closeSession hc)

def introduce (d : Daemon) (sid : ℕ) (pkt : Packet) (r : Proto.Request) : Daemon :=
  (d.receive sid pkt).modifySession sid (Session.introduced pkt r)

/-- The request that `on_setup_msg` reads for this event, behind its checks. -/
def request? (d : Daemon) (e : Event) : Option (ℕ × Packet × Proto.Request) :=
  e.setup?.bind fun (sid, pkt) =>
    if pkt.fds.take Session.maxFds = [] then none
    else (d.session sid).bind fun s =>
      (Proto.readSetup (s.buffer.store (pkt.data.take Proto.bufferSize))).map fun r => (sid, pkt, r)

end Daemon

namespace Event

def proxy? : Event → Option (ℕ × ℕ)
  | .wrClientData sid pid _ | .wrTargetData sid pid _ | .tcpTargetConnected sid pid _
  | .tcpClientData sid pid _ | .tcpTargetData sid pid _ => some (sid, pid)
  | _ => none

end Event

def ProxyConn.callback (env : Env) (ip : Option Bytes) (c : ProxyConn) : Event → Outcome ProxyConn
  | .wrClientData _ _ io => c.wrClientData env io ip
  | .wrTargetData _ _ io => c.wrTargetData io
  | .tcpTargetConnected _ _ io => c.tcpTargetConnected env io
  | .tcpClientData _ _ io => c.tcpClientData env io
  | .tcpTargetData _ _ io => c.tcpTargetData env io
  | _ => .returned c

namespace Daemon

variable {env : Env} {sys : Sys} {d d' : Daemon} {sid k i j : ℕ} {s : Session} {e : Event}

inductive Callback (env : Env) (d : Daemon) : Event → Daemon → Prop
  | accept {cred : Bytes} {ppid : Pid} {buffer : Memory} {now : ℤ} :
      Callback env d (.clientConnecting cred ppid buffer now)
        (d.onClientConnecting cred ppid buffer now)
  | hangUp {sid : ℕ} {recv : Except Errno Packet} {sys : Sys} {as : List Action} {s : Session}
      {d' : Daemon} :
      recvEnds recv = true → d.session sid = some s → s.clientWatcher = true →
      forkFresh sys d.processes = true →
      Closes env sys ((d.act as).modifySession sid Session.hungUp) sid s.hungUp d' →
      Callback env d (.clientData sid recv sys) d'
  | ignore {sid : ℕ} {pkt : Packet} {sys : Sys} {s : Session} :
      (Event.clientData sid (.ok pkt) sys).setup? = none → d.session sid = some s →
      Callback env d (.clientData sid (.ok pkt) sys) (d.receive sid pkt)
  | noFds {sid : ℕ} {pkt : Packet} {sys : Sys} {s t : Session} {d₁ d' : Daemon} :
      (Event.clientData sid (.ok pkt) sys).setup? = some (sid, pkt) → d.session sid = some s →
      forkFresh sys d.processes = true →
      (d.receive sid pkt).session sid = some t → Closes env sys (d.receive sid pkt) sid t d₁ →
      Session.closeSession env sys d₁ sid = .returned d' →
      Callback env d (.clientData sid (.ok pkt) sys) d'
  | connect {sid : ℕ} {pkt : Packet} {sys : Sys} {r : Proto.Request} {s : Session} {d' : Daemon} :
      d.request? (.clientData sid (.ok pkt) sys) = some (sid, pkt, r) → d.session sid = some s →
      forkFresh sys d.processes = true → r.cmd = Proto.connect →
      Connects env sys (d.introduce sid pkt r) sid
        ((s.received (pkt.data.take Proto.bufferSize)).introduced pkt r) r.noWait d' →
      Callback env d (.clientData sid (.ok pkt) sys) d'
  | listSessions {sid : ℕ} {pkt : Packet} {sys : Sys} {r : Proto.Request} {as : List Action}
      {s : Session} {d' : Daemon} :
      d.request? (.clientData sid (.ok pkt) sys) = some (sid, pkt, r) → d.session sid = some s →
      forkFresh sys d.processes = true → r.cmd = Proto.listSessions →
      Closes env sys ((d.introduce sid pkt r).act as) sid
        ((s.received (pkt.data.take Proto.bufferSize)).introduced pkt r) d' →
      Callback env d (.clientData sid (.ok pkt) sys) d'
  | otherCommand {sid : ℕ} {pkt : Packet} {sys : Sys} {r : Proto.Request} {s : Session} :
      d.request? (.clientData sid (.ok pkt) sys) = some (sid, pkt, r) → d.session sid = some s →
      r.cmd ≠ Proto.connect → r.cmd ≠ Proto.listSessions →
      Callback env d (.clientData sid (.ok pkt) sys) (d.introduce sid pkt r)
  | processExits {pid : Pid} :
      Callback env d (.processExits pid) (d.moveProcess pid .running .zombie)
  | reapUnwatched {pid : Pid} {sys : Sys} :
      (∀ s ∈ d.sessions, ∀ c, s.childWatcher = some c → c.pid ≠ pid) →
      Callback env d (.childReaped pid sys) (d.moveProcess pid .zombie .reaped)
  | reap {pid : Pid} {sys : Sys} {s t : Session} {c : ChildWatcher} {d' : Daemon} :
      d.hasProcess pid .zombie = true →
      forkFresh sys (d.moveProcess pid .zombie .reaped).processes = true →
      s ∈ d.sessions → s.childWatcher = some c → c.pid = pid → d.session s.id = some t →
      Closes env sys (Session.stopChildWatcher (d.moveProcess pid .zombie .reaped) s.id) s.id
        { t with childWatcher := none } d' →
      Callback env d (.childReaped pid sys) d'
  | unrouted {listener : ℕ} {peer : Pid} {io : ConnectIo} :
      Callback env d (.socketConnecting listener peer io) d
  | attach {listener : ℕ} {peer : Pid} {io : ConnectIo} {factory : ProxyFactory} {s t : Session}
      {conn : ProxyConn} :
      d.proxyListeners[listener]? = some factory → d.findSessionByPpid peer = some s →
      d.session s.id = some t → t.status = .hasBoard →
      factory.create env io (d.boardIp t) = .ok conn →
      Callback env d (.socketConnecting listener peer io) (Session.addProxy d s.id peer conn)
  | proxied {e : Event} {sid pid : ℕ} {s : Session} {p : Proxy} {conn : ProxyConn} :
      e.proxy? = some (sid, pid) → d.session sid = some s →
      KeyedList.lookup Proxy.id pid s.proxies = some p →
      p.conn.callback env (d.boardIp s) e = .returned conn →
      Callback env d e (d.modifySession sid (Session.withProxies (setProxy pid conn) 0))
  | signal : Callback env d .signal { d with breakLoop := true }

theorem session_introduce (sid : ℕ) (pkt : Packet) (r : Proto.Request) :
    (d.introduce sid pkt r).session k =
      if k = sid then (d.session sid).map fun s =>
        (s.received (pkt.data.take Proto.bufferSize)).introduced pkt r
      else d.session k := by
  rw [introduce, session_modifySession, session_receive, session_receive]
  · by_cases hk : k = sid
    · simp only [hk, ↓reduceIte, Option.map_map]
      rfl
    · simp only [hk, ↓reduceIte]
  · exact fun _ => rfl

theorem session_introduce_self (pkt : Packet) (r : Proto.Request) (hs : d.session sid = some s) :
    (d.introduce sid pkt r).session sid =
      some ((s.received (pkt.data.take Proto.bufferSize)).introduced pkt r) := by
  rw [session_introduce, if_pos rfl, hs, Option.map_some]

theorem session_stopChildWatcher : (Session.stopChildWatcher d sid).session k =
    if k = sid then (d.session sid).map (fun s => { s with childWatcher := none })
    else d.session k := by
  simp [Session.stopChildWatcher]

theorem session_stop_moveProcess {pid : Pid} (hs : d.session sid = some s) :
    (Session.stopChildWatcher (d.moveProcess pid .zombie .reaped) sid).session sid =
      some { s with childWatcher := none } := by
  rw [session_stopChildWatcher, if_pos rfl]
  exact congrArg _ hs

theorem session_hangUp (as : List Action) :
    ((d.act as).modifySession sid Session.hungUp).session k =
      if k = sid then (d.session sid).map Session.hungUp else d.session k :=
  session_modifySession (d.act as) sid k Session.hungUp fun _ => rfl

theorem session_hangUp_self (as : List Action) (hs : d.session sid = some s) :
    ((d.act as).modifySession sid Session.hungUp).session sid = some s.hungUp := by
  rw [session_hangUp, if_pos rfl, hs, Option.map_some]

theorem of_request {pkt : Packet} {r : Proto.Request} (h : d.request? e = some (sid, pkt, r)) :
    e.setup? = some (sid, pkt) ∧ pkt.fds.take Session.maxFds ≠ [] ∧ ∃ s, d.session sid = some s ∧
      Proto.readSetup (s.buffer.store (pkt.data.take Proto.bufferSize)) = some r := by
  obtain ⟨⟨k, p⟩, hk, h⟩ := Option.bind_eq_some_iff.1 h
  by_cases hf : p.fds.take Session.maxFds = []
  · simp only [hf, ↓reduceIte] at h
    cases h
  · simp only [hf, ↓reduceIte, Option.bind_eq_some_iff, Option.map_eq_some_iff, Prod.mk.injEq] at h
    obtain ⟨s, hs, r, hr, rfl, rfl, rfl⟩ := h
    exact ⟨hk, hf, s, hs, hr⟩

theorem request_eq {pkt : Packet} {r : Proto.Request}
    (he : (Event.clientData sid (.ok pkt) sys).setup? = some (sid, pkt))
    (hf : pkt.fds.take Session.maxFds ≠ []) (hs : d.session sid = some s)
    (hr : Proto.readSetup (s.received (pkt.data.take Proto.bufferSize)).buffer = some r) :
    d.request? (.clientData sid (.ok pkt) sys) = some (sid, pkt, r) := by
  simp only [Session.received] at hr
  simp only [request?, he, Option.bind_some, if_neg hf, hs, hr, Option.map_some]

theorem onDataFromClient_request {pkt : Packet} {r : Proto.Request} (hs : d.session sid = some s)
    (hset : (Event.clientData sid (.ok pkt) sys).setup? = some (sid, pkt))
    (hfds : pkt.fds.take Session.maxFds ≠ [])
    (hr : Proto.readSetup (s.buffer.store (pkt.data.take Proto.bufferSize)) = some r) :
    Session.onDataFromClient env sys d sid (.ok pkt) =
      if r.cmd = Proto.connect then
        Session.onConnect env sys (d.introduce sid pkt r) sid r.noWait
      else if r.cmd = Proto.listSessions then
        ((d.introduce sid pkt r).printStatus sys sid (s.introduced pkt r).fdOut).bind fun d =>
          Session.closeSession env sys d sid
      else .returned (d.introduce sid pkt r) := by
  have hd : pkt.data ≠ [] := by
    intro hd
    simp [Event.setup?, hd, Proto.headerSize] at hset
  have hrec := session_receive_self pkt hs
  rw [onDataFromClient_packet hs hd, hset, if_pos Option.isSome_some]
  simp only [Session.onSetupMsg, if_neg (mt Session.controlLen_lt_iff.1 hfds),
    Outcome.returned_bind, if_neg hfds, deref, hrec, Session.received, hr]
  rfl

theorem callback_of_setup {pkt : Packet} (hs : d.session sid = some s)
    (hp : forkFresh sys d.processes = true)
    (he : (Event.clientData sid (.ok pkt) sys).setup? = some (sid, pkt))
    (h : Session.onSetupMsg env sys (d.receive sid pkt) sid pkt = .returned d') :
    Callback env d (.clientData sid (.ok pkt) sys) d' := by
  rcases onSetupMsg_returned h with ⟨_, d₁, h₁, h₂⟩ | ⟨hf, t, r, ht, hr, hcase⟩
  · obtain ⟨t, ht, hc⟩ := closes_of_closeSession h₁
    exact .noFds he hs hp ht hc h₂
  · rw [session_receive_self pkt hs, Option.some.injEq] at ht
    subst ht
    have hreq := request_eq he hf hs hr
    rcases hcase with ⟨hc, hcon⟩ | ⟨_, hl, hclose⟩ | ⟨hc, hl, rfl⟩
    · obtain ⟨u, hu, hcon⟩ := connects_of_onConnect hcon
      rw [← introduce, session_introduce_self pkt r hs, Option.some.injEq] at hu
      subst hu
      exact .connect hreq hs hp hc hcon
    · obtain ⟨u, hu, hclose⟩ := closes_of_closeSession hclose
      rw [session_act, ← introduce, session_introduce_self pkt r hs, Option.some.injEq] at hu
      subst hu
      exact .listSessions hreq hs hp hl hclose
    · exact .otherCommand hreq hs hc hl

theorem callback_of_clientData {recv : Except Errno Packet} (hs : d.session sid = some s)
    (hw : s.clientWatcher = true) (hp : forkFresh sys d.processes = true)
    (h : Session.onDataFromClient env sys d sid recv = .returned d') :
    Callback env d (.clientData sid recv sys) d' := by
  rcases onDataFromClient_returned hs h with ⟨hr, hc⟩ | ⟨pkt, rfl, ⟨hn, rfl⟩ | ⟨he, hset⟩⟩
  · obtain ⟨t, ht, hc⟩ := closes_of_closeSession hc
    rw [session_modifySession, if_pos rfl, session_act, hs, Option.map_some,
      Option.some.injEq] at ht
    · subst ht
      exact .hangUp hr hs hw hp hc
    · exact fun _ => rfl
  · exact .ignore hn hs
  · exact callback_of_setup hs hp he hset

theorem callback_of_childReaped {pid : Pid} (hz : d.hasProcess pid .zombie = true)
    (hp : forkFresh sys (d.moveProcess pid .zombie .reaped).processes = true)
    (h : onChild env sys (d.moveProcess pid .zombie .reaped) pid = .returned d') :
    Callback env d (.childReaped pid sys) d' := by
  rcases onChild_returned h with ⟨hn, rfl⟩ | ⟨s, c, hs, hc, hpid, hclose⟩
  · exact .reapUnwatched hn
  · obtain ⟨t, ht, hclose⟩ := closes_of_closeSession hclose
    rw [Session.stopChildWatcher, session_modifySession, if_pos rfl, Option.map_eq_some_iff] at ht
    · obtain ⟨u, hu, rfl⟩ := ht
      exact .reap hz hp hs hc hpid hu hclose
    · exact fun _ => rfl

theorem callback_of_socketConnecting {listener : ℕ} {peer : Pid} {io : ConnectIo}
    (h : onSocketConnecting env io d listener peer = .returned d') :
    Callback env d (.socketConnecting listener peer io) d' := by
  unfold onSocketConnecting at h
  cases hl : d.proxyListeners[listener]? with
  | none => simp [hl] at h
  | some factory =>
    cases hf : d.findSessionByPpid peer with
    | none =>
      simp only [hl, hf, Outcome.returned.injEq] at h
      subst h
      exact .unrouted
    | some s =>
      simp only [hl, hf] at h
      obtain ⟨t, ht, ⟨_, rfl⟩ | ⟨conn, hst, hc, rfl⟩⟩ := newSocketConnection_returned h
      · exact .unrouted
      · exact .attach hl hf ht hst hc

theorem callback_of_proxy {pid : ℕ} {run : Session → ProxyConn → Outcome ProxyConn}
    (he : e.proxy? = some (sid, pid))
    (hrun : ∀ s c, run s c = ProxyConn.callback env (d.boardIp s) c e)
    (h : Session.runProxy d sid pid run = .returned d') : Callback env d e d' := by
  obtain ⟨s, p, conn, hs, hp, hr, rfl⟩ := runProxy_returned h
  rw [hrun] at hr
  exact .proxied he hs hp hr

/-- Everything that a step of the event loop can do. -/
theorem callback_of_next (h : d.Next env e d') : Callback env d e d' := by
  obtain ⟨hen, hst⟩ := next_iff.1 h
  cases e with
  | clientConnecting cred ppid buffer now =>
    simp only [step, Outcome.returned.injEq] at hst
    subst hst
    exact .accept
  | acceptFailed errno => simp [step] at hst
  | clientData sid recv sys =>
    simp only [enabled, Bool.and_eq_true, Option.any_eq_true] at hen
    obtain ⟨⟨s, hs, hw⟩, hp⟩ := hen
    exact callback_of_clientData hs hw hp hst
  | processExits pid =>
    simp only [step, Outcome.returned.injEq] at hst
    subst hst
    exact .processExits
  | childReaped pid sys =>
    simp only [enabled, Bool.and_eq_true] at hen
    exact callback_of_childReaped hen.1 hen.2 hst
  | socketConnecting listener peer io => exact callback_of_socketConnecting hst
  | wrClientData sid pid io => exact callback_of_proxy rfl (fun _ _ => rfl) hst
  | wrTargetData sid pid io => exact callback_of_proxy rfl (fun _ _ => rfl) hst
  | tcpTargetConnected sid pid io => exact callback_of_proxy rfl (fun _ _ => rfl) hst
  | tcpClientData sid pid io => exact callback_of_proxy rfl (fun _ _ => rfl) hst
  | tcpTargetData sid pid io => exact callback_of_proxy rfl (fun _ _ => rfl) hst
  | signal =>
    simp only [step, Outcome.returned.injEq] at hst
    subst hst
    exact .signal

end Daemon
end BoardProxy
