import BoardProxy.EveryRun
import BoardProxy.TcpRelay

/-!
# A new connection to a proxy socket

A constructor that throws leaves the callback and ends the daemon. A connection to
the target that succeeds at once and then reports an error is worse hidden: the
relay closes itself before it is in the list, and stays there without a watcher.
Everything else concerns the new connection only.
-/

namespace BoardProxy

def ProxyConn.targetWatched : ProxyConn → Bool
  | .wr _ => true
  | .tcp p => p.targetWatcher.isSome

def ProxyFactory.Creatable (env : Env) (io : ConnectIo) (ip : Option Bytes) : ProxyFactory → Prop
  | .wr _ => io.socket = .ok ()
  | .tcp _ _ => io.socket = .ok () ∧
    (∃ x, ip = some x ∧ ∃ addr, env.inetAton (cStr x) = some addr) ∧
      (io.connect = .error inProgress ∨ io.connect = .ok () ∧ io.getsockopt = .ok 0)

theorem TcpProxy.new_watched_iff {env : Env} {io : ConnectIo} {ip : Bytes} {port : ℕ} :
    (∃ p, new env io ip port = .ok p ∧ p.targetWatcher.isSome = true) ↔
      io.socket = .ok () ∧ (∃ addr, env.inetAton (cStr ip) = some addr) ∧
        (io.connect = .error inProgress ∨ io.connect = .ok () ∧ io.getsockopt = .ok 0) := by
  cases ha : env.inetAton (cStr ip) with
  | none => simp [new, ha]
  | some addr =>
    cases hs : io.socket with
    | error e => simp [new, ha, hs]
    | ok =>
      cases hc : io.connect with
      | error e =>
        by_cases he : e = inProgress
        · simp [new, ha, hs, hc, he]
        · simp [new, ha, hs, hc, he]
      | ok =>
        constructor
        · rintro ⟨p, hp, hw⟩
          simp only [new, ha, hs, hc] at hp
          split at hp
          · cases hp
          · rename_i q hq
            obtain rfl := Except.ok.inj hp
            rcases onTargetConnected_returned hq with rfl | ⟨hso, _⟩
            · cases hw
            · exact ⟨rfl, ⟨addr, rfl⟩, Or.inr ⟨rfl, hso⟩⟩
        · rintro ⟨_, _, hin | ⟨_, hso⟩⟩
          · cases hin
          · simp [new, ha, hs, hc, onTargetConnected, hso]

theorem ProxyFactory.creatable_iff {env : Env} {io : ConnectIo} {ip : Option Bytes}
    {factory : ProxyFactory} :
    (∃ conn, factory.create env io ip = .ok conn ∧ conn.targetWatched = true) ↔
      factory.Creatable env io ip := by
  cases factory with
  | wr name =>
    cases hs : io.socket with
    | error e => simp [create, Creatable, hs]
    | ok => simp [create, Creatable, hs, ProxyConn.targetWatched]
  | tcp name port =>
    cases ip with
    | none => simp [create, Creatable]
    | some x =>
      simp only [Creatable, Option.some.injEq, exists_eq_left']
      rw [← @TcpProxy.new_watched_iff env io x port]
      cases hn : TcpProxy.new env io x port with
      | error f => simp [create, hn]
      | ok p => simp [create, hn, ProxyConn.targetWatched]

namespace Daemon

variable {env : Env} {d d' : Daemon} {s : Session} {io : ConnectIo} {peer : Pid} {listener : ℕ}
  {factory : ProxyFactory}

/-- Nothing has changed but the list of proxies of one session, which has one proxy
more with an active target watcher, if it has not stayed the same. -/
structure Attaches (d : Daemon) (s : Session) (d' : Daemon) : Prop where
  boards : d'.boards = d.boards
  queue : d'.waitQueue = d.waitQueue
  others : ∀ k ≠ s.id, d'.session k = d.session k
  proxies : ∃ s', d'.session s.id = some s' ∧ (s' = s ∨ ∃ p, p.conn.targetWatched = true ∧
    s' = { s with proxies := s.proxies ++ [p], proxyCnt := s.proxyCnt + 1 })

theorem attaches_addProxy {conn : ProxyConn} (hs : d.session s.id = some s)
    (hw : conn.targetWatched = true) : Attaches d s (Session.addProxy d s.id peer conn) := by
  refine ⟨rfl, rfl, fun k hk => ?_, _, ?_, Or.inr ⟨⟨s.proxyCnt, peer, conn⟩, hw, rfl⟩⟩
  · rw [Session.addProxy, session_modifySession, if_neg hk]
    exact fun _ => rfl
  · rw [Session.addProxy, session_modifySession, if_pos rfl, hs, Option.map_some]
    exact fun _ => rfl

theorem not_attaches_addProxy {conn : ProxyConn} (hs : d.session s.id = some s)
    (hw : ¬conn.targetWatched = true) : ¬Attaches d s (Session.addProxy d s.id peer conn) := by
  rintro ⟨_, _, _, s', hs', hcase⟩
  rw [Session.addProxy, session_modifySession, if_pos rfl, hs, Option.map_some,
    Option.some.injEq] at hs'
  · subst hs'
    rcases hcase with heq | ⟨p, hp, heq⟩
    · have hcnt := congrArg Session.proxyCnt heq
      exact absurd hcnt (Nat.succ_ne_self _)
    · have hps := congrArg Session.proxies heq
      have hpe := List.singleton_inj.1 (List.append_cancel_left hps)
      rw [← hpe] at hp
      exact hw hp
  · exact fun _ => rfl

theorem newSocketConnection_attaches_iff (hs : d.session s.id = some s) :
    (∃ d', Session.newSocketConnection env io d s.id factory peer = .returned d' ∧
      Attaches d s d') ↔ (s.status = .hasBoard → factory.Creatable env io (d.boardIp s)) := by
  by_cases hst : s.status = .hasBoard
  · rw [← ProxyFactory.creatable_iff]
    constructor
    · rintro ⟨d', hd, ha⟩ _
      obtain ⟨t, ht, ⟨hne, _⟩ | ⟨conn, _, hc, rfl⟩⟩ := newSocketConnection_returned hd
      · rw [hs, Option.some.injEq] at ht
        exact absurd (ht ▸ hst) hne
      · rw [hs, Option.some.injEq] at ht
        subst ht
        refine ⟨conn, hc, ?_⟩
        by_contra hw
        exact not_attaches_addProxy hs hw ha
    · intro h
      obtain ⟨conn, hc, hw⟩ := h hst
      refine ⟨Session.addProxy d s.id peer conn, ?_, attaches_addProxy hs hw⟩
      simp [Session.newSocketConnection, deref, hs, hst, hc]
  · refine iff_of_true ⟨d, ?_, rfl, rfl, fun _ _ => rfl, s, hs, Or.inl rfl⟩ fun h => absurd h hst
    simp [Session.newSocketConnection, deref, hs, hst]

/-- A connection that is routed to a session harms nobody and ends up in a proxy that
is alive or nowhere, exactly if the proxy can be made or the session has no board to
talk to. -/
theorem run_socket_connecting_iff {bs : List BoardSpec} {fs : List ProxyFactory} {sd : Bool}
    {es : List Event} (h : Run (Next env) (initial bs fs sd) es d)
    (hl : d.proxyListeners[listener]? = some factory) (hf : d.findSessionByPpid peer = some s) :
    (∃ d', d.step env (.socketConnecting listener peer io) = .returned d' ∧ Attaches d s d') ↔
      (s.status = .hasBoard → factory.Creatable env io (d.boardIp s)) := by
  have hs : d.session s.id = some s :=
    (sound_run h).session_of_mem (List.mem_of_find?_eq_some hf)
  simp only [step, onSocketConnecting, hl, hf]
  exact newSocketConnection_attaches_iff hs

theorem run_socket_connecting_in_progress : ∃ d,
    (Run (Next Sample.env)
      (initial [Sample.board [] []] [.tcp (ascii "tcpproxy") 80] false)
      [Sample.accept, Sample.connect 0 7 100] d ∧
      (d.proxyListeners, (d.findSessionByPpid 7).map fun s => (s.id, d.boardIp s)) =
        ([.tcp (ascii "tcpproxy") 80], some (0, some (ascii "10.0.0.1")))) ∧
    ∃ d' s, d.step Sample.env (.socketConnecting 0 7 ⟨.ok (), .error inProgress, .ok 0⟩) =
      .returned d' ∧ Attaches d s d' := by
  refine Exists.imp (fun d hr => ⟨hr, ?_⟩) (exists_run (fun d : Daemon =>
    (d.proxyListeners, (d.findSessionByPpid 7).map fun s => (s.id, d.boardIp s)))
      (by decide +kernel))
  obtain ⟨hrun, hd⟩ := hr
  obtain ⟨hlist, hfind⟩ := Prod.mk.inj hd
  obtain ⟨s, hs, hsd⟩ := Option.map_eq_some_iff.1 hfind
  have hip := (Prod.mk.inj hsd).2
  have hl : d.proxyListeners[0]? = some (.tcp (ascii "tcpproxy") 80) := by
    rw [hlist]
    rfl
  have hcr : ProxyFactory.Creatable Sample.env ⟨.ok (), .error inProgress, .ok 0⟩ (d.boardIp s)
      (.tcp (ascii "tcpproxy") 80) :=
    ⟨rfl, ⟨_, hip, 0x0100000a, by decide +kernel⟩, Or.inl rfl⟩
  obtain ⟨d', hd', ha⟩ := (run_socket_connecting_iff hrun hl hs).2 fun _ => hcr
  exact ⟨d', s, hd', ha⟩

/-- A board that the network does not reach: `connect` fails at once. -/
theorem failed_connect_ends_daemon : ∃ d,
    Run (Next Sample.env) (initial [Sample.board [] []] [.tcp (ascii "tcpproxy") 80] false)
      [Sample.accept, Sample.connect 0 7 100] d ∧
    ((d.step Sample.env (.socketConnecting 0 7 ⟨.ok (), .error 101, .ok 0⟩)).fault?,
      d.enabled (.socketConnecting 0 7 ⟨.ok (), .error 101, .ok 0⟩)) =
      (some (.systemError 101), true) :=
  exists_run (fun d : Daemon =>
    ((d.step Sample.env (.socketConnecting 0 7 ⟨.ok (), .error 101, .ok 0⟩)).fault?,
      d.enabled (.socketConnecting 0 7 ⟨.ok (), .error 101, .ok 0⟩))) (by decide +kernel)

end Daemon
end BoardProxy
