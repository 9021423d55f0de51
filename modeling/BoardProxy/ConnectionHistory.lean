import BoardProxy.CallbackCases

/-!
# The callbacks of one proxy connection

The number of a session, and the number of a proxy within its session, are never
used twice. A pair of them names one connection for a whole run, and the events of
the run that carry this name are everything that has happened to the connection.
`Daemon.guarded_connection_run` is the induction rule over them, for runs of any kind.
-/

namespace BoardProxy

def calls (sid pid : ℕ) (es : List Event) : List Event :=
  es.filter fun e => decide (e.proxy? = some (sid, pid))

section Calls

variable {sid pid : ℕ} {es : List Event} {e : Event}

theorem calls_snoc_of_eq (h : e.proxy? = some (sid, pid)) :
    calls sid pid (es ++ [e]) = calls sid pid es ++ [e] := by
  simp [calls, h]

theorem calls_snoc_of_ne (h : e.proxy? ≠ some (sid, pid)) :
    calls sid pid (es ++ [e]) = calls sid pid es := by
  simp [calls, h]

end Calls

namespace Daemon

variable {env : Env} {sys : Sys} {d d' d₁ : Daemon} {e : Event} {es : List Event} {sid k : ℕ}
  {s s' : Session}

structure KeepsProxies (d d' : Daemon) : Prop where
  counter : d'.counter = d.counter
  session : ∀ k s', d'.session k = some s' →
    ∃ s, d.session k = some s ∧ s'.proxies = s.proxies ∧ s'.proxyCnt = s.proxyCnt

namespace KeepsProxies

theorem of_sessions (hc : d'.counter = d.counter) (hs : d'.sessions = d.sessions) :
    d.KeepsProxies d' := by
  refine ⟨hc, fun k s hk => ⟨s, ?_, rfl, rfl⟩⟩
  rwa [Daemon.session, hs] at hk

theorem trans (h : d.KeepsProxies d₁) (h' : d₁.KeepsProxies d') : d.KeepsProxies d' := by
  refine ⟨h'.counter.trans h.counter, fun k u hu => ?_⟩
  obtain ⟨t, ht, hp, hc⟩ := h'.session k u hu
  obtain ⟨s, hs, hp', hc'⟩ := h.session k t ht
  exact ⟨s, hs, hp.trans hp', hc.trans hc'⟩

theorem of_map {f : Session → Session} (hc : d'.counter = d.counter)
    (hd : ∀ k, d'.session k = if k = sid then (d.session sid).map f else d.session k)
    (hf : ∀ s, (f s).proxies = s.proxies ∧ (f s).proxyCnt = s.proxyCnt) : d.KeepsProxies d' := by
  refine ⟨hc, fun k s' hs' => ?_⟩
  rw [hd] at hs'
  by_cases hk : k = sid
  · rw [if_pos hk] at hs'
    obtain ⟨s, hs, rfl⟩ := Option.map_eq_some_iff.1 hs'
    exact ⟨s, hk ▸ hs, hf s⟩
  · rw [if_neg hk] at hs'
    exact ⟨s', hs', rfl, rfl⟩

theorem leaves (hs : d.session sid = some s) (h : Leaves env sys d sid d') :
    d.KeepsProxies d' := by
  have hdep : d.KeepsProxies (d.departed sid) := by
    refine ⟨(departed_fields hs).2.2.1, fun k s' hs' => ?_⟩
    rw [departed_session] at hs'
    split_ifs at hs'
    exact ⟨s', hs', rfl, rfl⟩
  cases h with
  | idle =>
    rw [exitIfIdle_eq_silent]
    exact hdep.trans (of_sessions rfl rfl)
  | handOver =>
    rw [exitIfIdle_eq_silent]
    refine (hdep.trans ?_).trans (of_sessions rfl rfl)
    exact of_map rfl (fun _ => grant_session ..) fun _ => ⟨rfl, rfl⟩

theorem closes (hs : d.session sid = some s) (h : Closes env sys d sid s d') :
    d.KeepsProxies d' := by
  cases h with
  | kill => exact of_sessions rfl rfl
  | startClosing => exact of_map rfl (fun _ => startClosing_session ..) fun _ => ⟨rfl, rfl⟩
  | leave _ hl => exact leaves hs hl

theorem connects {noWait : Bool} (hs : d.session sid = some s)
    (h : Connects env sys d sid s noWait d') : d.KeepsProxies d' := by
  have henq : d.KeepsProxies (d.enqueue sid) :=
    of_map rfl (fun _ => enqueue_session) fun _ => ⟨rfl, rfl⟩
  cases h with
  | grant => exact of_map rfl (fun _ => grant_session ..) fun _ => ⟨rfl, rfl⟩
  | wait => exact henq.trans (of_sessions rfl rfl)
  | @turnAway as _ _ _ hl =>
    have hse := enqueue_session_self hs
    have hact : d.KeepsProxies ((d.enqueue sid).act as) := henq.trans (of_sessions rfl rfl)
    exact hact.trans (leaves hse hl)

theorem receive (sid : ℕ) (pkt : Packet) : d.KeepsProxies (d.receive sid pkt) :=
  of_map rfl (fun _ => session_receive sid pkt) fun _ => ⟨rfl, rfl⟩

theorem introduce (sid : ℕ) (pkt : Packet) (r : Proto.Request) :
    d.KeepsProxies (d.introduce sid pkt r) :=
  of_map rfl (fun _ => session_introduce sid pkt r) fun _ => ⟨rfl, rfl⟩

end KeepsProxies

end Daemon

def Event.isSessionEvent : Event → Bool
  | .clientData .. | .processExits _ | .childReaped .. | .acceptFailed _ | .signal => true
  | _ => false

theorem Event.proxy_of_isSessionEvent {e : Event} (h : e.isSessionEvent = true) :
    e.proxy? = none := by
  cases e <;> first | rfl | cases h

namespace Daemon

variable {env : Env} {sys : Sys} {d d' d₁ : Daemon} {e : Event} {es : List Event} {sid k : ℕ}
  {s s' : Session}

inductive Links (env : Env) (d : Daemon) (e : Event) (d' : Daemon) : Prop
  | kept : e.proxy? = none → d.KeepsProxies d' → Links env d e d'
  | accepted {cred : Bytes} {ppid : Pid} {buffer : Memory} {now : ℤ} : e.proxy? = none →
      d' = d.onClientConnecting cred ppid buffer now → Links env d e d'
  | attached {sid listener : ℕ} {s : Session} {peer : Pid} {io : ConnectIo}
      {factory : ProxyFactory} {conn : ProxyConn} : e = .socketConnecting listener peer io →
      d.proxyListeners[listener]? = some factory → d.session sid = some s →
      factory.create env io (d.boardIp s) = .ok conn → d' = Session.addProxy d sid peer conn →
      Links env d e d'
  | proxied {sid pid : ℕ} {s : Session} {p : Proxy} {conn : ProxyConn} :
      e.proxy? = some (sid, pid) → d.session sid = some s →
      KeyedList.lookup Proxy.id pid s.proxies = some p →
      p.conn.callback env (d.boardIp s) e = .returned conn →
      d' = d.modifySession sid (Session.withProxies (setProxy pid conn) 0) → Links env d e d'

theorem keeps_of_callback (h : Callback env d e d') (he : e.isSessionEvent = true) :
    d.KeepsProxies d' := by
  cases h with
  | @hangUp sid recv sys as s d' _ hs _ _ hcl =>
    have hsh := session_hangUp_self as hs
    have hk : d.KeepsProxies ((d.act as).modifySession sid Session.hungUp) :=
      .of_map rfl (fun _ => session_hangUp ..) fun _ => ⟨rfl, rfl⟩
    exact hk.trans (.closes hsh hcl)
  | ignore => exact .receive ..
  | noFds _ _ _ ht hcl h₂ =>
    obtain ⟨u, hu, hcl'⟩ := closes_of_closeSession h₂
    exact (KeepsProxies.receive ..).trans ((KeepsProxies.closes ht hcl).trans (.closes hu hcl'))
  | connect _ hs _ _ hcon =>
    exact (KeepsProxies.introduce ..).trans (.connects (session_introduce_self _ _ hs) hcon)
  | @listSessions sid pkt sys r as s d' _ hs _ _ hcl =>
    have hsi : ((d.introduce sid pkt r).act as).session sid = _ := session_introduce_self pkt r hs
    have hk : d.KeepsProxies ((d.introduce sid pkt r).act as) :=
      (KeepsProxies.introduce sid pkt r).trans (.of_sessions rfl rfl)
    exact hk.trans (.closes hsi hcl)
  | otherCommand => exact .introduce ..
  | processExits => exact .of_sessions rfl rfl
  | reapUnwatched => exact .of_sessions rfl rfl
  | @reap pid sys s t c d' _ _ _ _ _ ht hcl =>
    have hk : d.KeepsProxies (Session.stopChildWatcher (d.moveProcess pid .zombie .reaped) s.id) :=
      .of_map rfl (fun _ => session_stopChildWatcher) fun _ => ⟨rfl, rfl⟩
    exact hk.trans (.closes (session_stop_moveProcess ht) hcl)
  | signal => exact .of_sessions rfl rfl
  | proxied hp => exact absurd (Event.proxy_of_isSessionEvent he) (by simp [hp])
  | _ => cases he

theorem links_of_callback (h : Callback env d e d') : Links env d e d' := by
  by_cases he : e.isSessionEvent = true
  · exact .kept (Event.proxy_of_isSessionEvent he) (keeps_of_callback h he)
  · cases h with
    | accept => exact .accepted rfl rfl
    | unrouted => exact .kept rfl (.of_sessions rfl rfl)
    | attach hl _ ht _ hcr => exact .attached rfl hl ht hcr rfl
    | proxied he hs hp hr => exact .proxied he hs hp hr rfl
    | _ => exact absurd rfl he

theorem counter_le_of_next (hn : d.Next env e d') : d.counter ≤ d'.counter := by
  cases links_of_callback (callback_of_next hn) with
  | kept _ hkeep => exact Nat.le_of_eq hkeep.counter.symm
  | accepted _ hd => exact hd ▸ Nat.le_succ _
  | attached _ _ _ _ hd => exact hd ▸ Nat.le_refl _
  | proxied _ _ _ _ hd => exact hd ▸ Nat.le_refl _

theorem gone_of_next (hn : d.Next env e d') (hlt : k < d.counter) (hk : d.session k = none) :
    d'.session k = none := by
  have hmod : ∀ (sid : ℕ) (f : Session → Session), (∀ s, (f s).id = s.id) →
      (d.modifySession sid f).session k = none := by
    intro sid f hf
    rw [session_modifySession d sid k f hf]
    split_ifs with hs
    · rw [← hs, hk, Option.map_none]
    · exact hk
  cases links_of_callback (callback_of_next hn) with
  | kept _ hkeep =>
    by_contra hne
    obtain ⟨s', hs'⟩ := Option.ne_none_iff_exists'.1 hne
    obtain ⟨s, hs, _⟩ := hkeep.session k s' hs'
    rw [hk] at hs
    cases hs
  | accepted _ hd =>
    rw [hd, onClientConnecting, session_addSession, hk, Option.none_or, if_neg (Nat.ne_of_gt hlt)]
  | attached _ _ _ _ hd =>
    rw [hd]
    exact hmod _ _ fun _ => rfl
  | proxied _ _ _ _ hd =>
    rw [hd]
    exact hmod _ _ fun _ => rfl

theorem mem_setProxy {pid : ℕ} {conn : ProxyConn} {ps : List Proxy} {p : Proxy}
    (h : p ∈ setProxy pid conn ps) : (p ∈ ps ∧ p.id ≠ pid) ∨
      conn.closed = false ∧ ∃ q ∈ ps, q.id = pid ∧ p = { q with conn := conn } := by
  unfold setProxy at h
  split_ifs at h with hc
  · exact Or.inl (by simpa [KeyedList.remove] using h)
  · obtain ⟨q, hq, rfl⟩ := List.mem_map.1 h
    by_cases hid : q.id = pid
    · rw [if_pos hid]
      exact Or.inr ⟨by simpa using hc, q, hq, hid, rfl⟩
    · rw [if_neg hid]
      exact Or.inl ⟨hq, hid⟩

/-- `P` describes every open connection, from everything that has happened to it. The
other fields say that the names of connections are not used twice. -/
structure Recorded (P : List Event → ProxyConn → Prop) (es : List Event) (d : Daemon) : Prop where
  session_lt : ∀ k s, d.session k = some s → k < d.counter
  proxy_lt : ∀ k s, d.session k = some s → ∀ q ∈ s.proxies, q.id < s.proxyCnt
  called : ∀ k pid, calls k pid es ≠ [] →
    k < d.counter ∧ ∀ s, d.session k = some s → pid < s.proxyCnt
  conn : ∀ k s, d.session k = some s → ∀ q ∈ s.proxies, P (calls k q.id es) q.conn

namespace Recorded

variable {P : List Event → ProxyConn → Prop}

theorem extend (h : Recorded P es d) (he : e.proxy? = none) (hcnt : d.counter ≤ d'.counter)
    (hd : ∀ k s', d'.session k = some s' →
      (∃ s, d.session k = some s ∧ s.proxyCnt ≤ s'.proxyCnt ∧ ∀ q ∈ s'.proxies,
        q ∈ s.proxies ∨ s.proxyCnt ≤ q.id ∧ q.id < s'.proxyCnt ∧ P [] q.conn) ∨
      (d.counter ≤ k ∧ k < d'.counter ∧ s'.proxies = [])) : Recorded P (es ++ [e]) d' := by
  have hcalls : ∀ k pid, calls k pid (es ++ [e]) = calls k pid es :=
    fun k pid => calls_snoc_of_ne (by simp [he])
  refine ⟨?_, ?_, ?_, ?_⟩
  · intro k s' hs'
    rcases hd k s' hs' with ⟨s, hs, _⟩ | ⟨_, hlt, _⟩
    · exact Nat.lt_of_lt_of_le (h.session_lt k s hs) hcnt
    · exact hlt
  · intro k s' hs' q hq
    rcases hd k s' hs' with ⟨s, hs, hle, hprox⟩ | ⟨_, _, hnil⟩
    · rcases hprox q hq with hq | ⟨_, hlt, _⟩
      · exact Nat.lt_of_lt_of_le (h.proxy_lt k s hs q hq) hle
      · exact hlt
    · rw [hnil] at hq
      cases hq
  · intro k pid hne
    rw [hcalls] at hne
    obtain ⟨hlt, hused⟩ := h.called k pid hne
    refine ⟨Nat.lt_of_lt_of_le hlt hcnt, fun s' hs' => ?_⟩
    rcases hd k s' hs' with ⟨s, hs, hle, _⟩ | ⟨hge, _, _⟩
    · exact Nat.lt_of_lt_of_le (hused s hs) hle
    · exact absurd hlt (Nat.not_lt.2 hge)
  · intro k s' hs' q hq
    rw [hcalls]
    rcases hd k s' hs' with ⟨s, hs, _, hprox⟩ | ⟨_, _, hnil⟩
    · rcases hprox q hq with hq | ⟨hge, _, hP⟩
      · exact h.conn k s hs q hq
      · have hnone : calls k q.id es = [] := by
          by_contra hne
          exact absurd ((h.called k q.id hne).2 s hs) (Nat.not_lt.2 hge)
        rw [hnone]
        exact hP
    · rw [hnil] at hq
      cases hq

theorem keeps (h : Recorded P es d) (he : e.proxy? = none) (hk : d.KeepsProxies d') :
    Recorded P (es ++ [e]) d' := by
  refine h.extend he (Nat.le_of_eq hk.counter.symm) fun k s' hs' => ?_
  obtain ⟨s, hs, hp, hc⟩ := hk.session k s' hs'
  exact Or.inl ⟨s, hs, Nat.le_of_eq hc.symm, fun q hq => Or.inl (hp ▸ hq)⟩

theorem accepts {cred : Bytes} {ppid : Pid} {buffer : Memory} {now : ℤ} (h : Recorded P es d)
    (he : e.proxy? = none) :
    Recorded P (es ++ [e]) (d.onClientConnecting cred ppid buffer now) := by
  refine h.extend he (Nat.le_succ _) fun k s' hs' => ?_
  rw [onClientConnecting, session_addSession] at hs'
  cases hs : d.session k with
  | some s =>
    rw [hs, Option.some_or, Option.some.injEq] at hs'
    subst hs'
    exact Or.inl ⟨s, rfl, Nat.le_refl _, fun q hq => Or.inl hq⟩
  | none =>
    rw [hs, Option.none_or] at hs'
    split_ifs at hs' with hk
    subst hk
    rw [← Option.some.inj hs']
    exact Or.inr ⟨Nat.le_refl _, Nat.lt_succ_self _, rfl⟩

theorem attaches {peer : Pid} {conn : ProxyConn} (h : Recorded P es d) (he : e.proxy? = none)
    (hs : d.session sid = some s) (hP : P [] conn) :
    Recorded P (es ++ [e]) (Session.addProxy d sid peer conn) := by
  refine h.extend he (Nat.le_refl _) fun k s' hs' => Or.inl ?_
  rw [Session.addProxy, session_modifySession] at hs'
  · by_cases hk : k = sid
    · rw [if_pos hk, hs, Option.map_some, Option.some.injEq] at hs'
      subst hk hs'
      refine ⟨s, hs, Nat.le_succ _, fun q hq => ?_⟩
      rcases List.mem_append.1 hq with hq | hq
      · exact Or.inl hq
      · rw [List.mem_singleton.1 hq]
        exact Or.inr ⟨Nat.le_refl _, Nat.lt_succ_self _, hP⟩
    · rw [if_neg hk] at hs'
      exact ⟨s', hs', Nat.le_refl _, fun q hq => Or.inl hq⟩
  · exact fun _ => rfl

theorem runs {pid : ℕ} {p : Proxy} {conn : ProxyConn} (h : Recorded P es d)
    (he : e.proxy? = some (sid, pid)) (hs : d.session sid = some s)
    (hp : KeyedList.lookup Proxy.id pid s.proxies = some p)
    (hP : conn.closed = false → P (calls sid pid es) p.conn → P (calls sid pid es ++ [e]) conn) :
    Recorded P (es ++ [e])
      (d.modifySession sid (Session.withProxies (setProxy pid conn) 0)) := by
  have hpid : p.id = pid := KeyedList.key_of_lookup hp
  have hmem : p ∈ s.proxies := KeyedList.mem_of_lookup hp
  have hother : ∀ k q, ¬(k = sid ∧ q = pid) → calls k q (es ++ [e]) = calls k q es := by
    intro k q hne
    refine calls_snoc_of_ne fun hc => hne ?_
    rw [he, Option.some.injEq, Prod.mk.injEq] at hc
    exact ⟨hc.1.symm, hc.2.symm⟩
  have hnew : ∀ k s', (d.modifySession sid (Session.withProxies (setProxy pid conn) 0)).session k =
      some s' → (k ≠ sid ∧ d.session k = some s') ∨
        k = sid ∧ s' = s.withProxies (setProxy pid conn) 0 := by
    intro k s' hs'
    rw [session_modifySession d sid k (Session.withProxies _ 0) fun _ => rfl] at hs'
    by_cases hk : k = sid
    · rw [if_pos hk, hs, Option.map_some, Option.some.injEq] at hs'
      exact Or.inr ⟨hk, hs'.symm⟩
    · rw [if_neg hk] at hs'
      exact Or.inl ⟨hk, hs'⟩
  refine ⟨?_, ?_, ?_, ?_⟩
  · intro k s' hs'
    rcases hnew k s' hs' with ⟨_, hk⟩ | ⟨rfl, _⟩
    · exact h.session_lt k s' hk
    · exact h.session_lt k s hs
  · intro k s' hs' q hq
    rcases hnew k s' hs' with ⟨_, hk⟩ | ⟨rfl, rfl⟩
    · exact h.proxy_lt k s' hk q hq
    · rcases mem_setProxy hq with ⟨hq, _⟩ | ⟨_, r, hr, _, rfl⟩
      · exact h.proxy_lt k s hs q hq
      · exact h.proxy_lt k s hs r hr
  · intro k q hne
    by_cases hkq : k = sid ∧ q = pid
    · obtain ⟨rfl, rfl⟩ := hkq
      refine ⟨h.session_lt k s hs, fun s' hs' => ?_⟩
      rcases hnew k s' hs' with ⟨hk, _⟩ | ⟨_, rfl⟩
      · exact absurd rfl hk
      · exact hpid ▸ h.proxy_lt k s hs p hmem
    · rw [hother k q hkq] at hne
      obtain ⟨hlt, hcnt⟩ := h.called k q hne
      refine ⟨hlt, fun s' hs' => ?_⟩
      rcases hnew k s' hs' with ⟨_, hk⟩ | ⟨rfl, rfl⟩
      · exact hcnt s' hk
      · exact hcnt s hs
  · intro k s' hs' q hq
    rcases hnew k s' hs' with ⟨hne, hk⟩ | ⟨rfl, rfl⟩
    · rw [hother k q.id fun hc => hne hc.1]
      exact h.conn k s' hk q hq
    · rcases mem_setProxy hq with ⟨hq, hid⟩ | ⟨hcl, r, _, hid, rfl⟩
      · rw [hother k q.id fun hc => hid hc.2]
        exact h.conn k s hs q hq
      · change P (calls k r.id (es ++ [e])) conn
        rw [hid, calls_snoc_of_eq he]
        exact hP hcl (hpid ▸ h.conn k s hs p hmem)

end Recorded

section Listeners

def listeners (d : Daemon) : List ProxyFactory × Bool := (d.proxyListeners, d.isFromSystemd)

theorem listeners_departed : (d.departed sid).listeners = d.listeners := by
  unfold departed Session.destroy
  split
  · rfl
  · dsimp only
    split <;> rfl

theorem listeners_leaves (h : Leaves env sys d sid d') :
    d'.listeners = d.listeners := by
  cases h with
  | idle =>
    rw [exitIfIdle_eq_silent]
    exact listeners_departed
  | handOver =>
    rw [exitIfIdle_eq_silent]
    exact listeners_departed

theorem listeners_closes (h : Closes env sys d sid s d') :
    d'.listeners = d.listeners := by
  cases h with
  | kill => rfl
  | startClosing => rfl
  | leave _ hl => exact listeners_leaves hl

theorem listeners_callback (h : Callback env d e d') :
    d'.listeners = d.listeners := by
  cases h with
  | hangUp _ _ _ _ hcl =>
    have hl := listeners_closes hcl
    exact hl
  | noFds _ _ _ _ hcl h₂ =>
    obtain ⟨u, _, hcl'⟩ := closes_of_closeSession h₂
    have hl := listeners_closes hcl
    exact (listeners_closes hcl').trans hl
  | connect _ _ _ _ hcon =>
    cases hcon with
    | grant => rfl
    | wait => rfl
    | turnAway _ _ hl =>
      have hl := listeners_leaves hl
      exact hl
  | listSessions _ _ _ _ hcl =>
    have hl := listeners_closes hcl
    exact hl
  | reap _ _ _ _ _ _ hcl =>
    have hl := listeners_closes hcl
    exact hl
  | _ => rfl

theorem listeners_run {start : Daemon} (h : Run (Next env) start es d) :
    d.listeners = start.listeners :=
  h.invariant (fun d => d.listeners = start.listeners) rfl
    fun _ _ _ ih hn => (listeners_callback (callback_of_next hn)).trans ih

end Listeners

section Connections

variable {bs : List BoardSpec} {fs : List ProxyFactory} {sd : Bool}
  (P : List Event → ProxyConn → Prop)

/-- What holds of a new connection, and is kept by its callbacks under the guard `G` on
steps, holds of every connection in every run. -/
theorem guarded_connection_run (G : Daemon → Event → Prop)
    (hnew : ∀ factory io ip conn, ProxyFactory.create env io ip factory = .ok conn → P [] conn)
    (hcall : ∀ es d e sid pid s p c', G d e → d.enabled e = true → e.proxy? = some (sid, pid) →
      d.session sid = some s → KeyedList.lookup Proxy.id pid s.proxies = some p → P es p.conn →
      p.conn.callback env (d.boardIp s) e = .returned c' → c'.closed = false → P (es ++ [e]) c')
    (h : Run (fun d e d' => d.Next env e d' ∧ G d e) (initial bs fs sd) es d) :
    Recorded P es d := by
  refine h.history (Recorded P) ?_ ?_
  · exact ⟨fun _ _ hs => (by cases hs), fun _ _ hs => (by cases hs), fun _ _ hc => absurd rfl hc,
      fun _ _ hs => (by cases hs)⟩
  · rintro es d e d' - ih ⟨hn, hg⟩
    cases links_of_callback (callback_of_next hn) with
    | kept he hk => exact ih.keeps he hk
    | accepted he hd => exact hd ▸ ih.accepts he
    | attached he _ hs hcr hd => exact hd ▸ ih.attaches (he ▸ rfl) hs (hnew _ _ _ _ hcr)
    | proxied hp hs hlook hr hd =>
      subst hd
      exact ih.runs hp hs hlook fun hcl hP =>
        hcall _ _ _ _ _ _ _ _ hg (next_iff.1 hn).1 hp hs hlook hP hr hcl

theorem connection_run
    (hnew : ∀ factory io ip conn, ProxyFactory.create env io ip factory = .ok conn → P [] conn)
    (hcall : ∀ es e ip c c', P es c → c.callback env ip e = .returned c' → c'.closed = false →
      P (es ++ [e]) c')
    (h : Run (Next env) (initial bs fs sd) es d) : Recorded P es d :=
  guarded_connection_run P (fun _ _ => True) hnew
    (fun _ _ _ _ _ _ _ _ _ _ _ _ _ hP hr hcl => hcall _ _ _ _ _ hP hr hcl)
    (h.mono fun _ _ _ hn => ⟨hn, trivial⟩)

end Connections

end Daemon
end BoardProxy
