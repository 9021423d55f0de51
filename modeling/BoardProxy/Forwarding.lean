import BoardProxy.Routing

/-!
# Which session a connection is forwarded for

`find_session_by_ppid` takes the first session of the peer's parent, and the
status is looked at afterwards. A session without a board hides the sessions
behind it.
-/

namespace BoardProxy

/-- The setup message of the session `k` carried the parent process `p`. -/
def Carried (es : List Event) (k : ℕ) (p : Pid) : Prop :=
  ∃ x ∈ setupPackets es, x.1 = k ∧ x.2.ppid = p

instance (es : List Event) (k : ℕ) (p : Pid) : Decidable (Carried es k p) :=
  inferInstanceAs (Decidable (∃ x ∈ setupPackets es, _ ∧ _))

namespace Daemon

variable {env : Env} {io : ConnectIo} {d d' : Daemon} {es : List Event} {k l : ℕ} {s : Session}
  {p : Pid} {factory : ProxyFactory} {bs : List BoardSpec} {fs : List ProxyFactory} {sd : Bool}

/-- The constructor of the proxy returns. -/
def Constructs (env : Env) (io : ConnectIo) (factory : ProxyFactory) (d : Daemon) (s : Session) :
    Prop :=
  ∃ conn, factory.create env io (d.boardIp s) = .ok conn

/-- A proxy for the connection is attached to the session `s`. -/
def Forwarded (env : Env) (io : ConnectIo) (factory : ProxyFactory) (d : Daemon) (p : Pid)
    (s : Session) (o : Outcome Daemon) : Prop :=
  ∃ conn, factory.create env io (d.boardIp s) = .ok conn ∧
    o = .returned (Session.addProxy d s.id p conn)

theorem carried_iff (h : Run (Next env) (initial bs fs sd) es d) (ho : AtMostOneSetup es)
    (hfull : ∀ x ∈ setupPackets es, x.2.Complete) (hs : d.session k = some s)
    (hst : s.status ≠ .created) : Carried es k p ↔ s.ppid = p := by
  obtain ⟨pkt, r, hmem, ⟨m, hr⟩, hp, _⟩ := introduced_run h ho k s hs hst
  have hpkt : s.ppid = pkt.ppid := hp.trans (Packet.ppid_of_readSetup (hfull _ hmem) hr)
  constructor
  · rintro ⟨⟨j, q⟩, hq, rfl, hqp⟩
    rw [hpkt, ← hqp, ho.packet_unique hmem hq]
  · exact fun he => ⟨(k, pkt), hmem, rfl, hpkt.symm.trans he⟩

theorem onSocketConnecting_of_hasBoard (hl : d.proxyListeners[l]? = some factory)
    (hf : d.findSessionByPpid p = some s) (hs : d.session s.id = some s)
    (hst : s.status = .hasBoard) : onSocketConnecting env io d l p =
      match factory.create env io (d.boardIp s) with
      | .error f =>
        .threw f (d.modifySession s.id fun s => { s with proxyCnt := s.proxyCnt + 1 })
      | .ok conn => .returned (Session.addProxy d s.id p conn) := by
  cases hc : factory.create env io (d.boardIp s) with
  | error f => simp [onSocketConnecting, hl, hf, Session.newSocketConnection, deref, hs, hst, hc]
  | ok conn => simp [onSocketConnecting, hl, hf, Session.newSocketConnection, deref, hs, hst, hc]

theorem forwarded_of_hasBoard (hl : d.proxyListeners[l]? = some factory)
    (hf : d.findSessionByPpid p = some s) (hs : d.session s.id = some s)
    (hst : s.status = .hasBoard) (hc : Constructs env io factory d s) :
    Forwarded env io factory d p s (onSocketConnecting env io d l p) := by
  obtain ⟨conn, hc⟩ := hc
  rw [onSocketConnecting_of_hasBoard hl hf hs hst, hc]
  exact ⟨conn, hc, rfl⟩

theorem Forwarded.constructs {t : Session} (hl : d.proxyListeners[l]? = some factory)
    (hf : d.findSessionByPpid p = some s) (hs : d.session s.id = some s)
    (hst : s.status = .hasBoard)
    (h : Forwarded env io factory d p t (onSocketConnecting env io d l p)) :
    Constructs env io factory d s := by
  rw [onSocketConnecting_of_hasBoard hl hf hs hst] at h
  obtain ⟨_, _, ho⟩ := h
  cases hc : factory.create env io (d.boardIp s) with
  | error f =>
    rw [hc] at ho
    cases ho
  | ok conn => exact ⟨conn, hc⟩

theorem refused_of_ne (hl : d.proxyListeners[l]? = some factory)
    (hf : d.findSessionByPpid p = some s) (hs : d.session s.id = some s)
    (hst : s.status ≠ .hasBoard) : onSocketConnecting env io d l p = .returned d := by
  simp only [onSocketConnecting, hl, hf, Session.newSocketConnection, deref, hs, hst, ne_eq,
    not_false_eq_true, ↓reduceIte]

theorem not_forwarded_of_refused (hs : d.session s.id = some s) :
    ¬Forwarded env io factory d p s (.returned d) := by
  rintro ⟨conn, _, h⟩
  have hcnt := congrArg (fun d : Daemon => (d.session s.id).map Session.proxyCnt)
    (Outcome.returned.inj h)
  simp only [Session.addProxy, hs, Option.map_some] at hcnt
  rw [session_modifySession, if_pos rfl, hs, Option.map_some, Option.map_some,
    Option.some.injEq] at hcnt
  · exact absurd hcnt (Nat.ne_of_lt (Nat.lt_succ_self _))
  · exact fun _ => rfl

/-- A connection from `p` is attached to a session with a board whenever there is one of
`p`, exactly when the first session of `p` has a board and its proxy can be made, or no
session of `p` has a board. -/
theorem once_run_forwarded_iff (h : Run (Next env) (initial bs fs sd) es d)
    (ho : AtMostOneSetup es) (hfull : ∀ x ∈ setupPackets es, x.2.Complete)
    (hl : d.proxyListeners[l]? = some factory) :
    (((∃ s ∈ d.sessions, s.status = .hasBoard ∧ Carried es s.id p) →
        ∃ s ∈ d.sessions, s.status = .hasBoard ∧ Carried es s.id p ∧
          Forwarded env io factory d p s (onSocketConnecting env io d l p)) ∧
      ((¬∃ s ∈ d.sessions, s.status = .hasBoard ∧ Carried es s.id p) →
        onSocketConnecting env io d l p = .returned d)) ↔
    ((∃ s ∈ d.sessions, s.status = .hasBoard ∧ s.ppid = p) →
      ∃ pre s post, d.sessions = pre ++ s :: post ∧ s.ppid = p ∧ s.status = .hasBoard ∧
        (∀ t ∈ pre, t.ppid ≠ p) ∧ Constructs env io factory d s) := by
  have hset := (orderly_run h ho).settled
  have hcar : (∃ s ∈ d.sessions, s.status = .hasBoard ∧ Carried es s.id p) ↔
      ∃ s ∈ d.sessions, s.status = .hasBoard ∧ s.ppid = p := by
    refine exists_congr fun s => and_congr_right fun hs => and_congr_right fun hst => ?_
    exact carried_iff h ho hfull (hset.session_of_mem hs) (by rw [hst]; decide)
  rw [hcar]
  cases hf : d.findSessionByPpid p with
  | none =>
    have hno : ∀ s ∈ d.sessions, s.ppid ≠ p := by
      intro s hs
      simpa using List.find?_eq_none.1 hf s hs
    have hnone : ¬∃ s ∈ d.sessions, s.status = .hasBoard ∧ s.ppid = p :=
      fun ⟨s, hs, _, hp⟩ => hno s hs hp
    constructor
    · exact fun _ hex => absurd hex hnone
    · refine fun _ => ⟨fun hex => absurd hex hnone, fun _ => ?_⟩
      simp only [onSocketConnecting, hl, hf]
  | some s =>
    obtain ⟨hp, pre, post, heq, hpre⟩ := List.find?_eq_some_iff_append.1 hf
    have hsp : s.ppid = p := by simpa using hp
    have hprep : ∀ t ∈ pre, t.ppid ≠ p := fun t ht => by simpa using hpre t ht
    have hmem : s ∈ d.sessions := by
      rw [heq]
      exact List.mem_append_right _ List.mem_cons_self
    have hs := hset.session_of_mem hmem
    -- the first session of `p` is `s` in every decomposition
    have hfirst : ∀ {pre' t post'}, d.sessions = pre' ++ t :: post' → t.ppid = p →
        (∀ u ∈ pre', u.ppid ≠ p) → s = t := by
      intro pre' t post' heq' htp hpre'
      have hft : d.findSessionByPpid p = some t := by
        refine List.find?_eq_some_iff_append.2 ⟨by simpa using htp, pre', post', heq', ?_⟩
        exact fun u hu => by simpa using hpre' u hu
      exact Option.some.inj (hf.symm.trans hft)
    by_cases hst : s.status = .hasBoard
    · constructor
      · intro ⟨hfor, _⟩ hex
        obtain ⟨_, _, _, _, hfw⟩ := hfor hex
        exact ⟨pre, s, post, heq, hsp, hst, hprep, hfw.constructs hl hf hs hst⟩
      · refine fun hcond => ⟨fun hex => ?_, fun hn => absurd ⟨s, hmem, hst, hsp⟩ hn⟩
        obtain ⟨pre', t, post', heq', htp, _, hpre', hc⟩ := hcond hex
        obtain rfl := hfirst heq' htp hpre'
        refine ⟨s, hmem, hst, ?_, forwarded_of_hasBoard hl hf hs hst hc⟩
        exact (carried_iff h ho hfull hs (by rw [hst]; decide)).2 hsp
    · have href : onSocketConnecting env io d l p = .returned d := refused_of_ne hl hf hs hst
      rw [href]
      constructor
      · intro ⟨hfor, _⟩ hex
        obtain ⟨t, ht, _, _, hfw⟩ := hfor hex
        exact absurd hfw (not_forwarded_of_refused (hset.session_of_mem ht))
      · intro hcond
        refine ⟨fun hex => ?_, fun _ => rfl⟩
        obtain ⟨pre', t, post', heq', htp, htst, hpre', _⟩ := hcond hex
        exact absurd (hfirst heq' htp hpre' ▸ htst) hst

/-- Two sessions of one parent, of which the first has the board. -/
theorem once_run_forwarded_first : ∃ es d,
    (Run (Next Sample.env) (initial [Sample.board [] []] [.wr (ascii "wrproxy")] false) es d ∧
      (d.proxyListeners[0]?, d.sessions.map fun s => (s.ppid, s.status)) =
        (some (.wr (ascii "wrproxy")), [(7, .hasBoard), (7, .awaitingBoard)])) ∧
    ∃ s ∈ d.sessions, s.status = .hasBoard ∧ Carried es s.id 7 ∧
      Forwarded Sample.env ⟨.ok (), .ok (), .ok 0⟩ (.wr (ascii "wrproxy")) d 7 s
        (onSocketConnecting Sample.env ⟨.ok (), .ok (), .ok 0⟩ d 0 7) := by
  refine ⟨[Sample.accept, Sample.accept, Sample.connect 0 7 100, Sample.connect 1 7 101], ?_⟩
  refine Exists.imp (fun d hr => ⟨hr, ?_⟩) (exists_run (fun d : Daemon =>
    (d.proxyListeners[0]?, d.sessions.map fun s => (s.ppid, s.status))) (by decide +kernel))
  obtain ⟨hrun, hd⟩ := hr
  simp only [Prod.mk.injEq] at hd
  obtain ⟨s, rest, heq, hs, _⟩ := List.map_eq_cons_iff.1 hd.2
  obtain ⟨hp, hst⟩ := Prod.mk.inj hs
  have hmem : s ∈ d.sessions := by
    rw [heq]
    exact List.mem_cons_self
  refine ((once_run_forwarded_iff hrun (by decide +kernel) (by decide +kernel) hd.1).2 fun _ =>
    ⟨[], s, rest, heq, hp, hst, (fun t ht => by cases ht), _, rfl⟩).1 ⟨s, hmem, hst, ?_⟩
  exact (carried_iff hrun (by decide +kernel) (by decide +kernel) ((orderly_run hrun
    (by decide +kernel)).settled.session_of_mem hmem) (by rw [hst]; decide)).2 hp

/-- A waiting session of the same parent stands in front of the session with the board,
and the connection is refused. -/
theorem waiting_session_hides_board : ∃ d d',
    (Run (Next Sample.env) (initial [Sample.board [] (ascii "amy")] [.wr (ascii "wrproxy")] false)
      [Sample.accept, Sample.connect 0 7 100, Sample.accept,
        Sample.setup 1 0 7 (ascii "amy") false 100] d ∧
      d.Next Sample.env (.socketConnecting 0 7 ⟨.ok (), .ok (), .ok 0⟩) d') ∧
    d.sessions.map (fun s => (s.ppid, s.status)) = [(7, .awaitingBoard), (7, .hasBoard)] ∧
    d'.sessions.map Session.proxies = [[], []] :=
  exists_run_step (fun d : Daemon => d.sessions.map fun s => (s.ppid, s.status))
    (fun d : Daemon => d.sessions.map Session.proxies) (by decide +kernel)

end Daemon
end BoardProxy
