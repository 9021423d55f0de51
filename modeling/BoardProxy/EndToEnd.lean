import BoardProxy.Routing
import BoardProxy.TcpRelay
import BoardProxy.WrRelay

/-!
# From a client to its board

A connection to a proxy socket in a run of the whole daemon behaves like the proxy on its
own, with the callbacks of this connection and no others. What one end has sent is what the
other end has been given and a buffer, and the other end is the board of the session. The
kernel is assumed to return no more from a read than it is asked for, and to send no more
than it is given.
-/

namespace BoardProxy

namespace Event

def tcpCall? : Event → Option TcpCall
  | .tcpTargetConnected _ _ io => some (.connected io)
  | .tcpClientData _ _ io => some (.data .clientToTarget io)
  | .tcpTargetData _ _ io => some (.data .targetToClient io)
  | _ => none

def wrCall? : Event → Option WrCall
  | .wrClientData _ _ io => some (.client io)
  | .wrTargetData _ _ io => some (.target io)
  | _ => none

end Event

def tcpBytes (dir : Direction) (es : List Event) : Bytes :=
  (es.filterMap Event.tcpCall?).flatMap (TcpCall.bytes dir)

namespace TcpProxy

def honest (p : TcpProxy) : TcpCall → Bool
  | .connected _ => true
  | .data dir io => io.bytes.length ≤ capacity - (p.buffer dir).length &&
      match io.send with
      | .ok n => n ≤ (p.buffer dir ++ io.bytes).length
      | .error _ => true

theorem Honest.of_honest {p : TcpProxy} {c : TcpCall} (h : p.honest c = true) : p.Honest c := by
  cases c with
  | connected io => trivial
  | data dir io =>
    obtain ⟨hfit, hsend⟩ := Bool.and_eq_true_iff.1 h
    refine ⟨of_decide_eq_true hfit, fun n hn => ?_⟩
    rw [hn] at hsend
    exact of_decide_eq_true hsend

variable {env : Env} {p q : TcpProxy}

theorem new_opened {io : ConnectIo} {ip : Bytes} {port : ℕ} (h : new env io ip port = .ok p) :
    p.closed = false ∧ p.target.port = port := by
  unfold new at h
  split at h
  · cases h
  · split at h
    · cases h
    · dsimp only at h
      split at h
      · split_ifs at h
        rw [← Except.ok.inj h]
        exact ⟨rfl, rfl⟩
      · split at h
        · cases h
        · rename_i hq
          rw [← Except.ok.inj h]
          exact ⟨rfl, congrArg SockAddr.port (target_onTargetConnected hq)⟩

theorem target_call {c : TcpCall} (h : p.call env c = .returned q) : q.target = p.target := by
  cases c with
  | connected io => exact target_onTargetConnected h
  | data dir io => cases dir <;> exact target_onData h

end TcpProxy

namespace ProxyConn

def honest (c : ProxyConn) (e : Event) : Bool :=
  match c with
  | .tcp q => e.tcpCall?.all q.honest
  | .wr q => e.wrCall?.all fun x => x.bytes.length ≤ WrProxy.capacity - q.bufC2t.length

end ProxyConn

/-- The event reports what the kernel can do in this state. -/
def Daemon.honest (d : Daemon) (e : Event) : Bool :=
  e.proxy?.all fun x => (d.session x.1).all fun s =>
    (KeyedList.lookup Proxy.id x.2 s.proxies).all fun p => p.conn.honest e

def Daemon.HonestNext (env : Env) (d : Daemon) (e : Event) (d' : Daemon) : Prop :=
  d.Next env e d' ∧ d.honest e = true

namespace WrProxy

variable {env : Env} {io : WrClientIo} {ip : Option Bytes} {p q : WrProxy} {fmt : Bytes}
  {args : List Bytes}

theorem closed_fail (h : p.fail io fmt args = .returned q) : q.closed = true := by
  unfold fail at h
  split at h
  · cases h
  · split at h
    · cases h
    · obtain ⟨_, _, h⟩ := Outcome.bind_eq_returned.1 h
      rw [SocketProxy.fail_returned h]
      rfl

theorem handleConnect_opened {cmd : InputStream} (h : p.handleConnect env io ip cmd = .returned q)
    (hcl : q.closed = false) :
    q.sent = p.sent ∧ q.state = .data ∧ q.bufC2t = [] ∧ q.target ≠ none := by
  have hno : ∀ {fmt args} {r : WrProxy}, r.fail io fmt args = .returned q →
      q.sent = p.sent ∧ q.state = .data ∧ q.bufC2t = [] ∧ q.target ≠ none := by
    intro fmt args r hf
    rw [closed_fail hf] at hcl
    cases hcl
  unfold handleConnect at h
  split at h
  · exact hno h
  · split at h
    · split at h
      · exact hno h
      · split at h
        · exact hno h
        · split at h
          · exact hno h
          · split at h
            · exact hno h
            · dsimp only at h
              split at h
              · split_ifs at h
                exact hno h
              · rw [← Outcome.returned.inj h]
                exact ⟨rfl, rfl, rfl, Option.some_ne_none _⟩
    · exact hno h

theorem onClientData_opened (hst : p.state = .command) (h : p.onClientData env io ip = .returned q)
    (hcl : q.closed = false) :
    q.sent = p.sent ∧
      (q.state = .command ∨ q.state = .data ∧ q.bufC2t = [] ∧ q.target ≠ none) := by
  unfold onClientData at h
  split at h
  · rw [← Outcome.returned.inj h] at hcl
    cases hcl
  · dsimp only at h
    split_ifs at h
    · rw [← Outcome.returned.inj h] at hcl
      cases hcl
    · rw [hst] at h
      dsimp only at h
      unfold parseCommand at h
      split_ifs at h with ht
      · rw [← Outcome.returned.inj h]
        exact ⟨rfl, Or.inl rfl⟩
      · dsimp only at h
        split_ifs at h
        · obtain ⟨hsent, hswitched⟩ := handleConnect_opened h hcl
          exact ⟨hsent, Or.inr hswitched⟩
        · split at h
          · cases h
          · rw [closed_fail h] at hcl
            cases hcl

def CallsAt (env : Env) (p : WrProxy) (c : WrCall) (q : WrProxy) : Prop :=
  ∃ ip, Calls env ip p c q

/-- A new connection has got these calls, and `c` was the one that took it from the command
state to the `DATA` state. -/
structure SwitchedBy (env : Env) (q : WrProxy) (pre : List WrCall) (c : WrCall)
    (post : List WrCall) (p r : WrProxy) : Prop where
  before : Run (CallsAt env) new pre p
  command : p.state = .command
  switch : CallsAt env p c r
  data : r.state = .data
  after : Run (CallsAt env) r post q

structure Carries (env : Env) (q : WrProxy) (cs : List WrCall) : Prop where
  opened : q.closed = false
  run : Run (CallsAt env) new cs q
  command : q.state = .command → q.sent = []
  target : q.state = .data → q.target ≠ none
  data : q.state = .data → ∃ pre c post p r, cs = pre ++ c :: post ∧
    SwitchedBy env q pre c post p r ∧ r.sent = [] ∧ Framed r post q.sent q

theorem carries_new : new.Carries env [] :=
  ⟨rfl, .nil, fun _ => rfl, fun h => (by cases h), fun h => (by cases h)⟩

theorem Calls.target {c : WrCall} (h : Calls env ip p c q) (hp : p.target ≠ none) :
    q.target ≠ none := by
  cases c with
  | client io =>
    rcases target_onClientData h.result with he | ⟨_, _, _, _, he⟩
    · rwa [he]
    · rw [he]
      exact Option.some_ne_none _
  | target io =>
    rw [target_onTargetData h.result]
    exact hp

theorem Carries.step {c : WrCall} {cs : List WrCall} (h : p.Carries env cs)
    (hc : Calls env ip p c q) (hcl : q.closed = false) : q.Carries env (cs ++ [c]) := by
  have hrun := h.run.snoc ⟨ip, hc⟩
  cases hst : p.state with
  | data =>
    obtain ⟨pre, sw, post, o, r, rfl, hsw, hr, hf⟩ := h.data hst
    obtain ⟨ds, hds⟩ := hf.step hst hc
    have hsent : q.sent = ds := by rw [hds.sent, hr, List.nil_append]
    have hdata := (hc.forwards hst).1
    refine ⟨hcl, hrun, fun hn => ?_, fun _ => hc.target (h.target hst),
      fun _ => ⟨pre, sw, post ++ [c], o, r, ?_, ?_, hr, hsent ▸ hds⟩⟩
    · rw [hdata] at hn
      cases hn
    · rw [List.append_assoc, List.cons_append]
    · exact ⟨hsw.before, hsw.command, hsw.switch, hsw.data, hsw.after.snoc ⟨ip, hc⟩⟩
  | command =>
    have hkept : q.sent = p.sent →
        (q.state = .command ∨ q.state = .data ∧ q.bufC2t = [] ∧ q.target ≠ none) →
        q.Carries env (cs ++ [c]) := by
      intro hsent hst'
      have hnil : q.sent = [] := hsent.trans (h.command hst)
      rcases hst' with hst' | ⟨hdata, hbuf, htarget⟩
      · exact ⟨hcl, hrun, fun _ => hnil, fun hd => (by cases hst'.symm.trans hd),
          fun hd => (by cases hst'.symm.trans hd)⟩
      · refine ⟨hcl, hrun, fun _ => hnil, fun _ => htarget,
          fun _ => ⟨cs, c, [], p, q, rfl, ?_, hnil, ?_⟩⟩
        · exact ⟨h.run, hst, ⟨ip, hc⟩, hdata, .nil⟩
        · rw [hnil]
          refine ⟨(List.append_nil _).symm, hbuf.symm, ?_, fun x hx => (by cases hx)⟩
          rw [hbuf]
          exact Nat.zero_le _
    cases c with
    | client io =>
      obtain ⟨hsent, hst'⟩ := onClientData_opened hst hc.result hcl
      exact hkept hsent hst'
    | target io =>
      obtain ⟨hs, hsent, _⟩ := onTargetData_returned hc.result
      exact hkept hsent (Or.inl (hs.trans hst))

end WrProxy

namespace ProxyConn

variable {env : Env} {ip : Option Bytes} {es : List Event} {e : Event} {c c' : ProxyConn}
  {factory : ProxyFactory}

def Replays (env : Env) (es : List Event) : ProxyConn → Prop
  | .tcp q => ∃ port io ip p, TcpProxy.new env io ip port = .ok p ∧ q.closed = false ∧
      Run (TcpProxy.Calls env) p (es.filterMap Event.tcpCall?) q
  | .wr q => q.Carries env (es.filterMap Event.wrCall?)

theorem replays_create {io : ConnectIo} (h : factory.create env io ip = .ok c) :
    c.Replays env [] := by
  cases factory with
  | wr name =>
    simp only [ProxyFactory.create] at h
    split at h
    · cases h
    · rw [← Except.ok.inj h]
      exact WrProxy.carries_new
  | tcp name port =>
    simp only [ProxyFactory.create] at h
    split at h
    · cases h
    · split at h
      · cases h
      · rename_i x p hp
        rw [← Except.ok.inj h]
        exact ⟨port, io, _, p, hp, (TcpProxy.new_opened hp).1, .nil⟩

def ready (c : ProxyConn) : Event → Bool
  | .wrClientData .. | .wrTargetData .. => c.isWr
  | .tcpTargetConnected .. => c.targetActive .onTargetConnected
  | .tcpClientData .. => c.clientActive
  | .tcpTargetData .. => c.targetActive .onTargetData
  | _ => false

theorem replays_tcp {q : TcpProxy} {x : TcpCall} (h : (ProxyConn.tcp q).Replays env es)
    (hx : e.tcpCall? = some x) (hready : q.Ready x) (hhon : (ProxyConn.tcp q).honest e = true)
    (hr : (q.call env x).map .tcp = .returned c') (hcl : c'.closed = false) :
    c'.Replays env (es ++ [e]) := by
  obtain ⟨port, io, ip, p, hp, hopen, hrun⟩ := h
  obtain ⟨r, hres, rfl⟩ := Outcome.map_eq_returned.1 hr
  have hhon' : q.honest x = true := by
    simp only [honest, hx, Option.all_some] at hhon
    exact hhon
  refine ⟨port, io, ip, p, hp, hcl, ?_⟩
  rw [List.filterMap_append, List.filterMap_cons, hx]
  exact hrun.snoc ⟨hopen, hready, .of_honest hhon', hres⟩

theorem replays_wr {q : WrProxy} {x : WrCall} (ip : Option Bytes)
    (h : (ProxyConn.wr q).Replays env es)
    (hx : e.wrCall? = some x) (hhon : (ProxyConn.wr q).honest e = true)
    (hr : (q.call env ip x).map .wr = .returned c') (hcl : c'.closed = false) :
    c'.Replays env (es ++ [e]) := by
  obtain ⟨r, hres, rfl⟩ := Outcome.map_eq_returned.1 hr
  have hfits : x.bytes.length ≤ WrProxy.capacity - q.bufC2t.length := by
    simp only [honest, hx, Option.all_some] at hhon
    exact of_decide_eq_true hhon
  have hcarries : q.Carries env (es.filterMap Event.wrCall?) := h
  change r.Carries env _
  rw [List.filterMap_append, List.filterMap_cons, hx]
  exact hcarries.step ⟨hcarries.opened, hfits, hres⟩ hcl

theorem Replays.callback (h : c.Replays env es) (hready : c.ready e = true)
    (hhon : c.honest e = true) (hr : c.callback env ip e = .returned c')
    (hcl : c'.closed = false) : c'.Replays env (es ++ [e]) := by
  cases c with
  | tcp q =>
    cases e with
    | tcpTargetConnected sid pid io =>
      have hact : q.targetWatcher = some .onTargetConnected := of_decide_eq_true hready
      exact replays_tcp h rfl hact hhon hr hcl
    | tcpClientData sid pid io => exact replays_tcp h rfl hready hhon hr hcl
    | tcpTargetData sid pid io =>
      have hact : q.targetWatcher = some .onTargetData := of_decide_eq_true hready
      exact replays_tcp h rfl hact hhon hr hcl
    | _ => cases hready
  | wr q =>
    cases e with
    | wrClientData sid pid io => exact replays_wr ip h rfl hhon hr hcl
    | wrTargetData sid pid io => exact replays_wr ip h rfl hhon hr hcl
    | _ => cases hready

end ProxyConn

namespace ProxyFactory

variable {env : Env} {ip : Option Bytes} {factory : ProxyFactory} {c c' : ProxyConn}

def Fits : ProxyFactory → ProxyConn → Prop
  | .wr _, .wr _ => True
  | .tcp _ port, .tcp q => q.target.port = port
  | _, _ => False

theorem fits_create {io : ConnectIo} (h : factory.create env io ip = .ok c) : factory.Fits c := by
  cases factory with
  | wr name =>
    simp only [create] at h
    split at h
    · cases h
    · rw [← Except.ok.inj h]
      trivial
  | tcp name port =>
    simp only [create] at h
    split at h
    · cases h
    · split at h
      · cases h
      · rename_i p hp
        rw [← Except.ok.inj h]
        exact (TcpProxy.new_opened hp).2

theorem Fits.callback {e : Event} (h : factory.Fits c)
    (hr : c.callback env ip e = .returned c') : factory.Fits c' := by
  have htcp : ∀ {q : TcpProxy} {x : TcpCall}, factory.Fits (.tcp q) →
      (q.call env x).map .tcp = .returned c' → factory.Fits c' := by
    intro q x hfit ho
    obtain ⟨r, hcall, rfl⟩ := Outcome.map_eq_returned.1 ho
    cases factory with
    | wr name => cases hfit
    | tcp name port => exact (congrArg SockAddr.port (TcpProxy.target_call hcall)).trans hfit
  have hwr : ∀ {q : WrProxy} {o : Outcome WrProxy}, factory.Fits (.wr q) →
      o.map .wr = .returned c' → factory.Fits c' := by
    intro q o hfit ho
    obtain ⟨r, _, rfl⟩ := Outcome.map_eq_returned.1 ho
    cases factory with
    | wr name => trivial
    | tcp name port => cases hfit
  cases c with
  | tcp q =>
    cases e with
    | tcpTargetConnected sid pid io => exact htcp (x := .connected io) h hr
    | tcpClientData sid pid io => exact htcp (x := .data .clientToTarget io) h hr
    | tcpTargetData sid pid io => exact htcp (x := .data .targetToClient io) h hr
    | _ => exact Outcome.returned.inj hr ▸ h
  | wr q =>
    cases e with
    | wrClientData sid pid io => exact hwr h hr
    | wrTargetData sid pid io => exact hwr h hr
    | _ => exact Outcome.returned.inj hr ▸ h

end ProxyFactory

namespace Daemon

variable {env : Env} {d : Daemon} {e : Event} {es : List Event} {k sid pid : ℕ} {s : Session}
  {p : Proxy} {bs : List BoardSpec} {fs : List ProxyFactory} {sd : Bool}

theorem enabled_of_proxy (he : e.proxy? = some (sid, pid)) :
    d.enabled e = d.proxyReady sid pid fun c => c.ready e := by
  cases e <;> cases he <;> rfl

theorem replays_run (h : Run (HonestNext env) (initial bs fs sd) es d) :
    Recorded (ProxyConn.Replays env) es d := by
  refine guarded_connection_run _ (fun d e => d.honest e = true)
    (fun factory io ip conn => ProxyConn.replays_create) ?_ h
  intro es d e sid pid s p c' hhon hen he hs hp hP hr hcl
  have hready : p.conn.ready e = true := by
    simpa [enabled_of_proxy he, proxyReady, hs, hp] using hen
  have hh : p.conn.honest e = true := by
    simpa [honest, he, hs, hp] using hhon
  exact hP.callback hready hh hr hcl

theorem run_of_honest (h : Run (HonestNext env) (initial bs fs sd) es d) :
    Run (Next env) (initial bs fs sd) es d :=
  h.mono fun _ _ _ hn => hn.1

/-- The connection `pid` of session `k` was accepted on this proxy socket: the session gave
it the next number. -/
def AcceptedOn (env : Env) (start : Daemon) (es : List Event) (k pid listener : ℕ) : Prop :=
  ∃ pre post peer io d s conn, es = pre ++ Event.socketConnecting listener peer io :: post ∧
    Run (Next env) start pre d ∧ d.session k = some s ∧ s.proxyCnt = pid ∧
    d.Next env (.socketConnecting listener peer io) (Session.addProxy d k peer conn)

theorem AcceptedOn.snoc {start : Daemon} {listener : ℕ} (h : AcceptedOn env start es k pid listener)
    (e : Event) : AcceptedOn env start (es ++ [e]) k pid listener := by
  obtain ⟨pre, post, peer, io, d, s, conn, rfl, hacc⟩ := h
  refine ⟨pre, post ++ [e], peer, io, d, s, conn, ?_, hacc⟩
  rw [List.append_assoc, List.cons_append]

def Origin (env : Env) (start : Daemon) (es : List Event) (k : ℕ) (p : Proxy) : Prop :=
  ∃ listener factory, AcceptedOn env start es k p.id listener ∧
    start.proxyListeners[listener]? = some factory ∧ factory.Fits p.conn

theorem Origin.snoc {start : Daemon} (h : Origin env start es k p) (e : Event) :
    Origin env start (es ++ [e]) k p := by
  obtain ⟨listener, factory, hacc, hf, hfit⟩ := h
  exact ⟨listener, factory, hacc.snoc e, hf, hfit⟩

theorem origin_run (h : Run (Next env) (initial bs fs sd) es d) :
    ∀ k s, d.session k = some s → ∀ p ∈ s.proxies, Origin env (initial bs fs sd) es k p := by
  refine h.history (fun es d => ∀ k s, d.session k = some s →
    ∀ p ∈ s.proxies, Origin env (initial bs fs sd) es k p) (fun k s hs => (by cases hs)) ?_
  intro es d e d' hr ih hn k s' hs' p hp
  cases links_of_callback (callback_of_next hn) with
  | kept _ hk =>
    obtain ⟨s, hs, hps, _⟩ := hk.session k s' hs'
    exact (ih k s hs p (hps ▸ hp)).snoc e
  | accepted _ hd =>
    rw [hd, onClientConnecting, session_addSession] at hs'
    cases hs : d.session k with
    | some s =>
      rw [hs, Option.some_or, Option.some.injEq] at hs'
      exact (ih k s hs p (hs' ▸ hp)).snoc e
    | none =>
      rw [hs, Option.none_or] at hs'
      split_ifs at hs'
      rw [← Option.some.inj hs'] at hp
      cases hp
  | @attached sid listener s peer io factory conn he hl hs hcr hd =>
    subst he hd
    rw [Session.addProxy, session_modifySession d sid k _ (by exact fun _ => rfl)] at hs'
    by_cases hk : k = sid
    · subst hk
      rw [if_pos rfl, hs, Option.map_some, Option.some.injEq] at hs'
      subst hs'
      rcases List.mem_append.1 hp with hp | hp
      · exact (ih k s hs p hp).snoc _
      · rw [List.mem_singleton.1 hp]
        refine ⟨listener, factory, ⟨es, [], peer, io, d, s, conn, rfl, hr, hs, rfl, hn⟩, ?_,
          ProxyFactory.fits_create hcr⟩
        have hsame : d.proxyListeners = (initial bs fs sd).proxyListeners :=
          congrArg Prod.fst (listeners_run hr)
        exact hsame ▸ hl
    · rw [if_neg hk] at hs'
      exact (ih k s' hs' p hp).snoc _
  | @proxied sid pid s r conn _ hs hlook hcb hd =>
    subst hd
    rw [session_modifySession d sid k (Session.withProxies _ 0) fun _ => rfl] at hs'
    by_cases hk : k = sid
    · subst hk
      rw [if_pos rfl, hs, Option.map_some, Option.some.injEq] at hs'
      subst hs'
      rcases mem_setProxy hp with ⟨hp, _⟩ | ⟨_, q, hq, hid, rfl⟩
      · exact (ih k s hs p hp).snoc e
      · obtain ⟨listener, factory, hacc, hf, hfit⟩ := ih k s hs r (KeyedList.mem_of_lookup hlook)
        rw [KeyedList.key_of_lookup hlook, ← hid] at hacc
        exact ⟨listener, factory, hacc.snoc e, hf, hfit.callback hcb⟩
    · rw [if_neg hk] at hs'
      exact (ih k s' hs' p hp).snoc e

def BoardAt (env : Env) (d : Daemon) (k : ℕ) (addr : InAddr) : Prop :=
  ∃ i b, d.owner i = some k ∧ d.spec i = some b ∧ env.inetAton (cStr b.ipAddress) = some addr

theorem boardAt_of_routed (h : Run (Next env) (initial bs fs sd) es d) (ho : AtMostOneSetup es)
    (hs : d.session k = some s) (hp : p ∈ s.proxies) {a : SockAddr}
    (ha : p.conn.target = some a) : d.BoardAt env k a.addr := by
  have hc := (orderly_run h ho).settled.coherent
  obtain ⟨x, hx, haddr⟩ := (routed_run h ho k s hs).target p hp a ha
  obtain ⟨b, hb, rfl⟩ := Option.map_eq_some_iff.1 hx
  obtain ⟨i, hi, hspec⟩ := Option.bind_eq_some_iff.1 hb
  exact ⟨i, b, (hc.owner_iff i k).2 ⟨s.tenant, view_tenant hs, hi⟩, hspec, haddr⟩

/-- A TCP connection goes to the port of its socket at the board of its session. In both
directions the bytes it has read are what it has passed on and a buffer that fits. -/
theorem tcp_connection_relayed (h : Run (HonestNext env) (initial bs fs sd) es d)
    (ho : AtMostOneSetup es) (hs : d.session k = some s) (hp : p ∈ s.proxies) {q : TcpProxy}
    (hq : p.conn = .tcp q) :
    (d.BoardAt env k q.target.addr ∧ ∃ listener name,
      AcceptedOn env (initial bs fs sd) es k p.id listener ∧
      fs[listener]? = some (.tcp name q.target.port)) ∧
      ∀ dir, tcpBytes dir (calls k p.id es) = q.output dir ++ q.buffer dir ∧
        (q.buffer dir).length ≤ TcpProxy.capacity := by
  have hrep := (replays_run h).conn k s hs p hp
  rw [hq] at hrep
  obtain ⟨port, io, ip, r, hnew, _, hrun⟩ := hrep
  refine ⟨⟨?_, ?_⟩, fun dir => ?_⟩
  · exact boardAt_of_routed (run_of_honest h) ho hs hp (by rw [hq]; rfl)
  · obtain ⟨listener, factory, hacc, hf, hfit⟩ := origin_run (run_of_honest h) k s hs p hp
    rw [hq] at hfit
    cases factory with
    | wr name => cases hfit
    | tcp name port =>
      have hport : q.target.port = port := hfit
      exact ⟨listener, name, hacc, hport ▸ hf⟩
  · have hempty := (TcpProxy.new_ok hnew).1
    have hrel := TcpProxy.relayed_run (fun d => (hempty d).1) hrun
    refine ⟨?_, hrel.room dir⟩
    rw [tcpBytes, ← hrel.stream, (hempty dir).2, List.nil_append]

theorem tcp_connection_relayed_two_connections :
    let io : ConnectIo := ⟨.ok (), .error inProgress, .ok 0⟩
    let es : List Event := [Sample.accept, Sample.connect 0 7 100, .socketConnecting 0 7 io,
      .socketConnecting 0 7 io, .tcpTargetConnected 0 1 io, .tcpTargetConnected 0 0 io,
      .tcpClientData 0 1 ⟨.ok [9], .ok 1⟩, .tcpClientData 0 0 ⟨.ok [1, 2], .ok 1⟩]
    let q : TcpProxy := ⟨⟨80, 0x0100000a⟩, some .onTargetData, true, [2], [], [1], [], false⟩
    ∃ d s, (Run (HonestNext Sample.env)
        (initial [Sample.board [] []] [.tcp (ascii "web") 80] false) es d ∧
        d.session 0 = some s ∧ ⟨0, 7, .tcp q⟩ ∈ s.proxies) ∧
      d.BoardAt Sample.env 0 0x0100000a ∧ tcpBytes .clientToTarget (calls 0 0 es) = [1] ++ [2] := by
  intro io es q
  obtain ⟨d, hr, hv⟩ : ∃ d, Run (HonestNext Sample.env)
      (initial [Sample.board [] []] [.tcp (ascii "web") 80] false) es d ∧
      (d.session 0).map (fun s => s.proxies.head?) = some (some ⟨0, 7, .tcp q⟩) :=
    exists_guarded_run (fun d : Daemon => (d.session 0).map fun s => s.proxies.head?)
      (by decide +kernel)
  obtain ⟨s, hs, hp⟩ := Option.map_eq_some_iff.1 hv
  have hmem := List.mem_of_head? hp
  obtain ⟨⟨hb, _⟩, hbytes⟩ := tcp_connection_relayed hr (by decide +kernel) hs hmem rfl
  exact ⟨d, s, ⟨hr, hs, hmem⟩, hb, (hbytes .clientToTarget).1⟩

/-- A WindRiver connection that has switched sends its datagrams to the board of its session.
They are the frames that its client has sent behind the switch, in their order. -/
theorem wr_connection_framed (h : Run (HonestNext env) (initial bs fs sd) es d)
    (ho : AtMostOneSetup es) (hs : d.session k = some s) (hp : p ∈ s.proxies) {q : WrProxy}
    (hq : p.conn = .wr q) :
    (q.state = .command → q.sent = []) ∧
      (q.state = .data → (∃ a, q.target = some a ∧ d.BoardAt env k a.addr) ∧
        ∃ pre c post, (calls k p.id es).filterMap Event.wrCall? = pre ++ c :: post ∧
          (∃ t r, WrProxy.SwitchedBy env q pre c post t r) ∧
          post.flatMap WrCall.bytes = q.sent.flatMap frame ++ q.bufC2t ∧
          q.sent <+: Frame.splitter.items (post.flatMap WrCall.bytes)) := by
  have hrep := (replays_run h).conn k s hs p hp
  rw [hq] at hrep
  have hcarries : q.Carries env ((calls k p.id es).filterMap Event.wrCall?) := hrep
  refine ⟨hcarries.command, fun hst => ⟨?_, ?_⟩⟩
  · obtain ⟨a, ha⟩ := Option.ne_none_iff_exists'.1 (hcarries.target hst)
    exact ⟨a, ha, boardAt_of_routed (run_of_honest h) ho hs hp (by rw [hq]; exact ha)⟩
  · obtain ⟨pre, c, post, t, r, hcs, hsw, _, hf⟩ := hcarries.data hst
    exact ⟨pre, c, post, hcs, ⟨t, r, hsw⟩, hf.stream, hf.items⟩

theorem wr_connection_framed_one_frame :
    let es : List Event := [Sample.accept, Sample.connect 0 7 100,
      .socketConnecting 0 7 ⟨.ok (), .ok (), .ok 0⟩,
      .wrClientData 0 0 (Sample.read (ascii "connect type=udpsock;port=7;mode=packet\n")),
      .wrClientData 0 0 (Sample.read [0, 0, 0, 1, 5, 0])]
    let q : WrProxy := ⟨.data, [0], some ⟨7, 0x0100000a⟩, [[5]], [111, 107, 0], false⟩
    ∃ d s, (Run (HonestNext Sample.env)
        (initial [Sample.board [] []] [.wr (ascii "wrproxy")] false) es d ∧
        d.session 0 = some s ∧ ⟨0, 7, .wr q⟩ ∈ s.proxies) ∧
      (∃ a, q.target = some a ∧ d.BoardAt Sample.env 0 a.addr) ∧
        ∃ pre c post, (calls 0 0 es).filterMap Event.wrCall? = pre ++ c :: post ∧
          (∃ t r, WrProxy.SwitchedBy Sample.env q pre c post t r) ∧
          post.flatMap WrCall.bytes = q.sent.flatMap frame ++ q.bufC2t ∧
          q.sent <+: Frame.splitter.items (post.flatMap WrCall.bytes) := by
  intro es q
  obtain ⟨d, hr, hv⟩ : ∃ d, Run (HonestNext Sample.env)
      (initial [Sample.board [] []] [.wr (ascii "wrproxy")] false) es d ∧
      (d.session 0).map (fun s => s.proxies.head?) = some (some ⟨0, 7, .wr q⟩) :=
    exists_guarded_run (fun d : Daemon => (d.session 0).map fun s => s.proxies.head?)
      (by decide +kernel)
  obtain ⟨s, hs, hp⟩ := Option.map_eq_some_iff.1 hv
  have hmem := List.mem_of_head? hp
  exact ⟨d, s, ⟨hr, hs, hmem⟩, (wr_connection_framed hr (by decide +kernel) hs hmem rfl).2 rfl⟩

end Daemon
end BoardProxy
