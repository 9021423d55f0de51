import BoardProxy.ConnectionHistory
import BoardProxy.SessionHistory
import BoardProxy.WaitQueue

/-!
# Connections to the proxy sockets

A proxy is made for the first session whose parent process is the peer of the
connection. It talks to the board of that session only: the target address is
that of the board when the connection is made, and again when a later command
of the client asks for a connection. The session keeps the board until it ends,
and its proxies end with it.
-/

namespace BoardProxy

/-- The address `new` is `old` or that of the board at `ip`. -/
def Aimed (env : Env) (ip : Option Bytes) (old new : Option SockAddr) : Prop :=
  new = old ∨ ∃ x a, ip = some x ∧ env.inetAton (cStr x) = some a.addr ∧ new = some a

namespace WrProxy

variable {env : Env} {io : WrClientIo} {ip : Option Bytes} {p q : WrProxy} {fmt : Bytes}
  {args : List Bytes}

@[simp] theorem target_wrote (p : WrProxy) (data : Bytes) (r : Except Errno ℕ) :
    (p.wrote data r).target = p.target := by
  cases r <;> rfl

theorem target_fail (h : p.fail io fmt args = .returned q) : q.target = p.target := by
  unfold fail at h
  cases hf : format fmt args with
  | none => simp [hf] at h
  | some msg =>
    cases hr : format (ascii "error wrproxy: \x7b\x7d") [msg] with
    | none => simp [hf, hr] at h
    | some resp =>
      simp only [hf, hr] at h
      obtain ⟨p', hw, h⟩ := Outcome.bind_eq_returned.1 h
      rw [SocketProxy.fail_returned h, (writeClient_returned.1 hw).2]
      exact target_wrote p _ _

theorem target_handleConnect {cmd : InputStream} (h : p.handleConnect env io ip cmd = .returned q) :
    Aimed env ip p.target q.target := by
  unfold handleConnect at h
  cases hp : parseParams (cmd.rest.length + 1) cmd ⟨[], [], [], []⟩ with
  | error x =>
    simp only [hp] at h
    exact Or.inl (target_fail h)
  | ok c =>
    simp only [hp] at h
    by_cases hc : c.type = ascii "udpsock" ∧ c.mode = ascii "packet"
    · rw [if_pos hc] at h
      cases hv : stoi c.port with
      | none =>
        simp only [hv] at h
        exact Or.inl (target_fail h)
      | some v =>
        cases ip with
        | none =>
          simp only [hv] at h
          exact Or.inl (target_fail h)
        | some x =>
          cases ha : env.inetAton (cStr x) with
          | none =>
            simp only [hv, ha] at h
            exact Or.inl (target_fail h)
          | some addr =>
            cases hcon : io.connect with
            | error e =>
              simp only [hv, ha, hcon] at h
              exact Or.inl (target_fail h)
            | ok u =>
              refine Or.inr ⟨x, ⟨(v % 65536).toNat, addr⟩, rfl, ha, ?_⟩
              cases hw : io.writeOk with
              | error e =>
                simp only [hv, ha, hcon, hw] at h
                split_ifs at h
                exact target_fail h
              | ok n =>
                simp only [hv, ha, hcon, hw, Outcome.returned.injEq] at h
                rw [← h]
                rfl
    · rw [if_neg hc] at h
      exact Or.inl (target_fail h)

theorem target_parseCommand (h : p.parseCommand env io ip = .returned q) :
    Aimed env ip p.target q.target := by
  unfold parseCommand at h
  by_cases ht : ∀ b ∈ p.bufC2t, isTerminator b = false
  · rw [if_pos ht, Outcome.returned.injEq] at h
    exact Or.inl (h ▸ rfl)
  · rw [if_neg ht] at h
    simp only at h
    split at h
    · exact target_handleConnect h
    · split at h
      · cases h
      · exact Or.inl (target_fail h)

theorem target_forwardFrame : (p.forwardFrame io).target = p.target := by
  unfold forwardFrame
  split
  · dsimp only
    split_ifs
    · rfl
    · split <;> rfl
  · rfl

theorem target_onClientData (h : p.onClientData env io ip = .returned q) :
    Aimed env ip p.target q.target := by
  unfold onClientData at h
  cases hr : io.read with
  | error e =>
    simp only [hr, Outcome.returned.injEq] at h
    exact Or.inl (h ▸ rfl)
  | ok bytes =>
    simp only [hr] at h
    split at h
    · rw [Outcome.returned.injEq] at h
      exact Or.inl (h ▸ rfl)
    · cases hs : p.state with
      | command =>
        simp only [hs] at h
        have ht := target_parseCommand h
        exact ht
      | data =>
        simp only [hs, Outcome.returned.injEq] at h
        rw [← h]
        exact Or.inl target_forwardFrame

theorem target_onTargetData {io : WrTargetIo} (h : p.onTargetData io = .returned q) :
    q.target = p.target := by
  unfold onTargetData at h
  cases hr : io.read with
  | error e =>
    simp only [hr, Outcome.returned.injEq] at h
    exact h ▸ rfl
  | ok bytes =>
    simp only [hr] at h
    split at h
    · rw [Outcome.returned.injEq] at h
      exact h ▸ rfl
    · obtain ⟨p', hl, h⟩ := Outcome.bind_eq_returned.1 h
      obtain ⟨_, rfl⟩ := writeClient_returned.1 hl
      cases hw : io.writeData with
      | error e =>
        simp only [hw] at h
        split_ifs at h
        rw [← Outcome.returned.inj h]
        exact target_wrote p _ _
      | ok n =>
        simp only [hw, Outcome.returned.injEq] at h
        rw [← h, target_wrote, target_wrote]

end WrProxy

namespace TcpProxy

variable {env : Env} {p q : TcpProxy}

theorem target_onTargetConnected {io : ConnectIo} (h : p.onTargetConnected env io = .returned q) :
    q.target = p.target := by
  unfold onTargetConnected at h
  cases hg : io.getsockopt with
  | error e =>
    simp only [hg] at h
    rw [SocketProxy.fail_returned h]
    rfl
  | ok soErr =>
    simp only [hg] at h
    split_ifs at h
    · rw [SocketProxy.fail_returned h]
      rfl
    · rw [← Outcome.returned.inj h]

theorem target_new {io : ConnectIo} {ip : Bytes} {port : ℕ} (h : new env io ip port = .ok p) :
    env.inetAton (cStr ip) = some p.target.addr := by
  unfold new at h
  cases ha : env.inetAton (cStr ip) with
  | none => simp [ha] at h
  | some addr =>
    cases hs : io.socket with
    | error e => simp [ha, hs] at h
    | ok u =>
      cases hc : io.connect with
      | error e =>
        simp only [ha, hs, hc] at h
        split_ifs at h
        rw [← Except.ok.inj h]
      | ok u =>
        simp only [ha, hs, hc] at h
        split at h
        · cases h
        · rename_i q hq
          rw [← Except.ok.inj h]
          exact congrArg (some ·.addr) (target_onTargetConnected hq).symm

theorem target_onData {io : RelayIo} {dir : Direction} (h : p.onData env io dir = .returned q) :
    q.target = p.target := by
  have hset : ∀ buf, (p.setBuffer buf dir).target = p.target := fun buf => by cases dir <;> rfl
  have hacc : ∀ (r : TcpProxy) data, (r.accepted data dir).target = r.target := fun r data => by
    cases dir <;> rfl
  unfold onData at h
  cases hr : io.read with
  | error e =>
    simp only [hr] at h
    rw [SocketProxy.fail_returned h]
    rfl
  | ok bytes =>
    simp only [hr] at h
    split_ifs at h
    · rw [← Outcome.returned.inj h]
      rfl
    · cases hs : io.send with
      | error e =>
        simp only [hs] at h
        split_ifs at h
        rw [SocketProxy.fail_returned h]
        exact hset _
      | ok n =>
        simp only [hs] at h
        rw [← Outcome.returned.inj h, hacc, hset]

end TcpProxy

namespace ProxyConn

variable {env : Env} {ip : Option Bytes} {c c' : ProxyConn}

theorem target_create {io : ConnectIo} {factory : ProxyFactory}
    (h : factory.create env io ip = .ok c) : Aimed env ip none c.target := by
  cases factory with
  | wr name =>
    simp only [ProxyFactory.create] at h
    split at h
    · cases h
    · rw [← Except.ok.inj h]
      exact Or.inl rfl
  | tcp name port =>
    simp only [ProxyFactory.create] at h
    split at h
    · cases h
    · rename_i x
      split at h
      · cases h
      · rename_i p hp
        rw [← Except.ok.inj h]
        exact Or.inr ⟨x, p.target, rfl, TcpProxy.target_new hp, rfl⟩

theorem target_callback {e : Event} (h : c.callback env ip e = .returned c') :
    Aimed env ip c.target c'.target := by
  have hkeep : ∀ {c'}, Outcome.returned c = .returned c' → Aimed env ip c.target c'.target :=
    fun h => Or.inl (congrArg target (Outcome.returned.inj h).symm)
  have hwr : ∀ {o : Outcome WrProxy} {p : WrProxy}, o.map .wr = .returned c' →
      (∀ q, o = .returned q → Aimed env ip p.target q.target) →
      Aimed env ip (ProxyConn.wr p).target c'.target := by
    intro o p ho hq
    obtain ⟨q, hq', rfl⟩ := Outcome.map_eq_returned.1 ho
    exact hq q hq'
  have htcp : ∀ {o : Outcome TcpProxy} {p : TcpProxy}, o.map .tcp = .returned c' →
      (∀ q, o = .returned q → q.target = p.target) →
      Aimed env ip (ProxyConn.tcp p).target c'.target := by
    intro o p ho hq
    obtain ⟨q, hq', rfl⟩ := Outcome.map_eq_returned.1 ho
    exact Or.inl (congrArg some (hq q hq'))
  cases e with
  | wrClientData sid pid io =>
    cases c with
    | wr p => exact hwr h fun q => WrProxy.target_onClientData
    | tcp p => exact hkeep h
  | wrTargetData sid pid io =>
    cases c with
    | wr p => exact hwr h fun q hq => Or.inl (WrProxy.target_onTargetData hq)
    | tcp p => exact hkeep h
  | tcpTargetConnected sid pid io =>
    cases c with
    | wr p => exact hkeep h
    | tcp p => exact htcp h fun q => TcpProxy.target_onTargetConnected
  | tcpClientData sid pid io =>
    cases c with
    | wr p => exact hkeep h
    | tcp p => exact htcp h fun q => TcpProxy.target_onData
  | tcpTargetData sid pid io =>
    cases c with
    | wr p => exact hkeep h
    | tcp p => exact htcp h fun q => TcpProxy.target_onData
  | clientConnecting => exact hkeep h
  | acceptFailed => exact hkeep h
  | clientData => exact hkeep h
  | processExits => exact hkeep h
  | childReaped => exact hkeep h
  | socketConnecting => exact hkeep h
  | signal => exact hkeep h

end ProxyConn

theorem Aimed.board {env : Env} {ip : Option Bytes} {old new : Option SockAddr} {a : SockAddr}
    (h : Aimed env ip old new) (hnew : new = some a)
    (hold : ∀ a, old = some a → ∃ x, ip = some x ∧ env.inetAton (cStr x) = some a.addr) :
    ∃ x, ip = some x ∧ env.inetAton (cStr x) = some a.addr := by
  rcases h with rfl | ⟨x, b, hx, hb, rfl⟩
  · exact hold a hnew
  · rw [Option.some.injEq] at hnew
    exact ⟨x, hx, hnew ▸ hb⟩

namespace Session

structure Routed (env : Env) (ip : Option Bytes) (s : Session) : Prop where
  tenant : s.proxies ≠ [] → s.status = .hasBoard ∨ s.status = .closingBoard
  peer : ∀ p ∈ s.proxies, p.peer = s.ppid
  target : ∀ p ∈ s.proxies, ∀ a, p.conn.target = some a →
    ∃ x, ip = some x ∧ env.inetAton (cStr x) = some a.addr

variable {env : Env} {d d' : Daemon} {e : Event} {s s' : Session} {ip : Option Bytes}

theorem routed_nil (h : s.proxies = []) : s.Routed env ip :=
  ⟨fun hn => absurd h hn, fun p hp => (by rw [h] at hp; cases hp),
    fun p hp => (by rw [h] at hp; cases hp)⟩

theorem Routed.nil (h : s.Routed env ip) (hb : s.status ≠ .hasBoard)
    (hc : s.status ≠ .closingBoard) : s.proxies = [] := by
  by_contra hn
  rcases h.tenant hn with hst | hst
  · exact hb hst
  · exact hc hst

theorem Routed.alike (h : s.Routed env ip) (ha : s.Alike s')
    (hst : s.status = .hasBoard ∨ s.status = .closingBoard →
      s'.status = .hasBoard ∨ s'.status = .closingBoard) : s'.Routed env ip := by
  refine ⟨fun hn => hst (h.tenant (ha.proxies ▸ hn)), ?_, ?_⟩
  · intro p hp
    rw [ha.ppid]
    exact h.peer p (ha.proxies ▸ hp)
  · intro p hp
    exact h.target p (ha.proxies ▸ hp)

theorem Routed.changes (h : s.Routed env (d.boardIp s)) (hspec : d'.spec = d.spec)
    (hnew : e.IsSetupFor s.id → s.status = .created) (hc : s.Changes env d e s') :
    s'.Routed env (d'.boardIp s') := by
  have hip : s'.board = s.board → d'.boardIp s' = d.boardIp s := by
    intro hb
    rw [Daemon.boardIp, Daemon.boardIp, hb, hspec]
  cases hc with
  | kept ha hst hb =>
    rw [hip hb]
    exact h.alike ha fun hs => hst ▸ hs
  | setUp hreq _ _ hp =>
    have hst := hnew (Daemon.isSetupFor_of_request hreq)
    exact routed_nil (hp.trans (h.nil (by rw [hst]; decide) (by rw [hst]; decide)))
  | served ha hst => exact routed_nil (ha.proxies.trans (h.nil (by rw [hst]; decide)
      (by rw [hst]; decide)))
  | closing ha _ hst hb =>
    rw [hip hb]
    exact h.alike ha fun _ => Or.inr hst
  | @attached factory io conn hst hcr he =>
    subst he
    rw [hip rfl]
    refine ⟨fun _ => Or.inl hst, ?_, ?_⟩
    · intro p hp
      rcases List.mem_append.1 hp with hp | hp
      · exact h.peer p hp
      · rw [List.mem_singleton.1 hp]
        rfl
    · intro p hp a ha
      rcases List.mem_append.1 hp with hp | hp
      · exact h.target p hp a ha
      · rw [List.mem_singleton.1 hp] at ha
        exact (ProxyConn.target_create hcr).board ha fun b hb => (by cases hb)
  | @proxied pid p conn hp hr he =>
    subst he
    rw [hip rfl]
    have hmem := KeyedList.mem_of_lookup hp
    refine ⟨fun _ => h.tenant (List.ne_nil_of_mem hmem), ?_, ?_⟩
    · intro q hq
      rcases Daemon.mem_setProxy hq with ⟨hq, _⟩ | ⟨_, r, hrm, _, rfl⟩
      · exact h.peer q hq
      · exact h.peer r hrm
    · intro q hq a ha
      rcases Daemon.mem_setProxy hq with ⟨hq, _⟩ | ⟨_, r, _, _, rfl⟩
      · exact h.target q hq a ha
      · exact (ProxyConn.target_callback hr).board ha (h.target p hmem)

end Session

namespace Daemon

variable {env : Env} {d d' : Daemon} {e : Event} {es : List Event} {k i : ℕ} {s : Session}
  {bs : List BoardSpec} {fs : List ProxyFactory} {sd : Bool}

theorem spec_of_next (h : Orderly es d) (ho : AtMostOneSetup (es ++ [e])) (hn : d.Next env e d') :
    d'.spec = d.spec := by
  exact invariant_path (P := fun v => v.spec = d.spec) h.settled.coherent rfl
    (fun _ _ _ hu hs => hs.spec_eq.trans hu) (h.anyPath ho hn)

theorem routed_run (h : Run (Next env) (initial bs fs sd) es d) (ho : AtMostOneSetup es) :
    ∀ k s, d.session k = some s → s.Routed env (d.boardIp s) := by
  refine h.history (fun es d => AtMostOneSetup es →
    ∀ k s, d.session k = some s → s.Routed env (d.boardIp s)) ?_ ?_ ho
  · exact fun _ k s hs => (by cases hs)
  · intro es d e d' hr ih hn ho k s' hs'
    have hor := orderly_run hr ho.of_append
    rcases session_of_callback hor.settled (callback_of_next hn) hs' with ⟨_, _, hp⟩ | ⟨s, hs, hc⟩
    · exact Session.routed_nil hp
    · refine (ih ho.of_append k s hs).changes (spec_of_next hor ho hn) (fun he => ?_) hc
      rw [id_of_session d k hs] at he
      exact hor.created ho he hs

/-- Every proxy belongs to a session that holds a board, was made for a child of the
session's parent, and talks to that board; it ends with the session, which is gone
once the board is released. -/
theorem once_run_routed (h : Run (Next env) (initial bs fs sd) es d) (ho : AtMostOneSetup es) :
    (∀ s ∈ d.sessions, ∀ p ∈ s.proxies, (s.status = .hasBoard ∨ s.status = .closingBoard) ∧
      p.peer = s.ppid ∧ ∃ i b, s.board = some i ∧ d.owner i = some s.id ∧ d.spec i = some b ∧
        ∀ a, p.conn.target = some a → env.inetAton (cStr b.ipAddress) = some a.addr) ∧
    (∀ e d', d.Next env e d' → AtMostOneSetup (es ++ [e]) → ∀ i k, d.owner i = some k →
      d'.owner i ≠ some k → ∀ s ∈ d'.sessions, s.id ≠ k) := by
  have hor := orderly_run h ho
  have hc := hor.settled.coherent
  refine ⟨?_, ?_⟩
  · intro s hs p hp
    have hss := hor.settled.session_of_mem hs
    have hr := routed_run h ho s.id s hss
    have hst := hr.tenant (List.ne_nil_of_mem hp)
    refine ⟨hst, hr.peer p hp, ?_⟩
    obtain ⟨i, hb⟩ : ∃ i, s.board = some i := by
      refine Option.ne_none_iff_exists'.1 fun hn => ?_
      rcases (hc.board_none s.id s.tenant (view_tenant hss)).1 hn with hn | hn
      · rw [show s.status = _ from hn] at hst
        simp at hst
      · rw [show s.status = _ from hn] at hst
        simp at hst
    have hown : d.owner i = some s.id := (hc.owner_iff i s.id).2 ⟨s.tenant, view_tenant hss, hb⟩
    have hi := lt_of_owner d s.id i hown
    refine ⟨i, d.boards[i].toBoardSpec, hb, hown, ?_, ?_⟩
    · rw [spec, List.getElem?_eq_getElem hi, Option.map_some]
    · intro a ha
      obtain ⟨x, hx, hxa⟩ := hr.target p hp a ha
      rw [boardIp, hb, Option.bind_some, spec, List.getElem?_eq_getElem hi, Option.map_some,
        Option.map_some, Option.some.injEq] at hx
      rw [hx]
      exact hxa
  · intro e d' hn ho' i k hown hrel s hs hid
    have hgone := gone_of_released hor ho' hn hown hrel
    have hss := (hor.step ho' hn).settled.session_of_mem hs
    rw [hid, hgone] at hss
    cases hss

/-- The client names another target, and the proxy still connects to the board. -/
theorem once_run_routed_other_target : ∃ d,
    (Run (Next Sample.env) (initial [Sample.board [] []] [.wr (ascii "wrproxy")] false)
      [Sample.accept, Sample.connect 0 7 100, .socketConnecting 0 7 ⟨.ok (), .ok (), .ok 0⟩,
        .wrClientData 0 0 ⟨.ok (ascii "connect type=udpsock;tgt=1.2.3.4;port=17185;mode=packet\n"),
          .ok (), .ok (), .ok 3, .ok 0⟩] d ∧
      (d.sessions.flatMap Session.proxies).map (fun p => (p.peer, p.conn.target)) =
        [(7, some ⟨17185, 0x0100000a⟩)]) ∧
    ∀ s ∈ d.sessions, ∀ p ∈ s.proxies, (s.status = .hasBoard ∨ s.status = .closingBoard) ∧
      p.peer = s.ppid ∧ ∃ i b, s.board = some i ∧ d.owner i = some s.id ∧ d.spec i = some b ∧
        ∀ a, p.conn.target = some a → Sample.env.inetAton (cStr b.ipAddress) = some a.addr :=
  Exists.imp (fun _ hr => ⟨hr, (once_run_routed hr.1 (by decide +kernel)).1⟩)
    (exists_run (fun d : Daemon =>
      (d.sessions.flatMap Session.proxies).map fun p => (p.peer, p.conn.target))
        (by decide +kernel))

end Daemon
end BoardProxy
