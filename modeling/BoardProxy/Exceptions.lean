import BoardProxy.ClientSessions
import BoardProxy.ProcessStart
import BoardProxy.ProxyCreation
import BoardProxy.SessionEnd

/-!
# The exceptions that leave a callback

An exception that leaves a callback ends the daemon. With real clients there are four
sources of them: `accept`, the start of a command, a new proxy connection, and the
messages of a WindRiver connection. A write to a client or to a relay whose reader is
gone ends it, too, by `SIGPIPE`. Nothing that the daemon does is undefined.
-/

namespace BoardProxy

open Outcome (throws_returned throws_threw)

def Daemon.AttachFault (env : Env) (io : ConnectIo) (d : Daemon) (f : Fault) : Prop :=
  (f = .runtimeError ∧ ∃ i b, d.spec i = some b ∧ env.inetAton (cStr b.ipAddress) = none) ∨
    ∃ e, f = .systemError e ∧ (io.socket = .error e ∨ io.connect = .error e)

theorem ProxyFactory.create_error {env : Env} {io : ConnectIo} {d : Daemon} {s : Session} {i : ℕ}
    {b : BoardSpec} {factory : ProxyFactory} {f : Fault} (hi : s.board = some i)
    (hb : d.spec i = some b) (h : factory.create env io (d.boardIp s) = .error f) :
    d.AttachFault env io f := by
  have hip : d.boardIp s = some b.ipAddress := by
    rw [Daemon.boardIp, hi, Option.bind_some, hb, Option.map_some]
  cases factory with
  | wr name =>
    cases hs : io.socket with
    | error e =>
      simp only [create, hs, Except.error.injEq] at h
      exact Or.inr ⟨e, h.symm, Or.inl hs⟩
    | ok => simp [create, hs] at h
  | tcp name port =>
    cases hn : TcpProxy.new env io b.ipAddress port with
    | error g =>
      simp only [create, hip, hn, Except.error.injEq] at h
      subst h
      rcases TcpProxy.new_error hn with ⟨hg, ha⟩ | hsys
      · exact Or.inl ⟨hg, i, b, hb, ha⟩
      · exact Or.inr hsys
    | ok p => simp [create, hip, hn] at h

def Event.descriptors : Event → List ℤ
  | .clientData _ (.ok pkt) _ => pkt.fds
  | _ => []

namespace Daemon

variable {env : Env} {sys : Sys} {d d' : Daemon} {e : Event} {sid k i : ℕ} {s : Session}
  {b : BoardSpec}

def WaitsOn (d : Daemon) (fd : ℤ) : Prop :=
  ∃ k ∈ d.waitQueue, ∃ s, d.session k = some s ∧ s.fdErr = fd

/-- Why the callback of a client with the descriptors `own`, or of a child, can end the
daemon: a command cannot be started, or a client that is written to does not read. -/
def LaunchFault (env : Env) (sys : Sys) (d : Daemon) (own : List ℤ) (f : Fault) : Prop :=
  (∃ e, f = .systemError e ∧ sys.fork = .error e) ∨
  (f = .commandSyntax ∧ ∃ i b, d.spec i = some b ∧
    (env.splitUnix b.command = none ∨ env.splitUnix b.closeCommand = none)) ∨
  f = .brokenPipe ∧ ∃ fd, (fd ∈ own ∨ d.WaitsOn fd) ∧ sys.brokenPipe fd = true

variable {own own' : List ℤ}

theorem LaunchFault.congr {f : Fault} (h : LaunchFault env sys d' own' f)
    (hs : ∀ i, d'.spec i = d.spec i)
    (hw : ∀ fd, fd ∈ own' ∨ d'.WaitsOn fd → fd ∈ own ∨ d.WaitsOn fd) :
    LaunchFault env sys d own f := by
  rcases h with h | ⟨hf, i, b, hb, hn⟩ | ⟨hf, fd, hfd, hp⟩
  · exact Or.inl h
  · exact Or.inr (Or.inl ⟨hf, i, b, hs i ▸ hb, hn⟩)
  · exact Or.inr (Or.inr ⟨hf, fd, hw fd hfd, hp⟩)

theorem WaitsOn.congr {fd : ℤ} (h : d'.WaitsOn fd) (hq : ∀ k ∈ d'.waitQueue, k ∈ d.waitQueue)
    (hs : ∀ k s', d'.session k = some s' → ∃ s, d.session k = some s ∧ s.fdErr = s'.fdErr) :
    d.WaitsOn fd := by
  obtain ⟨k, hk, s', hs', rfl⟩ := h
  obtain ⟨s, hs, he⟩ := hs k s' hs'
  exact ⟨k, hq k hk, s, hs, he⟩

theorem exists_of_modifySession {f : Session → Session} {s' : Session}
    (h : (d.modifySession sid f).session k = some s') (hid : ∀ s, (f s).id = s.id)
    (hf : ∀ s, (f s).fdErr = s.fdErr) : ∃ s, d.session k = some s ∧ s.fdErr = s'.fdErr := by
  rw [session_modifySession d sid k f hid] at h
  split_ifs at h with hk
  · obtain ⟨s, hs, rfl⟩ := Option.map_eq_some_iff.1 h
    exact ⟨s, hk ▸ hs, (hf s).symm⟩
  · exact ⟨s', h, rfl⟩

theorem throws_assignBoard (hs : d.session sid = some s) (hb : d.spec i = some b) :
    (Session.assignBoard env sys d sid i).Throws (LaunchFault env sys d [s.fdErr]) := by
  have hs' : ((d.modifySession sid fun s => { s with
      status := .hasBoard
      board := some i
      boardSince := sys.now }).session sid) = some { s with
        status := .hasBoard
        board := some i
        boardSince := sys.now } := by
    simp [hs]
  simp only [Session.assignBoard, deref, hs, hb, dprintf]
  split_ifs with hr
  · exact throws_threw.2 (Or.inr (Or.inr ⟨rfl, s.fdErr, Or.inl List.mem_cons_self, hr⟩))
  simp only [Outcome.returned_bind, Session.startProcess, deref, session_act, session_modifyBoard,
    hs', derefBoard, spec_act, spec_acquire, spec_modifySession, hb]
  cases hc : env.splitUnix b.command with
  | none => exact throws_threw.2 (Or.inr (Or.inl ⟨rfl, i, b, hb, Or.inl hc⟩))
  | some argv =>
    cases hp : sys.fork with
    | error e => exact throws_threw.2 (Or.inl ⟨e, rfl, hp⟩)
    | ok pid => exact throws_returned _

theorem throws_startCloseCommand (hs : d.session sid = some s) (hi : s.board = some i)
    (hb : d.spec i = some b) : (Session.startCloseCommand env sys
      (d.modifySession sid fun s => { s with status := .closingBoard }) sid).Throws
        (LaunchFault env sys d []) := by
  have hs' : (d.modifySession sid fun s => { s with status := .closingBoard }).session sid =
      some { s with status := .closingBoard } := by
    simp [hs]
  simp only [Session.startCloseCommand, deref, hs', derefBoard, hi, spec_modifySession, hb]
  cases hc : env.splitUnix b.closeCommand with
  | none => exact throws_threw.2 (Or.inr (Or.inl ⟨rfl, i, b, hb, Or.inr hc⟩))
  | some argv =>
    cases hp : sys.fork with
    | error e => exact throws_threw.2 (Or.inl ⟨e, rfl, hp⟩)
    | ok pid => exact throws_returned _

theorem WaitsOn.of_departed {fd : ℤ} (hs : d.session sid = some s)
    (h : (d.departed sid).WaitsOn fd) : d.WaitsOn fd := by
  refine h.congr (fun k hk => ?_) fun k s' hs' => ?_
  · rw [(departed_fields hs).1] at hk
    exact (List.mem_filter.1 hk).1
  · rw [departed_session] at hs'
    split_ifs at hs'
    exact ⟨s', hs', rfl⟩

theorem throws_daemonCloseSession (h : Sound (some sid) d) (hs : d.session sid = some s) :
    (Daemon.closeSession env sys d sid).Throws (LaunchFault env sys d []) := by
  obtain ⟨r, hr⟩ := findWaiting_ok (h.departed hs).queued
  cases r with
  | none =>
    change ((serveWaiting env sys (d.departed sid)).map exitIfIdle).Throws _
    rw [serveWaiting, hr]
    exact throws_returned _
  | some vi =>
    obtain ⟨v, i⟩ := vi
    obtain ⟨pre, post, t, hq, ht, hav, _⟩ := findWaiting_some hr
    obtain ⟨_, b, hb, _⟩ := findAvailableBoard_some hav
    rw [closeSession_of_waiting hr]
    refine (throws_assignBoard (d := (d.departed sid).dequeue v) ht hb).map.mono
      fun f hf => hf.congr (fun _ => departed_spec) fun fd hfd => Or.inr ?_
    rcases hfd with hfd | hfd
    · have hv : v ∈ (d.departed sid).waitQueue := hq ▸ List.mem_append_right _ List.mem_cons_self
      exact WaitsOn.of_departed hs ⟨v, hv, t, ht, (List.mem_singleton.1 hfd).symm⟩
    · refine WaitsOn.of_departed hs (hfd.congr (fun k hk => ?_) fun k s' hs' => ⟨s', hs', rfl⟩)
      exact (List.mem_filter.1 hk).1

theorem throws_closeSession (h : Sound (some sid) d) (hs : d.session sid = some s) :
    (Session.closeSession env sys d sid).Throws (LaunchFault env sys d []) := by
  by_cases hst : s.status = .hasBoard
  · obtain ⟨i, b, hi, hb⟩ := h.board sid s hs hst
    cases hc : s.childWatcher with
    | some c =>
      have hkill : Session.closeSession env sys d sid = .returned (d.act [.kill sid c.pid]) := by
        simp [Session.closeSession, hs, hst, hc]
      rw [hkill]
      exact throws_returned _
    | none =>
      by_cases hcc : b.closeCommand = []
      · have hleave : Session.closeSession env sys d sid = Daemon.closeSession env sys d sid := by
          simp [Session.closeSession, hs, hst, hc, derefBoard, hi, hb, hcc]
        rw [hleave]
        exact throws_daemonCloseSession h hs
      · rw [closeSession_of_closeCommand hs hst hc hi hb hcc]
        exact throws_startCloseCommand hs hi hb
  · rw [closeSession_of_ne hs hst]
    exact throws_daemonCloseSession h hs

theorem throws_onConnect {noWait : Bool} (h : Sound none d) (hs : d.session sid = some s) :
    (Session.onConnect env sys d sid noWait).Throws (LaunchFault env sys d [s.fdErr]) := by
  cases hf : d.findAvailableBoard s.getUsername with
  | some i =>
    obtain ⟨_, b, hb, _⟩ := findAvailableBoard_some hf
    have hsa := setAwaiting_session_self hs
    rw [onConnect_of_available noWait hs hf]
    refine (throws_assignBoard (d := d.setAwaiting sid) hsa hb).mono
      fun f hf => hf.congr (fun _ => rfl) fun fd hfd => hfd.imp_right fun hw => ?_
    exact hw.congr (fun _ => id) fun k s' hs' =>
      exists_of_modifySession hs' (fun _ => rfl) fun _ => rfl
  | none =>
    rw [onConnect_of_none noWait hs hf]
    split_ifs with hp
    · exact throws_threw.2 (Or.inr (Or.inr ⟨rfl, s.fdErr, Or.inl List.mem_cons_self, hp⟩))
    · refine (throws_daemonCloseSession (((h.enqueue hs).act _).weaken _)
        (enqueue_session_self hs)).mono fun f hf => hf.congr (fun _ => rfl) fun fd hfd => ?_
      -- the session waits itself now, and is not told a second time
      obtain ⟨k, hk, s', hs', rfl⟩ := hfd.resolve_left List.not_mem_nil
      obtain ⟨t, ht, he⟩ := exists_of_modifySession hs' (fun _ => rfl) fun _ => rfl
      rcases List.mem_append.1 hk with hk | hk
      · exact Or.inr ⟨k, hk, t, ht, he⟩
      · obtain rfl := List.mem_singleton.1 hk
        obtain rfl := Option.some.inj (hs.symm.trans ht)
        exact Or.inl (List.mem_singleton.2 he.symm)
    · exact throws_returned _

theorem introduce_waitsOn {pkt : Packet} {r : Proto.Request} {fd : ℤ} (hs : d.session sid = some s)
    (h : (d.introduce sid pkt r).WaitsOn fd) :
    fd = (s.introduced pkt r).fdErr ∨ d.WaitsOn fd := by
  obtain ⟨k, hk, s', hs', rfl⟩ := h
  by_cases he : k = sid
  · subst he
    rw [session_introduce_self pkt r hs, Option.some.injEq] at hs'
    exact Or.inl (by rw [← hs']; rfl)
  · rw [session_introduce, if_neg he] at hs'
    exact Or.inr ⟨k, hk, s', hs', rfl⟩

theorem throws_clientData {recv : Except Errno Packet} (h : Sound none d)
    (hs : d.session sid = some s)
    (hg : ∀ x, (Event.clientData sid recv sys).setup? = some x →
      ∃ (args : ClientArgs) (v : Delivery), x.2 = args.setup v) :
    (Session.onDataFromClient env sys d sid recv).Throws
      (LaunchFault env sys d (Event.clientData sid recv sys).descriptors) := by
  by_cases hend : recvEnds recv = true
  · rw [onDataFromClient_hangUp hend]
    have hh : Sound none ((d.act (recvFds sid recv)).modifySession sid Session.hungUp) :=
      (h.act _).quiet (fun _ => rfl) fun _ => ⟨rfl, rfl, rfl⟩
    refine (throws_closeSession (hh.weaken _)
      (session_hangUp_self (recvFds sid recv) hs)).mono
        fun f hf => hf.congr (fun _ => rfl) fun fd hfd => Or.inr ?_
    exact (hfd.resolve_left List.not_mem_nil).congr (fun _ => id) fun k s' hs' =>
      exists_of_modifySession (d := d.act _) hs' (fun _ => rfl) fun _ => rfl
  cases recv with
  | error e => exact absurd rfl hend
  | ok pkt =>
    rcases Event.setup_cases sid pkt sys with hset | hset
    · rw [onDataFromClient_packet hs fun hd => hend (decide_eq_true hd), hset]
      exact throws_returned _
    · obtain ⟨args, v, hav⟩ := hg _ hset
      obtain rfl : pkt = args.setup v := hav
      rw [onDataFromClient_request hs hset (List.cons_ne_nil _ _) (args.readSetup_setup v _)]
      have hi := h.introduce sid (args.setup v) args.request
      have hsi := session_introduce_self (args.setup v) args.request hs
      have hmem : ∀ fd, fd = (s.introduced (args.setup v) args.request).fdErr →
          fd ∈ (args.setup v).fds := by
        rintro _ rfl
        exact List.mem_of_getElem? (i := 2) rfl
      have hw : ∀ fd, fd ∈ [(s.introduced (args.setup v) args.request).fdErr] ∨
          (d.introduce sid (args.setup v) args.request).WaitsOn fd →
          fd ∈ (args.setup v).fds ∨ d.WaitsOn fd := by
        rintro fd (hfd | hfd)
        · exact Or.inl (hmem fd (List.mem_singleton.1 hfd))
        · exact (introduce_waitsOn hs hfd).imp_left (hmem fd)
      split_ifs
      · exact (throws_onConnect hi hsi).mono fun f hf => hf.congr (fun _ => rfl) hw
      · refine Outcome.Throws.bind ?_ fun d₁ h₁ => ?_
        · unfold printStatus
          split_ifs with hp
          · refine throws_threw.2 (Or.inr (Or.inr ⟨rfl, _, Or.inl ?_, hp.2⟩))
            exact List.mem_of_getElem? (i := 1) rfl
          · exact throws_returned _
        · obtain rfl := printStatus_returned h₁
          exact (throws_closeSession ((hi.act _).weaken _) hsi).mono fun f hf =>
            hf.congr (fun _ => rfl) fun fd hfd => hw fd (Or.inr (hfd.resolve_left List.not_mem_nil))
      · exact throws_returned _

theorem throws_onChild {pid : Pid} (h : Sound none d) :
    (onChild env sys d pid).Throws (LaunchFault env sys d []) := by
  unfold onChild
  split
  · exact throws_returned _
  · rename_i s hf
    have hs := h.session_of_mem (List.mem_of_find?_eq_some hf)
    have hss : (Session.stopChildWatcher d s.id).session s.id =
        some { s with childWatcher := none } := by
      rw [session_stopChildWatcher, if_pos rfl, hs, Option.map_some]
    have hclose : (Session.closeSession env sys (Session.stopChildWatcher d s.id) s.id).Throws
        (LaunchFault env sys d []) := by
      refine (throws_closeSession (h.stop s.id) hss).mono fun f hf =>
        hf.congr (fun _ => rfl) fun fd hfd => hfd.imp_right fun hw => ?_
      exact hw.congr (fun _ => id) fun k s' hs' =>
        exists_of_modifySession hs' (fun _ => rfl) fun _ => rfl
    split
    · exact throws_returned _
    · split
      · exact hclose
      · exact hclose

theorem throws_onSocketConnecting {io : ConnectIo} {listener : ℕ} {peer : Pid} (h : Sound none d)
    (hl : listener < d.proxyListeners.length) :
    (onSocketConnecting env io d listener peer).Throws (d.AttachFault env io) := by
  rw [onSocketConnecting, List.getElem?_eq_getElem hl]
  dsimp only
  split
  · rename_i s hf
    have hs := h.session_of_mem (List.mem_of_find?_eq_some hf)
    simp only [Session.newSocketConnection, deref, hs]
    split_ifs with hst
    · exact throws_returned _
    · obtain ⟨i, b, hi, hb⟩ := h.board s.id s hs (not_not.1 hst)
      split
      · rename_i f hc
        exact throws_threw.2 (ProxyFactory.create_error hi hb hc)
      · exact throws_returned _
  · exact throws_returned _

theorem throws_runProxy {pid : ℕ} {ready : ProxyConn → Bool} {P : Fault → Prop}
    {run : Session → ProxyConn → Outcome ProxyConn} (hr : d.proxyReady sid pid ready = true)
    (hrun : ∀ s c, (run s c).Throws P) : (Session.runProxy d sid pid run).Throws P := by
  simp only [proxyReady, Option.any_eq_true] at hr
  obtain ⟨s, hs, p, hp, _⟩ := hr
  simp only [Session.runProxy, deref, hs, hp]
  exact (hrun s p.conn).map

/-- Why a callback can fail to return. -/
def MayThrow (env : Env) (d : Daemon) : Event → Fault → Prop
  | .acceptFailed errno, f => f = .systemError errno
  | .clientData sid recv sys, f =>
    d.LaunchFault env sys (Event.clientData sid recv sys).descriptors f
  | .childReaped _ sys, f => d.LaunchFault env sys [] f
  | .socketConnecting _ _ io, f => d.AttachFault env io f
  | .wrClientData _ _ io, f => WrProxy.ReplyFault io f
  | .wrTargetData _ _ io, f =>
    f = .brokenPipe ∧ (isBrokenPipe io.writeLen = true ∨ isBrokenPipe io.writeData = true)
  | .tcpClientData _ _ io, f | .tcpTargetData _ _ io, f =>
    f = .brokenPipe ∧ isBrokenPipe io.send = true
  | _, _ => False

theorem throws_step (h : Sound none d) (hen : d.enabled e = true)
    (hg : ∀ x, e.setup? = some x → ∃ (args : ClientArgs) (v : Delivery), x.2 = args.setup v) :
    (d.step env e).Throws (d.MayThrow env e) := by
  cases e with
  | clientConnecting cred ppid buffer now => exact throws_returned _
  | acceptFailed errno => exact throws_threw.2 rfl
  | clientData sid recv sys =>
    simp only [enabled, Bool.and_eq_true, Option.any_eq_true] at hen
    obtain ⟨⟨s, hs, _⟩, _⟩ := hen
    exact throws_clientData h hs hg
  | processExits pid => exact throws_returned _
  | childReaped pid sys =>
    have hm : Sound none (d.moveProcess pid .zombie .reaped) :=
      h.of_sessions rfl rfl (List.Subset.refl _) fun _ => rfl
    exact (throws_onChild hm).mono fun f hf => hf.congr (fun _ => rfl) fun fd hfd => hfd
  | socketConnecting listener peer io => exact throws_onSocketConnecting h (of_decide_eq_true hen)
  | wrClientData sid pid io =>
    refine throws_runProxy hen fun s c => ?_
    cases c with
    | wr p => exact WrProxy.throws_onClientData.map
    | tcp p => exact throws_returned _
  | wrTargetData sid pid io =>
    refine throws_runProxy hen fun s c => ?_
    cases c with
    | wr p => exact WrProxy.throws_onTargetData.map
    | tcp p => exact throws_returned _
  | tcpTargetConnected sid pid io =>
    refine throws_runProxy hen fun s c => ?_
    cases c with
    | wr p => exact throws_returned _
    | tcp p => exact TcpProxy.throws_onTargetConnected.map
  | tcpClientData sid pid io =>
    refine throws_runProxy hen fun s c => ?_
    cases c with
    | wr p => exact throws_returned _
    | tcp p => exact TcpProxy.throws_onData.map
  | tcpTargetData sid pid io =>
    refine throws_runProxy hen fun s c => ?_
    cases c with
    | wr p => exact throws_returned _
    | tcp p => exact TcpProxy.throws_onData.map
  | signal => exact throws_returned _

end Daemon

namespace Installation

variable {env : Env} {w : Installation} {m : Move} {ms : List Move} {e : Event} {f : Fault}
  {bs : List BoardSpec} {fs : List ProxyFactory} {sd : Bool}

end Installation
end BoardProxy
