import BoardProxy.ConnectionHistory
import BoardProxy.EveryRun
import BoardProxy.ProxyFaults

/-!
# The end of a session

A method faults with `useAfterFree` where it goes on with a session that
`Daemon::close_session` has destroyed. In every run there is one way to get there: a
setup message without descriptors asks for the end of its session twice. This does no
harm only while the first request does not destroy the session, that is, while it has
a board. The trace tells how often `Daemon::close_session` has run for a session.
-/

namespace BoardProxy

namespace Outcome

variable {α β : Type*} {o : Outcome α}

def Clean (o : Outcome α) : Prop := o.fault? ≠ some .useAfterFree

@[simp] theorem clean_returned (a : α) : (returned a).Clean := nofun

@[simp] theorem clean_threw {f : Fault} {a : α} : (threw f a).Clean ↔ f ≠ .useAfterFree := by
  simp [Clean, fault?]

theorem Clean.bind {k : α → Outcome α} (ho : o.Clean) (hk : ∀ a, o = .returned a → (k a).Clean) :
    (o.bind k).Clean := by
  cases o with
  | returned a => exact hk a rfl
  | threw f a => exact ho

theorem Clean.map {g : α → β} (ho : o.Clean) : (o.map g).Clean := by
  cases o with
  | returned a => exact clean_returned _
  | threw f a => exact ho

theorem Throws.clean {P : Fault → Prop} (h : o.Throws P) (hP : ¬P .useAfterFree) : o.Clean :=
  fun hf => hP (h _ hf)

/-- The callback is left in a state with `P`, unless it touches a destroyed session. -/
def Keeps (P : α → Prop) (o : Outcome α) : Prop := o.Clean → P o.state

variable {P : α → Prop}

theorem keeps_returned {a : α} (h : P a) : (returned a).Keeps P := fun _ => h

theorem keeps_threw {f : Fault} {a : α} (h : P a) : (threw f a).Keeps P := fun _ => h

theorem Keeps.bind {k : α → Outcome α} (ho : o.Keeps P)
    (hk : ∀ a, o = .returned a → P a → (k a).Keeps P) : (o.bind k).Keeps P := by
  cases o with
  | returned a => exact hk a rfl (ho (clean_returned a))
  | threw f a => exact ho

end Outcome

open Outcome (clean_returned clean_threw keeps_returned keeps_threw)

theorem ProxyFactory.create_ne_useAfterFree {env : Env} {io : ConnectIo} {ip : Option Bytes}
    {factory : ProxyFactory} : factory.create env io ip ≠ .error .useAfterFree := by
  cases factory with
  | wr name =>
    cases hs : io.socket with
    | error e => simp [create, hs]
    | ok => simp [create, hs]
  | tcp name port =>
    cases ip with
    | none => simp [create]
    | some x =>
      cases hn : TcpProxy.new env io x port with
      | error f =>
        simp only [create, hn, ne_eq, Except.error.injEq]
        rintro rfl
        rcases TcpProxy.new_error hn with ⟨hf, _⟩ | ⟨e, hf, _⟩
        · cases hf
        · cases hf
      | ok p => simp [create, hn]

theorem ProxyConn.clean_callback (env : Env) (c : ProxyConn) (ip : Option Bytes) (e : Event) :
    (c.callback env ip e).Clean := by
  cases c with
  | wr p =>
    cases e with
    | wrClientData sid pid io =>
      exact (WrProxy.throws_onClientData.clean (by simp [WrProxy.ReplyFault])).map
    | wrTargetData sid pid io => exact (WrProxy.throws_onTargetData.clean (by simp)).map
    | _ => exact clean_returned _
  | tcp p =>
    cases e with
    | tcpTargetConnected sid pid io =>
      have hnone : (p.onTargetConnected env io).Throws fun _ => False :=
        TcpProxy.throws_onTargetConnected
      exact (hnone.clean not_false).map
    | tcpClientData sid pid io => exact (TcpProxy.throws_onData.clean (by simp)).map
    | tcpTargetData sid pid io => exact (TcpProxy.throws_onData.clean (by simp)).map
    | _ => exact clean_returned _

namespace Daemon

variable {env : Env} {sys : Sys} {d d' : Daemon} {e : Event} {sid k i : ℕ} {s : Session}

theorem clean_deref {f : Session → Outcome Daemon} (hs : d.session sid = some s)
    (hf : (f s).Clean) : (d.deref sid f).Clean := by
  rwa [deref, hs]

theorem clean_derefBoard {f : ℕ → BoardSpec → Outcome Daemon} (hf : ∀ i b, (f i b).Clean) :
    (d.derefBoard s f).Clean := by
  unfold derefBoard
  split
  · exact clean_threw.2 nofun
  · split
    · exact clean_threw.2 nofun
    · exact hf _ _

theorem clean_dprintf {fd : ℤ} {text : Bytes} : (d.dprintf sys sid fd text).Clean := by
  unfold dprintf
  split_ifs
  · exact clean_threw.2 nofun
  · exact clean_returned _

theorem clean_printStatus {fd : ℤ} : (d.printStatus sys sid fd).Clean := by
  unfold printStatus
  split_ifs
  · exact clean_threw.2 nofun
  · exact clean_returned _

theorem clean_startProcess (hs : d.session sid = some s) :
    (Session.startProcess env sys d sid).Clean := by
  refine clean_deref hs (clean_derefBoard fun i b => ?_)
  split
  · exact clean_threw.2 nofun
  · split
    · exact clean_threw.2 nofun
    · exact clean_returned _

theorem clean_sessionAssignBoard (hs : d.session sid = some s) :
    (Session.assignBoard env sys d sid i).Clean := by
  refine clean_deref hs ?_
  split
  · exact clean_threw.2 nofun
  · refine clean_dprintf.bind fun d₁ h₁ => ?_
    obtain ⟨_, rfl⟩ := dprintf_returned.1 h₁
    refine clean_startProcess
      (s := { s with status := .hasBoard, board := some i, boardSince := sys.now }) ?_
    simp [hs]

theorem findWaiting_ok {q : List ℕ} (hq : ∀ k ∈ q, d.session k ≠ none) :
    ∃ r, d.findWaiting q = .ok r := by
  induction q with
  | nil => exact ⟨none, rfl⟩
  | cons v q ih =>
    obtain ⟨s, hs⟩ := Option.ne_none_iff_exists'.1 (hq v List.mem_cons_self)
    cases hf : d.findAvailableBoard s.getUsername with
    | some i => exact ⟨some (v, i), by simp [findWaiting, hs, hf]⟩
    | none =>
      obtain ⟨r, hr⟩ := ih fun k hk => hq k (List.mem_cons_of_mem _ hk)
      exact ⟨r, by simp [findWaiting, hs, hf, hr]⟩

theorem clean_daemonCloseSession (h : Sound (some sid) d) (hs : d.session sid = some s) :
    (Daemon.closeSession env sys d sid).Clean := by
  have hdep := h.departed hs
  refine Outcome.Clean.map ?_
  change (serveWaiting env sys (d.departed sid)).Clean
  obtain ⟨r, hr⟩ := findWaiting_ok hdep.queued
  cases r with
  | none =>
    rw [serveWaiting, hr]
    exact clean_returned _
  | some vi =>
    obtain ⟨v, i⟩ := vi
    obtain ⟨_, _, t, _, ht, _⟩ := findWaiting_some hr
    rw [serveWaiting, hr]
    exact clean_sessionAssignBoard ht

theorem clean_closeSession (h : Sound (some sid) d) (hs : d.session sid = some s) :
    (Session.closeSession env sys d sid).Clean := by
  simp only [Session.closeSession, hs]
  split_ifs
  · split
    · exact clean_returned _
    · refine clean_derefBoard fun i b => ?_
      split_ifs
      · exact clean_daemonCloseSession h hs
      · refine clean_deref (s := { s with status := .closingBoard }) (by simp [hs])
          (clean_derefBoard fun i b => ?_)
        split
        · exact clean_threw.2 (by simp)
        · split
          · exact clean_threw.2 (by simp)
          · exact clean_returned _
  · exact clean_daemonCloseSession h hs

theorem clean_onConnect {noWait : Bool} (h : Sound none d) (hs : d.session sid = some s) :
    (Session.onConnect env sys d sid noWait).Clean := by
  have hsa := setAwaiting_session_self hs
  refine Outcome.Clean.bind ?_ fun d₁ h₁ => ?_
  · refine clean_deref hsa ?_
    split
    · exact clean_sessionAssignBoard hsa
    · exact clean_returned _
  · obtain ⟨t, ht, ⟨i, _, ha⟩ | ⟨_, rfl⟩⟩ := daemonAssignBoard_returned h₁
    · obtain ⟨u, b, argv, pid, hu, _, _, _, rfl⟩ := sessionAssignBoard_returned ha
      refine clean_deref (s := Session.granted i pid sys.now u) ?_ ?_
      · rw [grant_session, if_pos rfl]
        exact congrArg _ hu
      · exact clean_returned _
    · refine clean_deref (s := { s with status := .awaitingBoard }) hsa ?_
      rw [if_pos rfl]
      refine clean_printStatus.bind fun d₁ h₁ => ?_
      obtain rfl := printStatus_returned h₁
      refine clean_dprintf.bind fun d₂ h₂ => ?_
      obtain ⟨_, rfl⟩ := dprintf_returned.1 h₂
      split_ifs
      · exact clean_closeSession ((((h.enqueue hs).act _).act _).weaken _) hsa
      · exact clean_returned _

/-- A setup message without descriptors only comes for a session that has a board. -/
def Forbears (d : Daemon) (e : Event) : Prop :=
  ∀ sid pkt, e.setup? = some (sid, pkt) → pkt.fds.take Session.maxFds = [] →
    (d.session sid).any (fun s => s.status = .hasBoard) = true

theorem clean_onSetupMsg {pkt : Packet} (h : Sound none d) (hs : d.session sid = some s)
    (hg : pkt.fds.take Session.maxFds = [] → s.status = .hasBoard) :
    (Session.onSetupMsg env sys d sid pkt).Clean := by
  by_cases hf : pkt.fds.take Session.maxFds = []
  · have hst := hg hf
    obtain ⟨c, hc⟩ := Option.ne_none_iff_exists'.1 (h.child sid s hs hst (Option.some_ne_none sid))
    -- the first request kills the command and nothing else
    have hkill : Session.closeSession env sys d sid = .returned (d.act [.kill sid c.pid]) := by
      simp [Session.closeSession, hs, hst, hc]
    simp only [Session.onSetupMsg, if_pos (Session.controlLen_lt_iff.2 hf), if_pos hf, hkill,
      Outcome.bind]
    exact clean_closeSession ((h.act _).weaken _) hs
  · simp only [Session.onSetupMsg, if_neg (mt Session.controlLen_lt_iff.1 hf), if_neg hf,
      Outcome.bind]
    refine clean_deref hs ?_
    split
    · exact clean_threw.2 (by decide)
    · rename_i r _
      have hi : Sound none (d.modifySession sid (Session.introduced pkt r)) :=
        h.quiet (fun _ => rfl) fun _ => ⟨rfl, rfl, rfl⟩
      have hsi : (d.modifySession sid (Session.introduced pkt r)).session sid =
          some (s.introduced pkt r) := by
        rw [session_modifySession, if_pos rfl, hs, Option.map_some]
        exact fun _ => rfl
      split_ifs
      · exact clean_onConnect hi hsi
      · refine clean_printStatus.bind fun d₁ h₁ => ?_
        obtain rfl := printStatus_returned h₁
        exact clean_closeSession ((hi.act _).weaken _) hsi
      · exact clean_returned _

theorem clean_onDataFromClient {recv : Except Errno Packet} (h : Sound none d)
    (hs : d.session sid = some s) (hg : d.Forbears (.clientData sid recv sys)) :
    (Session.onDataFromClient env sys d sid recv).Clean := by
  by_cases hend : recvEnds recv = true
  · rw [onDataFromClient_hangUp hend]
    have hh : Sound none ((d.act (recvFds sid recv)).modifySession sid Session.hungUp) :=
      (h.act _).quiet (fun _ => rfl) fun _ => ⟨rfl, rfl, rfl⟩
    have hsh := session_hangUp_self (recvFds sid recv) hs
    exact clean_closeSession (hh.weaken _) hsh
  cases recv with
  | error e => exact absurd rfl hend
  | ok pkt =>
    rw [onDataFromClient_packet hs fun hd => hend (decide_eq_true hd)]
    rcases Event.setup_cases sid pkt sys with hset | hset
    · rw [hset]
      exact clean_returned _
    · rw [hset, if_pos Option.isSome_some]
      refine clean_onSetupMsg (h.receive sid pkt) (session_receive_self pkt hs) fun hf => ?_
      have hst := hg sid pkt hset hf
      rw [hs, Option.any_some, decide_eq_true_eq] at hst
      exact hst

theorem clean_onChild {pid : Pid} (h : Sound none d) : (onChild env sys d pid).Clean := by
  unfold onChild
  split
  · exact clean_returned _
  · rename_i s hf
    have hs := h.session_of_mem (List.mem_of_find?_eq_some hf)
    have hstop : Sound (some s.id) (Session.stopChildWatcher d s.id) := h.stop s.id
    have hss : (Session.stopChildWatcher d s.id).session s.id =
        some { s with childWatcher := none } := by
      rw [session_stopChildWatcher, if_pos rfl, hs, Option.map_some]
    split
    · exact clean_returned _
    · split
      · exact clean_closeSession hstop hss
      · exact clean_closeSession hstop hss

theorem clean_onSocketConnecting {io : ConnectIo} {listener : ℕ} {peer : Pid} (h : Sound none d) :
    (onSocketConnecting env io d listener peer).Clean := by
  unfold onSocketConnecting
  split
  · exact clean_threw.2 nofun
  · split
    · rename_i s hf
      refine clean_deref (h.session_of_mem (List.mem_of_find?_eq_some hf)) ?_
      split_ifs
      · exact clean_returned _
      · split
        · rename_i f hc
          refine clean_threw.2 ?_
          rintro rfl
          exact ProxyFactory.create_ne_useAfterFree hc
        · exact clean_returned _
    · exact clean_returned _

theorem clean_runProxy {pid : ℕ} {ready : ProxyConn → Bool}
    {run : Session → ProxyConn → Outcome ProxyConn} (env : Env) (e : Event)
    (hr : d.proxyReady sid pid ready = true)
    (hrun : ∀ s c, run s c = ProxyConn.callback env (d.boardIp s) c e) :
    (Session.runProxy d sid pid run).Clean := by
  simp only [proxyReady, Option.any_eq_true] at hr
  obtain ⟨s, hs, p, hp, _⟩ := hr
  refine clean_deref hs ?_
  rw [hp]
  exact (hrun s p.conn ▸ ProxyConn.clean_callback env p.conn (d.boardIp s) e).map

theorem clean_step (h : Sound none d) (hen : d.enabled e = true) (hg : d.Forbears e) :
    (d.step env e).Clean := by
  cases e with
  | clientConnecting cred ppid buffer now => exact clean_returned _
  | acceptFailed errno => exact clean_threw.2 nofun
  | clientData sid recv sys =>
    simp only [enabled, Bool.and_eq_true, Option.any_eq_true] at hen
    obtain ⟨⟨s, hs, _⟩, _⟩ := hen
    exact clean_onDataFromClient h hs hg
  | processExits pid => exact clean_returned _
  | childReaped pid sys =>
    exact clean_onChild (h.of_sessions rfl rfl (List.Subset.refl _) fun _ => rfl)
  | socketConnecting listener peer io => exact clean_onSocketConnecting h
  | wrClientData sid pid io =>
    exact clean_runProxy env (.wrClientData sid pid io) hen fun _ _ => rfl
  | wrTargetData sid pid io =>
    exact clean_runProxy env (.wrTargetData sid pid io) hen fun _ _ => rfl
  | tcpTargetConnected sid pid io =>
    exact clean_runProxy env (.tcpTargetConnected sid pid io) hen fun _ _ => rfl
  | tcpClientData sid pid io =>
    exact clean_runProxy env (.tcpClientData sid pid io) hen fun _ _ => rfl
  | tcpTargetData sid pid io =>
    exact clean_runProxy env (.tcpTargetData sid pid io) hen fun _ _ => rfl
  | signal => exact clean_returned _

/-! The calls of `Daemon::close_session` for one session. -/

def Tallied (d : Daemon) : Prop :=
  ∀ k, d.trace.count (.closeSession k) + (if (d.session k).isSome then 1 else 0) =
    if k < d.counter then 1 else 0

namespace Tallied

theorem count_le_one (h : Tallied d) (k : ℕ) : d.trace.count (.closeSession k) ≤ 1 := by
  have hk := h k
  split_ifs at hk <;> omega

theorem modifySession (h : Tallied d) (sid : ℕ) {f : Session → Session}
    (hf : ∀ s, (f s).id = s.id) : Tallied (d.modifySession sid f) := by
  intro k
  have hk : ((d.modifySession sid f).session k).isSome = (d.session k).isSome := by
    rw [session_modifySession d sid k f hf]
    split_ifs with he
    · rw [he, Option.isSome_map]
    · rfl
  rw [hk]
  exact h k

theorem act (h : Tallied d) {as : List Action} (has : ∀ k, .closeSession k ∉ as) :
    Tallied (d.act as) := by
  intro k
  have hk : (d.act as).trace.count (.closeSession k) = d.trace.count (.closeSession k) := by
    change (d.trace ++ as).count _ = _
    rw [List.count_append, List.count_eq_zero.2 (has k), Nat.add_zero]
  rw [hk]
  exact h k

theorem departed (h : Tallied d) (hs : d.session sid = some s) : Tallied (d.departed sid) := by
  intro k
  have hk := h k
  rw [departed_trace hs, departed_session, (departed_fields hs).2.2.1, List.count_append]
  by_cases he : k = sid
  · subst he
    simp only [hs, Option.isSome_some, ↓reduceIte] at hk
    simpa using hk
  · simpa [if_neg he, Ne.symm he] using hk

theorem addSession (h : Tallied d) (hs : s.id = d.counter) : Tallied (d.addSession s) := by
  intro k
  have hk := h k
  change d.trace.count _ + (if ((d.addSession s).session k).isSome then 1 else 0) =
    if k < d.counter + 1 then 1 else 0
  rw [session_addSession]
  by_cases he : k = d.counter
  · subst he
    split_ifs at hk ⊢ <;> simp_all
  · split_ifs at hk ⊢ <;> simp_all <;> omega

end Tallied

theorem keeps_deref {f : Session → Outcome Daemon} (h : Tallied d)
    (hf : ∀ s, d.session sid = some s → (f s).Keeps Tallied) : (d.deref sid f).Keeps Tallied := by
  unfold deref
  split
  · exact keeps_threw h
  · exact hf _ ‹_›

theorem keeps_derefBoard {f : ℕ → BoardSpec → Outcome Daemon} (h : Tallied d)
    (hf : ∀ i b, (f i b).Keeps Tallied) : (d.derefBoard s f).Keeps Tallied := by
  unfold derefBoard
  split
  · exact keeps_threw h
  · split
    · exact keeps_threw h
    · exact hf _ _

theorem keeps_dprintf {fd : ℤ} {text : Bytes} (h : Tallied d) :
    (d.dprintf sys sid fd text).Keeps Tallied := by
  unfold dprintf
  split_ifs
  · exact keeps_threw h
  · exact keeps_returned (h.act (by simp))

theorem keeps_printStatus {fd : ℤ} (h : Tallied d) : (d.printStatus sys sid fd).Keeps Tallied := by
  unfold printStatus
  split_ifs
  · exact keeps_threw h
  · exact keeps_returned (h.act (by simp))

theorem keeps_startProcess (h : Tallied d) :
    (Session.startProcess env sys d sid).Keeps Tallied := by
  refine keeps_deref h fun s _ => keeps_derefBoard h fun i b => ?_
  split
  · exact keeps_threw h
  · split
    · exact keeps_threw h
    · exact keeps_returned (Tallied.modifySession
        (Tallied.act (d := d.setProcesses _) h (by simp)) _ fun _ => rfl)

theorem keeps_sessionAssignBoard (h : Tallied d) :
    (Session.assignBoard env sys d sid i).Keeps Tallied := by
  refine keeps_deref h fun s _ => ?_
  split
  · exact keeps_threw h
  · refine Outcome.Keeps.bind ?_ fun _ _ h₁ => keeps_startProcess h₁
    exact keeps_dprintf (d := modifyBoard (modifySession _ _ _) _ _)
      (h.modifySession sid fun _ => rfl)

theorem keeps_daemonCloseSession (h : Tallied d) (hs : d.session sid = some s) :
    (Daemon.closeSession env sys d sid).Keeps Tallied := by
  have hserve : (serveWaiting env sys (d.departed sid)).Keeps Tallied := by
    unfold serveWaiting
    split
    · exact keeps_threw (h.departed hs)
    · exact keeps_returned (h.departed hs)
    · exact keeps_sessionAssignBoard (d := dequeue _ _) (h.departed hs)
  change ((serveWaiting env sys (d.departed sid)).map exitIfIdle).Keeps Tallied
  cases ho : serveWaiting env sys (d.departed sid) with
  | returned d₁ =>
    rw [ho] at hserve
    refine keeps_returned ?_
    rw [exitIfIdle_eq_silent]
    exact hserve (clean_returned _)
  | threw f d₁ =>
    rw [ho] at hserve
    intro hcl
    change Tallied d₁.exitIfIdle
    rw [exitIfIdle_eq_silent]
    exact hserve hcl

theorem keeps_closeSession (h : Tallied d) :
    (Session.closeSession env sys d sid).Keeps Tallied := by
  unfold Session.closeSession
  split
  · exact fun hcl => absurd rfl (clean_threw.1 hcl)
  rename_i s hs
  split_ifs
  · split
    · exact keeps_returned (h.act (by simp))
    · refine keeps_derefBoard h fun i b => ?_
      split_ifs
      · exact keeps_daemonCloseSession h hs
      · have hst : Tallied (d.modifySession sid fun s => { s with status := .closingBoard }) :=
          h.modifySession sid fun _ => rfl
        refine keeps_deref hst fun s _ => keeps_derefBoard hst fun i b => ?_
        split
        · exact keeps_threw hst
        · split
          · exact keeps_threw hst
          · refine keeps_returned (Tallied.modifySession ?_ _ fun _ => rfl)
            exact hst
  · exact keeps_daemonCloseSession h hs

theorem keeps_onConnect {noWait : Bool} (h : Tallied d) :
    (Session.onConnect env sys d sid noWait).Keeps Tallied := by
  have hst : Tallied (d.setAwaiting sid) := h.modifySession sid fun _ => rfl
  refine Outcome.Keeps.bind ?_ fun d₁ _ h₁ => ?_
  · refine keeps_deref hst fun s _ => ?_
    split
    · exact keeps_sessionAssignBoard hst
    · exact keeps_returned hst
  · refine keeps_deref h₁ fun s _ => ?_
    split
    · refine Outcome.Keeps.bind (keeps_printStatus h₁) fun d₂ _ h₂ => ?_
      refine Outcome.Keeps.bind (keeps_dprintf h₂) fun d₃ _ h₃ => ?_
      split_ifs
      · exact keeps_closeSession h₃
      · exact keeps_returned h₃
    · exact keeps_returned h₁

theorem keeps_onSetupMsg {pkt : Packet} (h : Tallied d) :
    (Session.onSetupMsg env sys d sid pkt).Keeps Tallied := by
  refine Outcome.Keeps.bind ?_ fun d₁ _ h₁ => ?_
  · split_ifs
    · exact keeps_closeSession h
    · exact keeps_returned h
  · split_ifs
    · exact keeps_closeSession h₁
    · refine keeps_deref h₁ fun s _ => ?_
      split
      · exact keeps_threw h₁
      · rename_i r _
        have hi : Tallied (d₁.modifySession sid (Session.introduced pkt r)) :=
          h₁.modifySession sid fun _ => rfl
        split_ifs
        · exact keeps_onConnect hi
        · exact Outcome.Keeps.bind (keeps_printStatus hi) fun d₂ _ h₂ => keeps_closeSession h₂
        · exact keeps_returned hi

theorem keeps_onDataFromClient {recv : Except Errno Packet} (h : Tallied d) :
    (Session.onDataFromClient env sys d sid recv).Keeps Tallied := by
  have hup : ∀ {d : Daemon}, Tallied d →
      (Session.disconnect env sys d sid).Keeps Tallied := fun h =>
    keeps_closeSession (h.modifySession sid fun _ => rfl)
  cases recv with
  | error e => exact hup h
  | ok pkt =>
    have hact : Tallied (d.act [.receiveFds sid (pkt.fds.take Session.maxFds)]) := h.act (by simp)
    have hrec : Tallied (d.receive sid pkt) := hact.modifySession sid fun _ => rfl
    simp only [Session.onDataFromClient]
    split_ifs
    · exact hup hact
    · exact keeps_returned hrec
    · refine keeps_deref hrec fun s _ => ?_
      split_ifs
      · exact keeps_onSetupMsg hrec
      · exact keeps_returned hrec

theorem keeps_onChild {pid : Pid} (h : Tallied d) : (onChild env sys d pid).Keeps Tallied := by
  have hstop : ∀ sid, (Session.closeSession env sys (Session.stopChildWatcher d sid) sid).Keeps
      Tallied := fun sid => keeps_closeSession (h.modifySession sid fun _ => rfl)
  unfold onChild
  split
  · exact keeps_returned h
  · split
    · exact keeps_returned h
    · split
      · exact hstop _
      · exact hstop _

theorem keeps_onSocketConnecting {io : ConnectIo} {listener : ℕ} {peer : Pid} (h : Tallied d) :
    (onSocketConnecting env io d listener peer).Keeps Tallied := by
  unfold onSocketConnecting
  split
  · exact keeps_threw h
  · split
    · refine keeps_deref h fun s _ => ?_
      split_ifs
      · exact keeps_returned h
      · split
        · exact keeps_threw (h.modifySession _ fun _ => rfl)
        · exact keeps_returned (h.modifySession _ fun _ => rfl)
    · exact keeps_returned h

theorem keeps_runProxy {pid : ℕ} {run : Session → ProxyConn → Outcome ProxyConn} (h : Tallied d) :
    (Session.runProxy d sid pid run).Keeps Tallied := by
  refine keeps_deref h fun s _ => ?_
  split
  · exact keeps_threw h
  · rename_i p _
    cases run s p.conn with
    | returned conn => exact keeps_returned (h.modifySession sid fun _ => rfl)
    | threw f conn => exact keeps_threw (h.modifySession sid fun _ => rfl)

theorem keeps_step (h : Tallied d) : (d.step env e).Keeps Tallied := by
  cases e with
  | clientConnecting cred ppid buffer now => exact keeps_returned (h.addSession rfl)
  | acceptFailed errno => exact keeps_threw h
  | clientData sid recv sys => exact keeps_onDataFromClient h
  | processExits pid => exact keeps_returned h
  | childReaped pid sys => exact keeps_onChild (d := moveProcess _ _ _ _) h
  | socketConnecting listener peer io => exact keeps_onSocketConnecting h
  | wrClientData sid pid io => exact keeps_runProxy h
  | wrTargetData sid pid io => exact keeps_runProxy h
  | tcpTargetConnected sid pid io => exact keeps_runProxy h
  | tcpClientData sid pid io => exact keeps_runProxy h
  | tcpTargetData sid pid io => exact keeps_runProxy h
  | signal => exact keeps_returned h

section Runs

variable {bs : List BoardSpec} {fs : List ProxyFactory} {sd : Bool} {es : List Event}

theorem tallied_run (h : Run (Next env) (initial bs fs sd) es d) : Tallied d := by
  refine h.invariant Tallied (fun k => by simp [initial, session, KeyedList.lookup]) ?_
  intro t e u ht hn
  have hk : (t.step env e).Keeps Tallied := keeps_step ht
  rw [(next_iff.1 hn).2] at hk
  exact hk (clean_returned u)

/-- In every run: `Daemon::close_session` has run for a session once if the session is gone
and not at all if it is there. This holds in the state in which any next callback is left,
too, and the callback does not go on with a destroyed session, as long as a setup message
without descriptors only comes for a session that has a board. -/
theorem run_closed_once (h : Run (Next env) (initial bs fs sd) es d) :
    (∀ k < d.counter, d.trace.count (.closeSession k) = if d.session k = none then 1 else 0) ∧
      ∀ e, d.enabled e = true → d.Forbears e →
        (∀ k, (d.step env e).state.trace.count (.closeSession k) ≤ 1) ∧
          (d.step env e).fault? ≠ some .useAfterFree := by
  have ht := tallied_run h
  refine ⟨fun k hlt => ?_, fun e hen hg => ?_⟩
  · have hk := ht k
    rw [if_pos hlt] at hk
    cases hs : d.session k with
    | none => simpa [hs] using hk
    | some s => simpa [hs] using hk
  · have hcl : (d.step env e).Clean := clean_step (sound_run h) hen hg
    exact ⟨(keeps_step ht hcl).count_le_one, hcl⟩

theorem run_closed_once_with_board :
    let bare : Event := .clientData 0 (.ok { Client.sendSetup 0 7 [] false (0, 0, 0) 3 4 5
      (fun _ => 0) with fds := [] }) (Sample.sys 101)
    ∃ d, (Run (Next Sample.env) (initial [Sample.board [] []] [] false)
        [Sample.accept, Sample.connect 0 7 100] d ∧
      (d.enabled bare, (d.session 0).any fun s => s.status = .hasBoard) = (true, true)) ∧
    (∀ k, (d.step Sample.env bare).state.trace.count (.closeSession k) ≤ 1) ∧
    (d.step Sample.env bare).fault? ≠ some .useAfterFree := by
  intro bare
  refine Exists.imp (fun d hr => ⟨hr, ?_⟩) (exists_run (fun d : Daemon =>
    (d.enabled bare, (d.session 0).any fun s => s.status = .hasBoard)) (by decide +kernel))
  obtain ⟨hrun, hd⟩ := hr
  obtain ⟨hen, hst⟩ := Prod.mk.inj hd
  refine (run_closed_once hrun).2 bare hen fun sid pkt hset _ => ?_
  have hsid : bare.setup?.map Prod.fst = some 0 := by decide +kernel
  rw [hset] at hsid
  rw [show sid = 0 from Option.some.inj hsid]
  exact hst

/-- A setup message without descriptors from a client that has just connected: the daemon
closes the session twice. -/
theorem bare_setup_uses_destroyed_session :
    let bare : Event := .clientData 0 (.ok { Client.sendSetup 0 7 [] false (0, 0, 0) 3 4 5
      (fun _ => 0) with fds := [] }) (Sample.sys 100)
    ∃ d, Run (Next Sample.env) (initial [Sample.board [] []] [] false) [Sample.accept] d ∧
      (d.enabled bare, (d.step Sample.env bare).state.trace.count (.closeSession 0),
        (d.step Sample.env bare).fault?) = (true, 2, some .useAfterFree) := by
  intro bare
  refine exists_run (fun d : Daemon => (d.enabled bare,
    (d.step Sample.env bare).state.trace.count (.closeSession 0),
    (d.step Sample.env bare).fault?)) ?_
  decide +kernel

end Runs
end Daemon
end BoardProxy
