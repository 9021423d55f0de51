import BoardProxy.CallbackParts
import BoardProxy.Descriptors
import BoardProxy.FdTable

/-!
# What a child inherits

The daemon marks its sockets to be closed by `exec`. The descriptors that a client passes
are not marked, because `recvmsg` gets no flag for it. They stay open until their session
closes them, and every child that is started before is started with them.
-/

namespace BoardProxy

inductive OpenFile
  | own (fd : ℕ)
  | passed (session n : ℕ)
deriving DecidableEq

abbrev OpenFiles := FdTable ℤ OpenFile

def Action.onTable (T : OpenFiles) : Action → OpenFiles
  | .receiveFds sid fds => T.install fds (.passed sid)
  | .close _ fd => T.close fd
  | _ => T

namespace OpenFiles

/-- The table with which the daemon is started. The flag marks what `exec` closes. -/
def initial (own : ℕ → Option Bool) : OpenFiles
  | .ofNat n => (own n).map fun c => (.own n, c)
  | .negSucc _ => none

def after (own : ℕ → Option Bool) (trace : List Action) : OpenFiles :=
  trace.foldl Action.onTable (initial own)

/-- The child in `start_process`, up to the end of `execvp`. -/
def startProcess (T : OpenFiles) (fdIn fdOut fdErr : ℤ) : OpenFiles :=
  (T.redirect [(fdIn, 0), (fdOut, 1), (fdErr, 2)]).exec

def startCloseCommand (T : OpenFiles) : OpenFiles := T.exec

variable {own : ℕ → Option Bool} {T : OpenFiles} {held : ℕ → List ℤ} {sid : ℕ} {l : List ℤ}

structure Accounts (own : ℕ → Option Bool) (held : ℕ → List ℤ) (T : OpenFiles) : Prop where
  own_iff : ∀ fd n c, T fd = some (.own n, c) ↔ fd = n ∧ own n = some c
  passed_iff : ∀ fd k n c, T fd = some (.passed k n, c) ↔
    c = false ∧ 0 ≤ fd ∧ (held k)[n]? = some fd

namespace Accounts

theorem initial (hheld : ∀ k, held k = []) : Accounts own held (initial own) where
  own_iff fd n c := by
    cases fd with
    | ofNat m =>
      simp only [OpenFiles.initial, Option.map_eq_some_iff, Prod.mk.injEq, OpenFile.own.injEq]
      constructor
      · rintro ⟨c, hc, rfl, rfl⟩
        exact ⟨rfl, hc⟩
      · rintro ⟨hm, hc⟩
        obtain rfl : m = n := Int.ofNat.inj hm
        exact ⟨c, hc, rfl, rfl⟩
    | negSucc m => simp [OpenFiles.initial]
  passed_iff fd k n c := by
    cases fd <;> simp [OpenFiles.initial, hheld]

theorem receive (h : Accounts own held T) (hneg : ∀ fd ∈ held sid, fd < 0) (hl : l.Nodup)
    (hfree : ∀ fd ∈ l, 0 ≤ fd ∧ T fd = none) :
    Accounts own (Function.update held sid l) (T.install l (.passed sid)) where
  own_iff fd n c := by
    rw [← h.own_iff, FdTable.install]
    by_cases hfd : fd ∈ l
    · simp [if_pos hfd, (hfree fd hfd).2]
    · rw [if_neg hfd]
  passed_iff fd k n c := by
    rw [FdTable.install]
    by_cases hfd : fd ∈ l
    · obtain ⟨hpos, hnone⟩ := hfree fd hfd
      rw [if_pos hfd]
      by_cases hk : k = sid
      · subst hk
        rw [Function.update_self]
        have hidx : l[n]? = some fd ↔ l.idxOf fd = n := by
          constructor
          · intro hn
            obtain ⟨hlt, rfl⟩ := List.getElem?_eq_some_iff.1 hn
            exact hl.idxOf_getElem n hlt
          · rintro rfl
            exact List.getElem?_idxOf hfd
        simp [hpos, hidx, and_comm, eq_comm]
      · rw [Function.update_of_ne hk]
        constructor
        · intro hs
          simp [Ne.symm hk] at hs
        · intro hs
          rw [← h.passed_iff, hnone] at hs
          cases hs
    · rw [if_neg hfd, h.passed_iff]
      by_cases hk : k = sid
      · subst hk
        rw [Function.update_self]
        constructor
        · rintro ⟨_, hpos, hn⟩
          exact absurd hpos (Int.not_le.2 (hneg fd (List.mem_of_getElem? hn)))
        · rintro ⟨_, _, hn⟩
          exact absurd (List.mem_of_getElem? hn) hfd
      · rw [Function.update_of_ne hk]

theorem holder_unique (h : Accounts own held T) {fd : ℤ} {k : ℕ} (hpos : 0 ≤ fd)
    (hs : fd ∈ held sid) (hk : fd ∈ held k) : k = sid := by
  obtain ⟨n, hn⟩ := List.mem_iff_getElem?.1 hs
  obtain ⟨m, hm⟩ := List.mem_iff_getElem?.1 hk
  have hn := (h.passed_iff fd sid n false).2 ⟨rfl, hpos, hn⟩
  rw [(h.passed_iff fd k m false).2 ⟨rfl, hpos, hm⟩] at hn
  simp only [Option.some.injEq, Prod.mk.injEq, OpenFile.passed.injEq] at hn
  exact hn.1.1

theorem release (h : Accounts own held T) (hl : ∀ fd ∈ l, fd < 0) :
    Accounts own (Function.update held sid l) ((held sid).foldl FdTable.close T) where
  own_iff fd n c := by
    rw [FdTable.closes_apply, ← h.own_iff]
    by_cases hfd : fd ∈ held sid
    · rw [if_pos hfd]
      constructor
      · intro hs
        cases hs
      · intro hs
        obtain ⟨m, hm⟩ := List.mem_iff_getElem?.1 hfd
        have hpos : 0 ≤ fd := ((h.own_iff fd n c).1 hs).1 ▸ Int.natCast_nonneg n
        rw [(h.passed_iff fd sid m false).2 ⟨rfl, hpos, hm⟩] at hs
        cases hs
    · rw [if_neg hfd]
  passed_iff fd k n c := by
    rw [FdTable.closes_apply]
    by_cases hk : k = sid
    · subst hk
      rw [Function.update_self]
      constructor
      · intro hs
        by_cases hfd : fd ∈ held k
        · rw [if_pos hfd] at hs
          cases hs
        · rw [if_neg hfd, h.passed_iff] at hs
          exact absurd (List.mem_of_getElem? hs.2.2) hfd
      · rintro ⟨_, hpos, hn⟩
        exact absurd hpos (Int.not_le.2 (hl fd (List.mem_of_getElem? hn)))
    · rw [Function.update_of_ne hk, ← h.passed_iff]
      by_cases hfd : fd ∈ held sid
      · rw [if_pos hfd]
        constructor
        · intro hs
          cases hs
        · intro hs
          obtain ⟨_, hpos, hn⟩ := (h.passed_iff fd k n c).1 hs
          exact absurd (h.holder_unique hpos hfd (List.mem_of_getElem? hn)) hk
      · rw [if_neg hfd]

end Accounts

end OpenFiles

namespace Sample

def own (n : ℕ) : Option Bool := if n < 3 then some false else none

def connectAt (fd : ℤ) (sid : ℕ) (ppid child : Pid) : Event :=
  .clientData sid (.ok (Client.sendSetup 0 ppid [] false (0, 0, 0) fd (fd + 1) (fd + 2) fun _ => 0))
    (Sample.sys child)

def threeUsers : List Event :=
  [accept, connectAt 3 0 7 100, accept, connectAt 3 1 8 101, accept, connectAt 6 2 9 102,
    .processExits 100]

end Sample

namespace Daemon

variable {env : Env} {d d' d₁ : Daemon} {e : Event} {es : List Event} {sid k i : ℕ} {s : Session}
  {own : ℕ → Option Bool} {bs : List BoardSpec} {fs : List ProxyFactory} {sd : Bool}

def held (d : Daemon) (k : ℕ) : List ℤ := (d.ledger k).held

def openFiles (own : ℕ → Option Bool) (d : Daemon) : OpenFiles := .after own d.trace

/-- A setup message carries three descriptors, under numbers that are not in use. Other
packets carry none. -/
def Delivered (own : ℕ → Option Bool) (d : Daemon) (e : Event) : Prop :=
  match e with
  | .clientData _ (.ok pkt) _ =>
    if e.setup? = none then pkt.fds.take Session.maxFds = []
    else (pkt.fds.take Session.maxFds).length = 3 ∧ (pkt.fds.take Session.maxFds).Nodup ∧
      ∀ fd ∈ pkt.fds.take Session.maxFds, 0 ≤ fd ∧ d.openFiles own fd = none
  | _ => True

instance (own : ℕ → Option Bool) (d : Daemon) (e : Event) : Decidable (d.Delivered own e) := by
  unfold Delivered
  split <;> infer_instance

section Effects

theorem openFiles_act (d : Daemon) (as : List Action) :
    (d.act as).openFiles own = as.foldl Action.onTable (d.openFiles own) := List.foldl_append

theorem held_modifySession (d : Daemon) (sid : ℕ) {f : Session → Session}
    (hid : ∀ s, (f s).id = s.id) (hf : ∀ s, (f s).fds = s.fds) :
    (d.modifySession sid f).held = d.held := by
  funext k
  rw [held, ledger_modifySession d sid hid hf, held]

theorem held_departed (hs : d.session sid = some s) :
    (d.departed sid).held = Function.update d.held sid [] := by
  funext k
  rw [held, ledger_departed hs, Function.update_apply]
  split_ifs <;> rfl

theorem openFiles_departed (hs : d.session sid = some s) :
    (d.departed sid).openFiles own = (d.held sid).foldl FdTable.close (d.openFiles own) := by
  rw [held, held_of_session hs, openFiles, departed_trace hs, OpenFiles.after, List.foldl_append]
  rfl

theorem held_grant (hs : d.session sid = some s) (b : BoardSpec) (argv : List Bytes) (pid : Pid)
    (now : ℤ) :
    (d.grant sid i s b argv pid now).held = Function.update d.held sid [-1, -1, -1] := by
  funext k
  rw [held, ledger_grant hs, Function.update_apply]
  split_ifs <;> rfl

theorem grant_trace (b : BoardSpec) (argv : List Bytes) (pid : Pid) (now : ℤ) :
    (d.grant sid i s b argv pid now).trace =
      (d.act [.dprintf sid s.fdErr (ascii "Connecting to board " ++ cStr b.id ++ [10])]).trace ++
        [.close sid s.fdIn, .close sid s.fdOut, .close sid s.fdErr] := by
  simp [grant]

theorem openFiles_grant (hs : d.session sid = some s) (b : BoardSpec) (argv : List Bytes)
    (pid : Pid) (now : ℤ) : (d.grant sid i s b argv pid now).openFiles own =
      (d.held sid).foldl FdTable.close (d.openFiles own) := by
  rw [held, held_of_session hs, openFiles, grant_trace, OpenFiles.after, List.foldl_append]
  change List.foldl Action.onTable ((d.act _).openFiles own) _ = _
  rw [openFiles_act]
  rfl

theorem held_startClosing (argv : List Bytes) (pid : Pid) :
    (d.startClosing sid i argv pid).held = d.held :=
  funext fun k => by rw [held, ledger_startClosing, held]

theorem held_introduce {pkt : Packet} (r : Proto.Request) (hs : d.session sid = some s)
    (hlen : (pkt.fds.take Session.maxFds).length = 3) :
    (d.introduce sid pkt r).held = Function.update d.held sid (pkt.fds.take Session.maxFds) := by
  funext k
  rw [Function.update_apply]
  by_cases hk : k = sid
  · rw [if_pos hk, hk, held, ledger_introduce_self r hs hlen]
    rfl
  · rw [if_neg hk, held, ledger_introduce_ne r hk, held]

theorem held_onClientConnecting (hnew : d.session d.counter = none) (cred : Bytes) (ppid : Pid)
    (buffer : Memory) (now : ℤ) : (d.onClientConnecting cred ppid buffer now).held =
      Function.update d.held d.counter [-1, -1, -1] := by
  funext k
  rw [Function.update_apply]
  by_cases hk : k = d.counter
  · subst hk
    simp [held, ledger, onClientConnecting, session_addSession, hnew, Session.fds]
  · simp [held, ledger, onClientConnecting, session_addSession, hk, Ne.symm hk]

end Effects

theorem Delivered.of_setup {pkt : Packet} (h : d.Delivered own e)
    (he : e.setup? = some (sid, pkt)) : (pkt.fds.take Session.maxFds).length = 3 ∧
      (pkt.fds.take Session.maxFds).Nodup ∧
      ∀ fd ∈ pkt.fds.take Session.maxFds, 0 ≤ fd ∧ d.openFiles own fd = none := by
  cases e with
  | clientData j recv sys =>
    cases recv with
    | error _ => cases he
    | ok p =>
      have hp : p = pkt := by
        unfold Event.setup? at he
        simp only at he
        split at he
        · exact (Prod.mk.inj (Option.some.inj he)).2
        · cases he
      subst hp
      rwa [Delivered, if_neg (he ▸ Option.some_ne_none _)] at h
  | _ => cases he

theorem Delivered.recvFds {recv : Except Errno Packet} {sys : Sys}
    (h : d.Delivered own (.clientData sid recv sys))
    (hn : (Event.clientData sid recv sys).setup? = none) (T : OpenFiles) :
    (recvFds sid recv).foldl Action.onTable T = T := by
  cases recv with
  | error _ => rfl
  | ok pkt =>
    have hnil : pkt.fds.take Session.maxFds = [] := by rwa [Delivered, if_pos hn] at h
    funext fd
    simp [BoardProxy.recvFds, Action.onTable, FdTable.install, hnil]

structure FilesHeld (own : ℕ → Option Bool) (es : List Event) (d : Daemon) : Prop where
  accounts : OpenFiles.Accounts own d.held (d.openFiles own)
  fresh : ∀ k, k ∉ setUps es → ∀ fd ∈ d.held k, fd < 0
  waiting : ∀ k ∈ d.waitQueue, ∀ fd ∈ d.held k, 0 ≤ fd

namespace FilesHeld

theorem log (h : FilesHeld own es d) (e : Event) : FilesHeld own (es ++ [e]) d where
  accounts := h.accounts
  fresh k hk := h.fresh k fun hmem => hk (by rw [setUps_append]; exact List.mem_append_left _ hmem)
  waiting := h.waiting

theorem congr (h : FilesHeld own es d) (hT : d'.openFiles own = d.openFiles own)
    (hheld : d'.held = d.held) (hq : d'.waitQueue = d.waitQueue) : FilesHeld own es d' where
  accounts := by
    rw [hT, hheld]
    exact h.accounts
  fresh := by
    rw [hheld]
    exact h.fresh
  waiting := by
    rw [hheld, hq]
    exact h.waiting

theorem modifySession (h : FilesHeld own es d) (sid : ℕ) {f : Session → Session}
    (hid : ∀ s, (f s).id = s.id) (hf : ∀ s, (f s).fds = s.fds) :
    FilesHeld own es (d.modifySession sid f) :=
  h.congr rfl (held_modifySession d sid hid hf) rfl

theorem release (h : FilesHeld own es d) {l : List ℤ} (hl : ∀ fd ∈ l, fd < 0)
    (hT : d'.openFiles own = (d.held sid).foldl FdTable.close (d.openFiles own))
    (hheld : d'.held = Function.update d.held sid l)
    (hq : ∀ k ∈ d'.waitQueue, k ∈ d.waitQueue ∧ k ≠ sid) : FilesHeld own es d' where
  accounts := by
    rw [hT, hheld]
    exact h.accounts.release hl
  fresh k hk fd hfd := by
    rw [hheld, Function.update_apply] at hfd
    by_cases hks : k = sid
    · rw [if_pos hks] at hfd
      exact hl fd hfd
    · rw [if_neg hks] at hfd
      exact h.fresh k hk fd hfd
  waiting k hk := by
    obtain ⟨hk, hks⟩ := hq k hk
    rw [hheld, Function.update_of_ne hks]
    exact h.waiting k hk

theorem departed (h : FilesHeld own es d) (hs : d.session sid = some s) :
    FilesHeld own es (d.departed sid) := by
  refine h.release (l := []) (by simp) (openFiles_departed hs) (held_departed hs) fun k hk => ?_
  rw [(departed_fields hs).1] at hk
  simpa using hk

theorem grant (h : FilesHeld own es d) (hs : d.session sid = some s) (hsid : sid ∉ d.waitQueue)
    (b : BoardSpec) (argv : List Bytes) (pid : Pid) (now : ℤ) :
    FilesHeld own es (d.grant sid i s b argv pid now) := by
  refine h.release (by decide) (openFiles_grant hs b argv pid now) (held_grant hs b argv pid now)
    fun k hk => ?_
  rw [(grant_fields b argv pid now).1] at hk
  exact ⟨hk, fun hks => hsid (hks ▸ hk)⟩

theorem introduce {pkt : Packet} {r : Proto.Request} (h : FilesHeld own es d)
    (hone : AtMostOneSetup (es ++ [e])) (hdel : d.Delivered own e)
    (hreq : d.request? e = some (sid, pkt, r)) (hs : d.session sid = some s) :
    FilesHeld own (es ++ [e]) (d.introduce sid pkt r) := by
  obtain ⟨hlen, hnd, hfree⟩ := hdel.of_setup (of_request hreq).1
  have hfor := isSetupFor_of_request hreq
  have hheld := held_introduce r hs hlen
  refine ⟨?_, fun k hk fd hfd => ?_, fun k hk fd hfd => ?_⟩
  · have hT : (d.introduce sid pkt r).openFiles own =
        (d.openFiles own).install (pkt.fds.take Session.maxFds) (.passed sid) :=
      openFiles_act d [.receiveFds sid (pkt.fds.take Session.maxFds)]
    rw [hT, hheld]
    exact h.accounts.receive (h.fresh sid (hone.notMem hfor)) hnd hfree
  · have hne : k ≠ sid := by
      rintro rfl
      refine hk ?_
      rw [setUps_append]
      exact List.mem_append_right _ (mem_setUps_singleton.2 hfor)
    rw [hheld, Function.update_of_ne hne] at hfd
    exact (h.log e).fresh k hk fd hfd
  · rw [hheld, Function.update_apply] at hfd
    by_cases hks : k = sid
    · rw [if_pos hks] at hfd
      exact (hfree fd hfd).1
    · rw [if_neg hks] at hfd
      exact h.waiting k hk fd hfd

theorem enqueue (h : FilesHeld own es d) (hpos : ∀ fd ∈ d.held sid, 0 ≤ fd) :
    FilesHeld own es (d.enqueue sid) := by
  have hheld : (d.enqueue sid).held = d.held :=
    held_modifySession d sid (f := fun s => { s with status := .awaitingBoard }) (fun _ => rfl)
      fun _ => rfl
  refine ⟨?_, ?_, fun k hk => ?_⟩
  · rw [hheld]
    exact h.accounts
  · rw [hheld]
    exact h.fresh
  · rw [hheld]
    rcases List.mem_append.1 hk with hk | hk
    · exact h.waiting k hk
    · rw [List.mem_singleton.1 hk]
      exact hpos

theorem act (h : FilesHeld own es d) {as : List Action}
    (has : as.foldl Action.onTable (d.openFiles own) = d.openFiles own) :
    FilesHeld own es (d.act as) :=
  h.congr ((openFiles_act d as).trans has) rfl rfl

theorem moveProcess (h : FilesHeld own es d) (pid : Pid) (x y : ProcessState) :
    FilesHeld own es (d.moveProcess pid x y) := h.congr rfl rfl rfl

theorem askToWait {pkt : Packet} {r : Proto.Request} (h : FilesHeld own es d)
    (hone : AtMostOneSetup (es ++ [e])) (hdel : d.Delivered own e)
    (hreq : d.request? e = some (sid, pkt, r)) (hs : d.session sid = some s) (noWait : Bool) :
    FilesHeld own (es ++ [e]) (((d.introduce sid pkt r).enqueue sid).act
      (((d.introduce sid pkt r).enqueue sid).waitNotice sid (asked s pkt r).fdErr noWait)) := by
  obtain ⟨hlen, _, hfree⟩ := hdel.of_setup (of_request hreq).1
  refine ((h.introduce hone hdel hreq hs).enqueue ?_).act rfl
  rw [held_introduce r hs hlen, Function.update_self]
  exact fun fd hfd => (hfree fd hfd).1

theorem opens (h : FilesHeld own es d) (ho : Orderly es d) (hone : AtMostOneSetup (es ++ [e]))
    (hdel : d.Delivered own e) (hop : Opens e d d₁) : FilesHeld own (es ++ [e]) d₁ := by
  have hl := h.log e
  cases hop with
  | @accept cred ppid buffer now _ hnew =>
    have hheld := held_onClientConnecting hnew cred ppid buffer now
    have hnil : d.held d.counter = [] := by rw [held, ledger, hnew, Option.elim_none]
    refine hl.release (by decide) ?_ hheld fun k hk => ⟨hk, ?_⟩
    · rw [hnil]
      rfl
    · rintro rfl
      obtain ⟨u, hu, _⟩ := ho.settled.coherent.queued _ hk
      obtain ⟨s, hs, _⟩ := Option.map_eq_some_iff.1 hu
      rw [hnew] at hs
      cases hs
  | receive he hn =>
    subst he
    exact (hl.act (hdel.recvFds hn _)).modifySession _ (fun _ => rfl) fun _ => rfl
  | @hangUp sid recv sys he hr =>
    subst he
    have hn : (Event.clientData sid recv sys).setup? = none := by
      cases recv with
      | error _ => rfl
      | ok pkt => exact setup_eq_none_of_recvEnds hr
    exact (hl.act (hdel.recvFds hn _)).modifySession _ (fun _ => rfl) fun _ => rfl
  | wait hreq hs => exact h.askToWait hone hdel hreq hs false
  | @turnAway sid pkt r s hreq hs =>
    have hself := enqueue_session_self (session_introduce_self pkt r hs)
    exact (h.askToWait hone hdel hreq hs true).departed hself
  | @list sid pkt r s hreq hs =>
    have hself := session_introduce_self pkt r hs
    exact ((h.introduce hone hdel hreq hs).act rfl).departed hself
  | other hreq hs => exact h.introduce hone hdel hreq hs
  | move => exact hl.moveProcess _ _ _
  | reap => exact (hl.moveProcess _ _ _).modifySession _ (fun _ => rfl) fun _ => rfl
  | adjust _ hf =>
    refine hl.modifySession _ (fun s => ?_) fun s => ?_
    · exact congrArg (fun x => x.1) (hf s)
    · exact congrArg (fun x => [x.2.2.2.1, x.2.2.2.2.1, x.2.2.2.2.2]) (hf s)
  | flag => exact hl.congr rfl rfl rfl

theorem shuts (h : FilesHeld own es d) (hsh : Shuts d d₁) : FilesHeld own es d₁ := by
  cases hsh with
  | same => exact h
  | kill => exact h.act rfl
  | startClosing =>
    refine h.congr ?_ (held_startClosing _ _) (startClosing_fields _ _).2.1
    simp [openFiles, startClosing]
  | depart hs => exact h.departed hs

theorem serve {pkt : Packet} {r : Proto.Request} (h : FilesHeld own es d) (ho : Orderly es d)
    (hone : AtMostOneSetup (es ++ [e])) (hdel : d.Delivered own e)
    (hreq : d.request? e = some (sid, pkt, r)) (hs : d.session sid = some s)
    (hst : s.status = .created) (b : BoardSpec) (argv : List Bytes) (pid : Pid) (now : ℤ) :
    FilesHeld own (es ++ [e])
      ((d.introduce sid pkt r).grant sid i (asked s pkt r) b argv pid now) := by
  refine (h.introduce hone hdel hreq hs).grant (session_introduce_self pkt r hs) ?_ b argv pid now
  intro hmem
  obtain ⟨u, hu, hwait⟩ := ho.settled.coherent.queued sid hmem
  rw [view_tenant hs, Option.some.injEq] at hu
  subst hu
  rw [show s.tenant.status = s.status from rfl, hst] at hwait
  cases hwait

theorem dequeue (h : FilesHeld own es d) (sid : ℕ) : FilesHeld own es (d.dequeue sid) :=
  ⟨h.accounts, h.fresh, fun k hk => h.waiting k (List.mem_of_mem_filter hk)⟩

theorem handOver (h : FilesHeld own es d) (hs : d.session sid = some s) (b : BoardSpec)
    (argv : List Bytes) (pid : Pid) (now : ℤ) (x : Bool) :
    FilesHeld own es { (d.dequeue sid).grant sid i s b argv pid now with breakLoop := x } := by
  refine ((h.dequeue sid).grant hs ?_ b argv pid now).congr rfl rfl rfl
  intro hmem
  exact absurd rfl (of_decide_eq_true (List.mem_filter.1 hmem).2)

theorem step (h : FilesHeld own es d) (ho : Orderly es d) (hone : AtMostOneSetup (es ++ [e]))
    (hdel : d.Delivered own e) (hn : d.Next env e d') : FilesHeld own (es ++ [e]) d' := by
  cases course_of_next ho hone hn with
  | quiet hop hsh => exact ((h.opens ho hone hdel hop).shuts hsh).congr rfl rfl rfl
  | serve hreq hs hst => exact h.serve ho hone hdel hreq hs hst _ _ _ _
  | handOver hop hsh _ hs => exact ((h.opens ho hone hdel hop).shuts hsh).handOver hs _ _ _ _ _

end FilesHeld

theorem filesHeld_run
    (h : Run (fun d e d' => d.Next env e d' ∧ d.Delivered own e) (initial bs fs sd) es d)
    (hone : AtMostOneSetup es) : FilesHeld own es d := by
  refine h.history (fun es d => AtMostOneSetup es → FilesHeld own es d) ?_ ?_ hone
  · exact fun _ =>
      ⟨.initial fun _ => rfl, fun k _ fd hfd => (by cases hfd), fun k hk => (by cases hk)⟩
  · intro es t e u hr ih hn hone
    have ho := orderly_run (hr.mono fun _ _ _ hs => hs.1) hone.of_append
    exact (ih hone.of_append).step ho hone hn.2 hn.1

def Inherited (own : ℕ → Option Bool) (d : Daemon) (fd : ℤ) (f : OpenFile) : Prop :=
  (∃ n : ℕ, fd = n ∧ own n = some false ∧ f = .own n) ∨
    ∃ k n, 0 ≤ fd ∧ (d.held k)[n]? = some fd ∧ f = .passed k n

namespace FilesHeld

variable {fd : ℤ} {f : OpenFile} {c : Bool}

theorem exec_iff (h : FilesHeld own es d) :
    (d.openFiles own).exec fd = some (f, c) ↔ c = false ∧ d.Inherited own fd f := by
  rw [FdTable.exec_eq_some]
  cases f with
  | own n =>
    rw [h.accounts.own_iff]
    constructor
    · rintro ⟨⟨hfd, hc⟩, hfalse⟩
      subst hfalse
      exact ⟨rfl, .inl ⟨n, hfd, hc, rfl⟩⟩
    · rintro ⟨rfl, ⟨m, hfd, hc, hm⟩ | ⟨_, _, _, _, hm⟩⟩
      · cases hm
        exact ⟨⟨hfd, hc⟩, rfl⟩
      · cases hm
  | passed k n =>
    rw [h.accounts.passed_iff]
    constructor
    · rintro ⟨⟨hc, hpos, hmem⟩, _⟩
      exact ⟨hc, .inr ⟨k, n, hpos, hmem, rfl⟩⟩
    · rintro ⟨hc, ⟨_, _, _, hm⟩ | ⟨_, _, hpos, hmem, hm⟩⟩
      · cases hm
      · cases hm
        exact ⟨⟨hc, hpos, hmem⟩, hc⟩

theorem three_le (h : FilesHeld own es d) (hstd : ∀ n < 3, own n ≠ none) (hmem : fd ∈ d.held k)
    (hpos : 0 ≤ fd) : 3 ≤ fd := by
  by_contra hlt
  obtain ⟨m, rfl⟩ := Int.eq_ofNat_of_zero_le hpos
  obtain ⟨c, hc⟩ := Option.ne_none_iff_exists'.1 (hstd m (by omega))
  obtain ⟨n, hn⟩ := List.mem_iff_getElem?.1 hmem
  have hown := (h.accounts.own_iff m m c).2 ⟨rfl, hc⟩
  rw [(h.accounts.passed_iff m k n false).2 ⟨rfl, hpos, hn⟩] at hown
  cases hown

section StartProcess

variable (h : FilesHeld own es d) (hstd : ∀ n < 3, own n ≠ none) (hs : d.session k = some s)
  (hpos : ∀ fd ∈ d.held k, 0 ≤ fd)
include h hstd hs hpos

theorem stdio_disjoint : ∀ p ∈ [(s.fdIn, (0 : ℤ)), (s.fdOut, 1), (s.fdErr, 2)],
    ∀ q ∈ [(s.fdIn, (0 : ℤ)), (s.fdOut, 1), (s.fdErr, 2)], p.1 ≠ q.2 := by
  have hge : ∀ x ∈ [s.fdIn, s.fdOut, s.fdErr], 3 ≤ x := by
    have hheld : d.held k = [s.fdIn, s.fdOut, s.fdErr] := held_of_session hs
    rw [← hheld]
    exact fun x hx => h.three_le hstd hx (hpos x hx)
  intro p hp q hq
  have hpge : 3 ≤ p.1 := hge p.1 (List.mem_map_of_mem (f := Prod.fst) hp)
  have hqlt : q.2 ∈ [(0 : ℤ), 1, 2] := List.mem_map_of_mem (f := Prod.snd) hq
  simp only [List.mem_cons, List.not_mem_nil, or_false] at hqlt
  omega

theorem startProcess_stdio {n : ℕ} (hn : n < 3) :
    (d.openFiles own).startProcess s.fdIn s.fdOut s.fdErr n = some (.passed k n, false) := by
  have hheld : d.held k = [s.fdIn, s.fdOut, s.fdErr] := held_of_session hs
  obtain ⟨x, hx⟩ : ∃ x, [s.fdIn, s.fdOut, s.fdErr][n]? = some x :=
    ⟨_, List.getElem?_eq_getElem (by simpa using hn)⟩
  have hfile : d.openFiles own x = some (.passed k n, false) := by
    rw [← hheld] at hx
    exact (h.accounts.passed_iff x k n false).2 ⟨rfl, hpos x (List.mem_of_getElem? hx), hx⟩
  have hmem : (x, (n : ℤ)) ∈ [(s.fdIn, (0 : ℤ)), (s.fdOut, 1), (s.fdErr, 2)] := by
    obtain rfl | rfl | rfl : n = 0 ∨ n = 1 ∨ n = 2 := by omega
    all_goals
      cases hx
      simp
  rw [OpenFiles.startProcess, FdTable.exec_eq_some]
  exact ⟨FdTable.redirect_of_mem (by simp) (h.stdio_disjoint hstd hs hpos) hmem hfile, rfl⟩

theorem startProcess_iff {es' : List Event} (h' : FilesHeld own es' d')
    (hT : d'.openFiles own = (d.held k).foldl FdTable.close (d.openFiles own)) :
    (d.openFiles own).startProcess s.fdIn s.fdOut s.fdErr fd = some (f, c) ↔ c = false ∧
      ((∃ n : ℕ, n < 3 ∧ fd = n ∧ f = .passed k n) ∨ 3 ≤ fd ∧ d'.Inherited own fd f) := by
  by_cases hlow : ∃ n : ℕ, n < 3 ∧ fd = n
  · obtain ⟨n, hn, rfl⟩ := hlow
    rw [h.startProcess_stdio hstd hs hpos hn]
    constructor
    · intro hfc
      cases hfc
      exact ⟨rfl, .inl ⟨n, hn, rfl, rfl⟩⟩
    · rintro ⟨rfl, ⟨m, _, hm, rfl⟩ | ⟨hthree, _⟩⟩
      · rw [Int.natCast_inj.1 hm]
      · omega
  · have hnot : fd ∉ [(s.fdIn, (0 : ℤ)), (s.fdOut, 1), (s.fdErr, 2)].map Prod.snd := by
      intro hmem
      simp only [List.map_cons, List.map_nil, List.mem_cons, List.not_mem_nil, or_false] at hmem
      exact hlow ⟨fd.toNat, by omega, by omega⟩
    have hsame : (d.openFiles own).startProcess s.fdIn s.fdOut s.fdErr fd =
        (d'.openFiles own).exec fd := by
      rw [OpenFiles.startProcess, FdTable.exec, FdTable.exec, FdTable.redirect_of_notMem hnot, hT,
        FdTable.closes_apply, held, held_of_session hs]
      rfl
    rw [hsame, h'.exec_iff]
    refine and_congr_right fun _ => ⟨fun hinh => .inr ⟨?_, hinh⟩, fun hor => ?_⟩
    · have hfd : 0 ≤ fd := by
        rcases hinh with ⟨m, rfl, _⟩ | ⟨_, _, hfd, _⟩
        · exact Int.natCast_nonneg m
        · exact hfd
      by_contra hlt
      exact hlow ⟨fd.toNat, by omega, by omega⟩
    · rcases hor with ⟨n, hn, hfd, _⟩ | ⟨_, hinh⟩
      · exact absurd ⟨n, hn, hfd⟩ hlow
      · exact hinh

end StartProcess

end FilesHeld

/-- The files of the process `p` that was started in the callback that ended in `d`: what
they are, and how they were set up. -/
def StartedWith (own : ℕ → Option Bool) (d : Daemon) (p : Process) : Prop :=
  match p.stdio with
  | some (fdIn, fdOut, fdErr) => ∃ pre, d.trace =
      pre ++ [.close p.session fdIn, .close p.session fdOut, .close p.session fdErr] ∧
      ∀ fd f c, (OpenFiles.after own pre).startProcess fdIn fdOut fdErr fd = some (f, c) ↔
        c = false ∧ ((∃ n : ℕ, n < 3 ∧ fd = n ∧ f = .passed p.session n) ∨
          3 ≤ fd ∧ d.Inherited own fd f)
  | none => ∀ fd f c, (d.openFiles own).startCloseCommand fd = some (f, c) ↔
      c = false ∧ d.Inherited own fd f

theorem StartedWith.grant {es' : List Event} {b : BoardSpec} {argv : List Bytes} {pid : Pid}
    {now : ℤ} {x : Bool} (h : FilesHeld own es d) (hstd : ∀ n < 3, own n ≠ none)
    (hs : d.session sid = some s) (hpos : ∀ fd ∈ d.held sid, 0 ≤ fd)
    (h' : FilesHeld own es' { d.grant sid i s b argv pid now with breakLoop := x }) :
    StartedWith own { d.grant sid i s b argv pid now with breakLoop := x }
      ⟨pid, .command, sid, i, argv, some (s.fdIn, s.fdOut, s.fdErr), .running⟩ :=
  ⟨_, grant_trace b argv pid now, fun fd f c => (by
    change ((d.act _).openFiles own).startProcess _ _ _ fd = _ ↔ _
    rw [openFiles_act]
    exact h.startProcess_iff hstd hs hpos h' (openFiles_grant hs b argv pid now))⟩

theorem departed_length (hs : d.session sid = some s) :
    (d.departed sid).processes.length = d.processes.length := by
  rw [(departed_fields hs).2.1]

theorem length_of_opens (h : Opens e d d₁) : d₁.processes.length = d.processes.length := by
  cases h with
  | turnAway _ hs => exact departed_length (enqueue_session_self (session_introduce_self _ _ hs))
  | list _ hs => exact departed_length (session_introduce_self _ _ hs)
  | move => exact List.length_map _
  | reap => exact List.length_map _
  | _ => rfl

theorem startedWith_of_next {p : Process} (h : FilesHeld own es d) (ho : Orderly es d)
    (hone : AtMostOneSetup (es ++ [e])) (hdel : d.Delivered own e) (hstd : ∀ n < 3, own n ≠ none)
    (hn : d.Next env e d') (hlt : d.processes.length < d'.processes.length)
    (hp : d'.processes.getLast? = some p) : d'.StartedWith own p := by
  have h' := h.step ho hone hdel hn
  cases course_of_next ho hone hn with
  | @quiet d₁ d₂ b hop hsh =>
    have hlen := length_of_opens hop
    cases hsh with
    | same => exact absurd hlen (Nat.ne_of_gt hlt)
    | kill => exact absurd hlen (Nat.ne_of_gt hlt)
    | depart hs => exact absurd ((departed_length hs).trans hlen) (Nat.ne_of_gt hlt)
    | @startClosing sid i s argv pid hs =>
      change (d₁.startClosing sid i argv pid).processes.getLast? = some p at hp
      rw [(startClosing_fields argv pid).2.2.1, List.getLast?_concat, Option.some.injEq] at hp
      subst hp
      exact fun fd f c => h'.exec_iff
  | @serve sid i pkt r s b argv pid now hreq hs hst =>
    obtain ⟨hlen, _, hfree⟩ := hdel.of_setup (of_request hreq).1
    rw [(grant_fields b argv pid now).2.1, List.getLast?_concat, Option.some.injEq] at hp
    subst hp
    refine StartedWith.grant (h.introduce hone hdel hreq hs) hstd (session_introduce_self pkt r hs)
      ?_ h'
    rw [held_introduce r hs hlen, Function.update_self]
    exact fun fd hfd => (hfree fd hfd).1
  | @handOver d₁ d₂ v i t b argv pid now x hop hsh hv hs =>
    have h₂ := (h.opens ho hone hdel hop).shuts hsh
    change ((d₂.dequeue v).grant v i t b argv pid now).processes.getLast? = some p at hp
    rw [(grant_fields b argv pid now).2.1, List.getLast?_concat, Option.some.injEq] at hp
    subst hp
    exact StartedWith.grant (h₂.dequeue v) hstd hs (h₂.waiting v hv) h'

/-- A command has the terminal of its user as its standard files. Apart from them a child
has what the daemon left open, and this includes the terminal of every user who waits. -/
theorem child_descriptors {p : Process}
    (h : Run (fun d e d' => d.Next env e d' ∧ d.Delivered own e) (initial bs fs sd) es d)
    (hone : AtMostOneSetup (es ++ [e])) (hdel : d.Delivered own e)
    (hstd : ∀ n < 3, own n ≠ none) (hn : d.Next env e d')
    (hlt : d.processes.length < d'.processes.length) (hp : d'.processes.getLast? = some p) :
    d'.StartedWith own p ∧
      ∀ k ∈ d'.waitQueue, (d'.held k).length = 3 ∧ ∀ fd ∈ d'.held k, 3 ≤ fd := by
  have hr := h.mono fun _ _ _ hs => hs.1
  have ho := orderly_run hr hone.of_append
  have ho' := orderly_run (hr.snoc hn) hone
  have ht := filesHeld_run h hone.of_append
  have ht' := ht.step ho hone hdel hn
  refine ⟨startedWith_of_next ht ho hone hdel hstd hn hlt hp, fun k hk => ⟨?_, fun fd hfd => ?_⟩⟩
  · obtain ⟨u, hu, _⟩ := ho'.settled.coherent.queued k hk
    obtain ⟨s, hs, _⟩ := exists_of_view_tenant hu
    rw [held, held_of_session hs]
    rfl
  · exact ht'.three_le hstd hfd (ht'.waiting k hk fd hfd)

theorem child_descriptors_two_waiting : ∃ d d' p,
    (Run (fun d e d' => d.Next Sample.env e d' ∧ d.Delivered Sample.own e)
      (initial [Sample.board [] []] [] false) Sample.threeUsers d ∧
      d.Next Sample.env (.childReaped 100 (Sample.sys 101)) d' ∧
      d'.processes.getLast? = some p ∧ p.session = 1 ∧ d'.held 2 = [6, 7, 8]) ∧
    d'.StartedWith Sample.own p ∧
      ∀ k ∈ d'.waitQueue, (d'.held k).length = 3 ∧ ∀ fd ∈ d'.held k, 3 ≤ fd := by
  obtain ⟨d, hr, hd⟩ : ∃ d, Run (fun d e d' => d.Next Sample.env e d' ∧ d.Delivered Sample.own e)
      (initial [Sample.board [] []] [] false) Sample.threeUsers d ∧
      (d.processes.length, (d.next Sample.env (.childReaped 100 (Sample.sys 101))).map fun d' =>
        (d'.processes.length, d'.processes.getLast?.map Process.session, d'.held 2)) =
        (1, some (2, some 1, [6, 7, 8])) :=
    exists_guarded_run (fun d : Daemon => (d.processes.length,
      (d.next Sample.env (.childReaped 100 (Sample.sys 101))).map fun d' =>
        (d'.processes.length, d'.processes.getLast?.map Process.session, d'.held 2)))
      (by decide +kernel)
  obtain ⟨hlen, hd⟩ := Prod.mk.inj hd
  obtain ⟨d', hn, hd'⟩ := Option.map_eq_some_iff.1 hd
  simp only [Prod.mk.injEq, Option.map_eq_some_iff] at hd'
  obtain ⟨hlen', ⟨p, hp, hsid⟩, hheld⟩ := hd'
  have hdel : d.Delivered Sample.own (.childReaped 100 (Sample.sys 101)) := trivial
  exact ⟨d, d', p, ⟨hr, hn, hp, hsid, hheld⟩, child_descriptors hr (by decide +kernel) hdel
    (by decide) hn (by omega) hp⟩

end Daemon
end BoardProxy
