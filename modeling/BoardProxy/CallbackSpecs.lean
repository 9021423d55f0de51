import BoardProxy.EventLoop

/-!
# What each method can do

One inversion theorem for each method that returns, in terms of a few named
updates: a session is granted a board, starts its close command, or is
destroyed. Later proofs cite these theorems and the observers of the updates,
and never unfold a method.
-/

namespace BoardProxy

def Packet.fd (pkt : Packet) (n : ℕ) : ℤ := (pkt.fds.take Session.maxFds).getD n (pkt.stale n)

namespace Session

def granted (i : ℕ) (pid : Pid) (now : ℤ) (s : Session) : Session :=
  { s with
    status := .hasBoard
    board := some i
    boardSince := now
    fdIn := -1
    fdOut := -1
    fdErr := -1
    childWatcher := some ⟨pid, .onProcessExit⟩ }

def closing (pid : Pid) (s : Session) : Session :=
  { s with status := .closingBoard, childWatcher := some ⟨pid, .onCloseCommandExit⟩ }

def received (data : Bytes) (s : Session) : Session := { s with buffer := s.buffer.store data }

def introduced (pkt : Packet) (r : Proto.Request) (s : Session) : Session :=
  { s with
    fdIn := (pkt.fds.take maxFds).getD 0 (pkt.stale 0)
    fdOut := (pkt.fds.take maxFds).getD 1 (pkt.stale 1)
    fdErr := (pkt.fds.take maxFds).getD 2 (pkt.stale 2)
    ppid := r.ppid
    username := r.username }

def hungUp (s : Session) : Session := { s with clientWatcher := false }

def withProxies (f : List Proxy → List Proxy) (n : ℕ) (s : Session) : Session :=
  { s with proxies := f s.proxies, proxyCnt := s.proxyCnt + n }

end Session

namespace Daemon

variable {env : Env} {sys : Sys} {d d' : Daemon} {sid k i j : ℕ} {s : Session}

def grant (d : Daemon) (sid i : ℕ) (s : Session) (b : BoardSpec) (argv : List Bytes) (pid : Pid)
    (now : ℤ) : Daemon :=
  ((((((d.modifySession sid fun s => { s with
      status := .hasBoard
      board := some i
      boardSince := now }).modifyBoard i (Board.acquire sid)).act
    [.dprintf sid s.fdErr (ascii "Connecting to board " ++ cStr b.id ++ [10])]).setProcesses
    (d.processes ++
      [⟨pid, .command, sid, i, argv, some (s.fdIn, s.fdOut, s.fdErr), .running⟩])).act
    [.close sid s.fdIn, .close sid s.fdOut, .close sid s.fdErr]).modifySession sid
      fun s => { s with
        fdIn := -1
        fdOut := -1
        fdErr := -1
        childWatcher := some ⟨pid, .onProcessExit⟩ })

theorem grant_session (b : BoardSpec) (argv : List Bytes) (pid : Pid) (now : ℤ) :
    (d.grant sid i s b argv pid now).session k =
      if k = sid then (d.session sid).map (Session.granted i pid now) else d.session k := by
  simp only [grant, session_act, session_setProcesses, session_modifyBoard, implies_true,
    session_modifySession, Option.map_map, ↓reduceIte]
  by_cases hk : k = sid
  · simp only [hk, ↓reduceIte]
    rfl
  · simp only [hk, ↓reduceIte]

theorem grant_owner (hi : i < d.boards.length) (b : BoardSpec) (argv : List Bytes) (pid : Pid)
    (now : ℤ) :
    (d.grant sid i s b argv pid now).owner j = if j = i then some sid else d.owner j := by
  simp only [grant, owner_modifySession, owner_act, owner_setProcesses]
  rw [owner_acquire]
  · simp
  · simpa using hi

theorem grant_spec (b : BoardSpec) (argv : List Bytes) (pid : Pid) (now : ℤ) :
    (d.grant sid i s b argv pid now).spec j = d.spec j := by
  simp [grant]

theorem grant_keys (b : BoardSpec) (argv : List Bytes) (pid : Pid) (now : ℤ) :
    (d.grant sid i s b argv pid now).sessions.map Session.id = d.sessions.map Session.id := by
  simp [grant, KeyedList.keys_modify]

theorem grant_fields (b : BoardSpec) (argv : List Bytes) (pid : Pid) (now : ℤ) :
    (d.grant sid i s b argv pid now).waitQueue = d.waitQueue ∧
    (d.grant sid i s b argv pid now).processes = d.processes ++
      [⟨pid, .command, sid, i, argv, some (s.fdIn, s.fdOut, s.fdErr), .running⟩] ∧
    (d.grant sid i s b argv pid now).counter = d.counter := by
  simp [grant]

theorem deref_returned {f : Session → Outcome Daemon} :
    d.deref sid f = .returned d' ↔ ∃ s, d.session sid = some s ∧ f s = .returned d' := by
  cases h : d.session sid <;> simp [deref, h]

theorem derefBoard_returned {f : ℕ → BoardSpec → Outcome Daemon} :
    d.derefBoard s f = .returned d' ↔
      ∃ i b, s.board = some i ∧ d.spec i = some b ∧ f i b = .returned d' := by
  cases hb : s.board with
  | none => simp [derefBoard, hb]
  | some i => cases hs : d.spec i <;> simp [derefBoard, hb, hs]

theorem dprintf_returned {fd : ℤ} {text : Bytes} : d.dprintf sys sid fd text = .returned d' ↔
    sys.brokenPipe fd = false ∧ d' = d.act [.dprintf sid fd text] := by
  cases hp : sys.brokenPipe fd <;> simp [dprintf, hp, eq_comm]

theorem printStatus_returned {fd : ℤ} (h : d.printStatus sys sid fd = .returned d') :
    d' = d.act [.printStatus sid fd d.statusLines] := by
  unfold printStatus at h
  split_ifs at h
  exact (Outcome.returned.inj h).symm

theorem startProcess_returned (h : Session.startProcess env sys d sid = .returned d') :
    ∃ s i b argv pid, d.session sid = some s ∧ s.board = some i ∧ d.spec i = some b ∧
      env.splitUnix b.command = some argv ∧ sys.fork = .ok pid ∧
      d' = ((d.setProcesses (d.processes ++
        [⟨pid, .command, sid, i, argv, some (s.fdIn, s.fdOut, s.fdErr), .running⟩])).act
        [.close sid s.fdIn, .close sid s.fdOut, .close sid s.fdErr]).modifySession sid
          fun s => { s with
            fdIn := -1
            fdOut := -1
            fdErr := -1
            childWatcher := some ⟨pid, .onProcessExit⟩ } := by
  obtain ⟨s, hs, h⟩ := deref_returned.1 h
  obtain ⟨i, b, hi, hb, h⟩ := derefBoard_returned.1 h
  cases hc : env.splitUnix b.command with
  | none => simp [hc] at h
  | some argv =>
    cases hf : sys.fork with
    | error e => simp [hc, hf] at h
    | ok pid =>
      simp only [hc, hf, Outcome.returned.injEq] at h
      exact ⟨s, i, b, argv, pid, hs, hi, hb, hc, rfl, h.symm⟩

theorem not_brokenPipe_of_assignBoard (hs : d.session sid = some s)
    (h : Session.assignBoard env sys d sid i = .returned d') : sys.brokenPipe s.fdErr = false := by
  obtain ⟨t, ht, h⟩ := deref_returned.1 h
  obtain rfl := Option.some.inj (hs.symm.trans ht)
  cases hb : d.spec i with
  | none => simp [hb] at h
  | some b =>
    simp only [hb] at h
    obtain ⟨d₁, h₁, _⟩ := Outcome.bind_eq_returned.1 h
    exact (dprintf_returned.1 h₁).1

theorem sessionAssignBoard_returned (h : Session.assignBoard env sys d sid i = .returned d') :
    ∃ s b argv pid, d.session sid = some s ∧ d.spec i = some b ∧
      env.splitUnix b.command = some argv ∧ sys.fork = .ok pid ∧
      d' = d.grant sid i s b argv pid sys.now := by
  obtain ⟨s, hs, h⟩ := deref_returned.1 h
  cases hb : d.spec i with
  | none => simp [hb] at h
  | some b =>
    simp only [hb] at h
    obtain ⟨d₁, h₁, h⟩ := Outcome.bind_eq_returned.1 h
    obtain ⟨_, rfl⟩ := dprintf_returned.1 h₁
    obtain ⟨t, j, c, argv, pid, ht, hj, hc, ha, hf, rfl⟩ := startProcess_returned h
    simp only [session_act, session_modifyBoard, implies_true, session_modifySession, ↓reduceIte,
      hs, Option.map_some, Option.some.injEq] at ht
    subst ht
    simp only [Option.some.injEq] at hj
    subst hj
    simp only [spec_act, spec_acquire, spec_modifySession, hb, Option.some.injEq] at hc
    subst hc
    exact ⟨s, b, argv, pid, hs, rfl, ha, hf, rfl⟩

theorem destroy_owner (hs : d.session sid = some s) :
    (Session.destroy d sid).owner j = if s.board = some j then none else d.owner j := by
  simp only [Session.destroy, hs]
  cases hb : s.board with
  | none => simp
  | some i =>
    simp only [owner_removeSession, owner_act, owner_release, Option.some.injEq]
    by_cases hj : j = i
    · simp [hj]
    · simp [hj, Ne.symm hj]

theorem destroy_session :
    (Session.destroy d sid).session k = if k = sid then none else d.session k := by
  cases hs : d.session sid with
  | none =>
    by_cases hk : k = sid
    · simp [Session.destroy, hs, hk]
    · simp [Session.destroy, hs, hk]
  | some s => cases hb : s.board <;> simp [Session.destroy, hs, hb]

theorem destroy_spec : (Session.destroy d sid).spec j = d.spec j := by
  cases hs : d.session sid with
  | none => simp [Session.destroy, hs]
  | some s => cases hb : s.board <;> simp [Session.destroy, hs, hb]

theorem destroy_fields (hs : d.session sid = some s) :
    (Session.destroy d sid).waitQueue = d.waitQueue ∧
    (Session.destroy d sid).processes = d.processes ∧
    (Session.destroy d sid).counter = d.counter ∧
    (Session.destroy d sid).sessions = KeyedList.remove Session.id sid d.sessions := by
  cases hb : s.board <;> simp [Session.destroy, hs, hb]

theorem destroy_trace (hs : d.session sid = some s) : (Session.destroy d sid).trace =
    d.trace ++ [.close sid s.fdIn, .close sid s.fdOut, .close sid s.fdErr] := by
  cases hb : s.board <;> simp [Session.destroy, hs, hb]

@[simp] theorem dequeue_session : (d.dequeue sid).session k = d.session k := rfl
@[simp] theorem dequeue_owner : (d.dequeue sid).owner j = d.owner j := rfl
@[simp] theorem dequeue_spec : (d.dequeue sid).spec j = d.spec j := rfl

/-- The state in which the destructor has run and the queue is looked at. -/
def departed (d : Daemon) (sid : ℕ) : Daemon :=
  Session.destroy ((d.act [.closeSession sid]).dequeue sid) sid

theorem departed_session : (d.departed sid).session k = if k = sid then none else d.session k :=
  destroy_session

theorem departed_owner (hs : d.session sid = some s) :
    (d.departed sid).owner j = if s.board = some j then none else d.owner j :=
  destroy_owner (d := (d.act _).dequeue sid) hs

theorem departed_spec : (d.departed sid).spec j = d.spec j := destroy_spec

theorem lt_departed_boards {b : BoardSpec} (hb : d.spec j = some b) :
    j < ((d.departed sid).dequeue k).boards.length :=
  lt_of_spec _ j (by rw [dequeue_spec, departed_spec, hb])

theorem departed_fields (hs : d.session sid = some s) :
    (d.departed sid).waitQueue = d.waitQueue.filter (fun k => k ≠ sid) ∧
    (d.departed sid).processes = d.processes ∧ (d.departed sid).counter = d.counter ∧
    (d.departed sid).sessions = KeyedList.remove Session.id sid d.sessions :=
  destroy_fields (d := (d.act _).dequeue sid) hs

theorem departed_trace (hs : d.session sid = some s) : (d.departed sid).trace =
    d.trace ++ [.closeSession sid, .close sid s.fdIn, .close sid s.fdOut, .close sid s.fdErr] := by
  refine (destroy_trace (d := (d.act _).dequeue sid) hs).trans ?_
  change (d.trace ++ [_]) ++ _ = _
  rw [List.append_assoc, List.singleton_append]

theorem serveWaiting_returned (h : serveWaiting env sys d = .returned d') :
    (d.findWaiting d.waitQueue = .ok none ∧ d' = d) ∨
    ∃ v i, d.findWaiting d.waitQueue = .ok (some (v, i)) ∧
      Session.assignBoard env sys (d.dequeue v) v i = .returned d' := by
  unfold serveWaiting at h
  cases hf : d.findWaiting d.waitQueue with
  | error f => simp [hf] at h
  | ok r =>
    cases r with
    | none =>
      simp only [hf, Outcome.returned.injEq] at h
      exact Or.inl ⟨rfl, h.symm⟩
    | some vi =>
      simp only [hf] at h
      exact Or.inr ⟨vi.1, vi.2, rfl, h⟩

theorem findWaiting_none {q : List ℕ} : d.findWaiting q = .ok none ↔
    ∀ k ∈ q, ∃ s, d.session k = some s ∧ d.findAvailableBoard s.getUsername = none := by
  induction q with
  | nil => simp [findWaiting]
  | cons v q ih =>
    cases hs : d.session v with
    | none => simp [findWaiting, hs]
    | some s =>
      cases hf : d.findAvailableBoard s.getUsername with
      | some i => simp [findWaiting, hs, hf]
      | none => simp [findWaiting, hs, hf, ih]

theorem findWaiting_some {q : List ℕ} {v : ℕ} (h : d.findWaiting q = .ok (some (v, i))) :
    ∃ pre post s, q = pre ++ v :: post ∧ d.session v = some s ∧
      d.findAvailableBoard s.getUsername = some i ∧
      ∀ k ∈ pre, ∃ t, d.session k = some t ∧ d.findAvailableBoard t.getUsername = none := by
  induction q with
  | nil => simp [findWaiting] at h
  | cons u q ih =>
    cases hs : d.session u with
    | none => simp [findWaiting, hs] at h
    | some s =>
      cases hf : d.findAvailableBoard s.getUsername with
      | some j =>
        simp only [findWaiting, hs, hf, Except.ok.injEq, Option.some.injEq, Prod.mk.injEq] at h
        obtain ⟨rfl, rfl⟩ := h
        exact ⟨[], q, s, rfl, hs, hf, by simp⟩
      | none =>
        simp only [findWaiting, hs, hf] at h
        obtain ⟨pre, post, t, rfl, ht, hft, hpre⟩ := ih h
        refine ⟨u :: pre, post, t, rfl, ht, hft, ?_⟩
        intro k hk
        rcases List.mem_cons.1 hk with rfl | hk
        · exact ⟨s, hs, hf⟩
        · exact hpre k hk

theorem findAvailableBoard_some {name : Bytes} (h : d.findAvailableBoard name = some i) :
    d.owner i = none ∧ ∃ b, d.spec i = some b ∧ b.Eligible name := by
  have key : ∀ p : Board → Bool, d.boards.findIdx? p = some i →
      ∃ b, d.boards[i]? = some b ∧ p b = true := by
    intro p hp
    obtain ⟨hi, hb, _⟩ := List.findIdx?_eq_some_iff_getElem.1 hp
    exact ⟨d.boards[i], List.getElem?_eq_getElem hi, hb⟩
  unfold findAvailableBoard at h
  split at h
  · rename_i j hj
    obtain rfl : j = i := by simpa using h
    obtain ⟨b, hb, hp⟩ := key _ hj
    simp only [Board.isAvailable, Bool.and_eq_true, Option.isNone_iff_eq_none,
      decide_eq_true_eq] at hp
    exact ⟨by simp [owner, hb, hp.1.1], b.toBoardSpec, by simp [spec, hb], Or.inr hp.2⟩
  · obtain ⟨b, hb, hp⟩ := key _ h
    simp only [Board.isAvailable, Bool.and_eq_true, Option.isNone_iff_eq_none,
      decide_eq_true_eq] at hp
    exact ⟨by simp [owner, hb, hp.1], b.toBoardSpec, by simp [spec, hb], Or.inl hp.2⟩

theorem findAvailableBoard_none {name : Bytes} :
    d.findAvailableBoard name = none ↔
      ∀ i b, d.spec i = some b → d.owner i = none → ¬b.Eligible name := by
  have hmem : ∀ P : Board → Prop, (∀ b ∈ d.boards, P b) ↔
      ∀ (i : ℕ) b, d.boards[i]? = some b → P b := by
    intro P
    constructor
    · intro h i b hb
      exact h b (List.mem_of_getElem? hb)
    · intro h b hb
      obtain ⟨i, hi⟩ := List.mem_iff_getElem?.1 hb
      exact h i b hi
  have hfind : d.findAvailableBoard name = none ↔
      ∀ b ∈ d.boards, b.owner = none → ¬b.toBoardSpec.Eligible name := by
    unfold findAvailableBoard
    split
    · rename_i i hi
      obtain ⟨hlt, hb, _⟩ := List.findIdx?_eq_some_iff_getElem.1 hi
      simp only [Board.isAvailable, Bool.and_eq_true, Option.isNone_iff_eq_none,
        decide_eq_true_eq] at hb
      constructor
      · intro h
        simp at h
      · intro h
        exact absurd (Or.inr hb.2) (h _ (List.getElem_mem hlt) hb.1.1)
    · rename_i hr
      rw [List.findIdx?_eq_none_iff] at hr ⊢
      refine forall₂_congr fun b hb => ?_
      have hrb := hr b hb
      simp only [Board.isAvailable, Bool.and_eq_false_iff, Option.isNone_eq_false_iff,
        Option.isSome_iff_ne_none, decide_eq_false_iff_not] at hrb ⊢
      unfold BoardSpec.Eligible
      tauto
  rw [hfind, hmem]
  constructor
  · intro h i c hc ho
    obtain ⟨b, hb, rfl⟩ := Option.map_eq_some_iff.1 hc
    exact h i b hb (by simpa [owner, hb] using ho)
  · intro h i b hb ho
    exact h i _ (by simp [spec, hb]) (by simp [owner, hb, ho])

theorem daemonAssignBoard_returned (h : Daemon.assignBoard env sys d sid = .returned d') :
    ∃ s, d.session sid = some s ∧
      ((∃ i, d.findAvailableBoard s.getUsername = some i ∧
          Session.assignBoard env sys d sid i = .returned d') ∨
        (d.findAvailableBoard s.getUsername = none ∧ d' = d.setQueue (d.waitQueue ++ [sid]))) := by
  obtain ⟨s, hs, h⟩ := deref_returned.1 h
  refine ⟨s, hs, ?_⟩
  cases hf : d.findAvailableBoard s.getUsername with
  | some i =>
    simp only [hf] at h
    exact Or.inl ⟨i, rfl, h⟩
  | none =>
    simp only [hf, Outcome.returned.injEq] at h
    exact Or.inr ⟨rfl, h.symm⟩

def startClosing (d : Daemon) (sid i : ℕ) (argv : List Bytes) (pid : Pid) : Daemon :=
  (((d.modifySession sid fun s => { s with status := .closingBoard }).setProcesses
    (d.processes ++ [⟨pid, .closeCommand, sid, i, argv, none, .running⟩])).modifySession sid
      fun s => { s with childWatcher := some ⟨pid, .onCloseCommandExit⟩ })

theorem startClosing_session (argv : List Bytes) (pid : Pid) :
    (d.startClosing sid i argv pid).session k =
      if k = sid then (d.session sid).map (Session.closing pid) else d.session k := by
  simp only [startClosing, session_setProcesses, implies_true, session_modifySession,
    Option.map_map, ↓reduceIte]
  by_cases hk : k = sid
  · simp only [hk, ↓reduceIte]
    rfl
  · simp only [hk, ↓reduceIte]

theorem startClosing_keys (argv : List Bytes) (pid : Pid) :
    (d.startClosing sid i argv pid).sessions.map Session.id = d.sessions.map Session.id := by
  simp [startClosing, KeyedList.keys_modify]

theorem startClosing_fields (argv : List Bytes) (pid : Pid) :
    (d.startClosing sid i argv pid).boards = d.boards ∧
    (d.startClosing sid i argv pid).waitQueue = d.waitQueue ∧
    (d.startClosing sid i argv pid).processes =
      d.processes ++ [⟨pid, .closeCommand, sid, i, argv, none, .running⟩] ∧
    (d.startClosing sid i argv pid).counter = d.counter := by
  simp [startClosing]

theorem startCloseCommand_returned (hs : d.session sid = some s) (hi : s.board = some i)
    (h : Session.startCloseCommand env sys
      (d.modifySession sid fun s => { s with status := .closingBoard }) sid = .returned d') :
    ∃ b argv pid, d.spec i = some b ∧ env.splitUnix b.closeCommand = some argv ∧
      sys.fork = .ok pid ∧ d' = d.startClosing sid i argv pid := by
  obtain ⟨t, ht, h⟩ := deref_returned.1 h
  obtain ⟨j, b, hj, hb, h⟩ := derefBoard_returned.1 h
  simp only [implies_true, session_modifySession, ↓reduceIte, hs, Option.map_some,
    Option.some.injEq] at ht
  subst ht
  simp only [hi, Option.some.injEq] at hj
  subst hj
  cases hc : env.splitUnix b.closeCommand with
  | none => simp [hc] at h
  | some argv =>
    cases hf : sys.fork with
    | error e => simp [hc, hf] at h
    | ok pid =>
      simp only [hc, hf, Outcome.returned.injEq] at h
      exact ⟨b, argv, pid, hb, hc, rfl, h.symm⟩

theorem daemonCloseSession_returned (h : Daemon.closeSession env sys d sid = .returned d') :
    ∃ d₁, serveWaiting env sys (d.departed sid) = .returned d₁ ∧ d' = d₁.exitIfIdle := by
  obtain ⟨d₁, h₁, rfl⟩ := Outcome.map_eq_returned.1 h
  exact ⟨d₁, h₁, rfl⟩

theorem closeSession_returned (h : Session.closeSession env sys d sid = .returned d') :
    ∃ s, d.session sid = some s ∧
      ((∃ c, s.status = .hasBoard ∧ s.childWatcher = some c ∧ d' = d.act [.kill sid c.pid]) ∨
      (∃ i b argv pid, s.status = .hasBoard ∧ s.childWatcher = none ∧ s.board = some i ∧
        d.spec i = some b ∧ b.closeCommand ≠ [] ∧ sys.fork = .ok pid ∧
        d' = d.startClosing sid i argv pid) ∨
      ((s.status = .hasBoard → s.childWatcher = none ∧
          ∃ i b, s.board = some i ∧ d.spec i = some b ∧ b.closeCommand = []) ∧
        Daemon.closeSession env sys d sid = .returned d')) := by
  unfold Session.closeSession at h
  split at h
  · cases h
  rename_i s hs
  refine ⟨s, hs, ?_⟩
  by_cases hst : s.status = .hasBoard
  · cases hc : s.childWatcher with
    | some c =>
      simp only [hst, ↓reduceIte, hc, Outcome.returned.injEq] at h
      exact Or.inl ⟨c, hst, rfl, h.symm⟩
    | none =>
      simp only [hst, ↓reduceIte, hc] at h
      obtain ⟨i, b, hi, hb, h⟩ := derefBoard_returned.1 h
      by_cases hcc : b.closeCommand = []
      · simp only [hcc, ↓reduceIte] at h
        exact Or.inr (Or.inr ⟨fun _ => ⟨rfl, i, b, hi, hb, hcc⟩, h⟩)
      · simp only [hcc, ↓reduceIte] at h
        obtain ⟨c, argv, pid, hcs, _, hf, rfl⟩ := startCloseCommand_returned hs hi h
        exact Or.inr (Or.inl ⟨i, b, argv, pid, hst, rfl, hi, hb, hcc, hf, rfl⟩)
  · simp only [hst, ↓reduceIte] at h
    exact Or.inr (Or.inr ⟨fun h' => absurd h' hst, h⟩)

theorem closeSession_of_ne (hs : d.session sid = some s) (hst : s.status ≠ .hasBoard) :
    Session.closeSession env sys d sid = Daemon.closeSession env sys d sid := by
  simp [Session.closeSession, hs, hst]

def setAwaiting (d : Daemon) (sid : ℕ) : Daemon :=
  d.modifySession sid fun s => { s with status := .awaitingBoard }

theorem setAwaiting_session_self (hs : d.session sid = some s) :
    (d.setAwaiting sid).session sid = some { s with status := .awaitingBoard } := by
  simp [setAwaiting, hs]

def enqueue (d : Daemon) (sid : ℕ) : Daemon := (d.setAwaiting sid).setQueue (d.waitQueue ++ [sid])

theorem enqueue_session : (d.enqueue sid).session k =
    if k = sid then (d.session sid).map (fun s => { s with status := .awaitingBoard })
    else d.session k := by
  simp [enqueue, setAwaiting]

theorem enqueue_session_self (hs : d.session sid = some s) :
    (d.enqueue sid).session sid = some { s with status := .awaitingBoard } := by
  rw [enqueue_session, if_pos rfl, hs, Option.map_some]

def statusNotice (d : Daemon) (sid : ℕ) (fd : ℤ) : List Action :=
  [.printStatus sid fd d.statusLines]

def waitNotice (d : Daemon) (sid : ℕ) (fd : ℤ) (noWait : Bool) : List Action :=
  d.statusNotice sid fd ++ [.dprintf sid fd (ascii "No board currently available." ++
    (if noWait then [] else ascii " Waiting...") ++ [10])]

theorem onConnect_of_available (noWait : Bool) (hs : d.session sid = some s)
    (hf : d.findAvailableBoard s.getUsername = some i) :
    Session.onConnect env sys d sid noWait =
      Session.assignBoard env sys (d.setAwaiting sid) sid i := by
  have hsa := setAwaiting_session_self hs
  have hfa : (d.setAwaiting sid).findAvailableBoard
      ({ s with status := .awaitingBoard } : Session).getUsername = some i := hf
  have hass : Daemon.assignBoard env sys (d.setAwaiting sid) sid =
      Session.assignBoard env sys (d.setAwaiting sid) sid i := by
    simp only [Daemon.assignBoard, deref, hsa, hfa]
  change (Daemon.assignBoard env sys (d.setAwaiting sid) sid).bind _ = _
  rw [hass]
  cases ho : Session.assignBoard env sys (d.setAwaiting sid) sid i with
  | threw f d₁ => rfl
  | returned d₁ =>
    obtain ⟨t, _, _, pid, ht, _, _, _, rfl⟩ := sessionAssignBoard_returned ho
    simp only [Outcome.bind, deref, grant_session, ↓reduceIte, ht, Option.map_some,
      Session.granted, reduceCtorEq]

theorem statusLines_enqueue_ne_nil (hs : d.session sid = some s) :
    (d.enqueue sid).statusLines ≠ [] := by
  have hmem := KeyedList.mem_of_lookup (enqueue_session_self hs)
  refine fun h => List.ne_nil_of_mem (List.mem_filter.2 ⟨hmem, ?_⟩) (List.map_eq_nil_iff.1 h)
  simp

theorem onConnect_of_none (noWait : Bool) (hs : d.session sid = some s)
    (hf : d.findAvailableBoard s.getUsername = none) :
    Session.onConnect env sys d sid noWait =
      if sys.brokenPipe s.fdErr then .threw .brokenPipe (d.enqueue sid)
      else if noWait then Daemon.closeSession env sys
        ((d.enqueue sid).act ((d.enqueue sid).waitNotice sid s.fdErr noWait)) sid
      else .returned ((d.enqueue sid).act ((d.enqueue sid).waitNotice sid s.fdErr noWait)) := by
  have hsa := setAwaiting_session_self hs
  have hse : (d.enqueue sid).session sid = some { s with status := .awaitingBoard } := hsa
  have hfa : (d.setAwaiting sid).findAvailableBoard
      ({ s with status := .awaitingBoard } : Session).getUsername = none := hf
  have hass : Daemon.assignBoard env sys (d.setAwaiting sid) sid = .returned (d.enqueue sid) := by
    simp only [Daemon.assignBoard, deref, hsa, hfa]
    rfl
  have hact : ((d.enqueue sid).act ((d.enqueue sid).statusNotice sid s.fdErr)).act
      [.dprintf sid s.fdErr (ascii "No board currently available." ++
        (if noWait then [] else ascii " Waiting...") ++ [10])] =
      (d.enqueue sid).act ((d.enqueue sid).waitNotice sid s.fdErr noWait) := by
    simp only [act, waitNotice, List.append_assoc]
  change (Daemon.assignBoard env sys (d.setAwaiting sid) sid).bind _ = _
  simp only [hass, Outcome.bind, deref, hse, ↓reduceIte, printStatus,
    statusLines_enqueue_ne_nil hs, ne_eq, not_false_eq_true, true_and]
  cases hp : sys.brokenPipe s.fdErr with
  | true => rfl
  | false =>
    simp only [dprintf, hp, Bool.false_eq_true, ↓reduceIte]
    rw [← statusNotice, hact]
    cases noWait with
    | false => rfl
    | true => exact closeSession_of_ne hse (by simp)

theorem onConnect_returned {noWait : Bool}
    (h : Session.onConnect env sys d sid noWait = .returned d') :
    ∃ s, d.session sid = some s ∧
      ((∃ i, d.findAvailableBoard s.getUsername = some i ∧
          Session.assignBoard env sys (d.setAwaiting sid) sid i = .returned d') ∨
        (d.findAvailableBoard s.getUsername = none ∧ noWait = false ∧
          d' = (d.enqueue sid).act ((d.enqueue sid).waitNotice sid s.fdErr noWait)) ∨
        (d.findAvailableBoard s.getUsername = none ∧ noWait = true ∧
          Daemon.closeSession env sys
            ((d.enqueue sid).act ((d.enqueue sid).waitNotice sid s.fdErr noWait)) sid =
              .returned d')) := by
  obtain ⟨d₁, h₁, _⟩ := Outcome.bind_eq_returned.1 h
  obtain ⟨t, ht, _⟩ := daemonAssignBoard_returned h₁
  simp only [implies_true, session_modifySession, ↓reduceIte, Option.map_eq_some_iff] at ht
  obtain ⟨s, hs, _⟩ := ht
  refine ⟨s, hs, ?_⟩
  cases hf : d.findAvailableBoard s.getUsername with
  | some i =>
    rw [onConnect_of_available noWait hs hf] at h
    exact Or.inl ⟨i, rfl, h⟩
  | none =>
    rw [onConnect_of_none noWait hs hf] at h
    split_ifs at h with _ hw
    · exact Or.inr (Or.inr ⟨rfl, hw, h⟩)
    · exact Or.inr (Or.inl ⟨rfl, Bool.eq_false_iff.2 hw, (Outcome.returned.inj h).symm⟩)

theorem onSetupMsg_returned {pkt : Packet}
    (h : Session.onSetupMsg env sys d sid pkt = .returned d') :
    (pkt.fds.take Session.maxFds = [] ∧ ∃ d₁, Session.closeSession env sys d sid = .returned d₁ ∧
      Session.closeSession env sys d₁ sid = .returned d') ∨
    pkt.fds.take Session.maxFds ≠ [] ∧ ∃ s r, d.session sid = some s ∧
      Proto.readSetup s.buffer = some r ∧
      ((r.cmd = Proto.connect ∧ Session.onConnect env sys
          (d.modifySession sid (Session.introduced pkt r)) sid r.noWait = .returned d') ∨
        (r.cmd ≠ Proto.connect ∧ r.cmd = Proto.listSessions ∧ Session.closeSession env sys
          ((d.modifySession sid (Session.introduced pkt r)).act
            ((d.modifySession sid (Session.introduced pkt r)).statusNotice sid
              (s.introduced pkt r).fdOut)) sid = .returned d') ∨
        (r.cmd ≠ Proto.connect ∧ r.cmd ≠ Proto.listSessions ∧
          d' = d.modifySession sid (Session.introduced pkt r))) := by
  obtain ⟨d₁, h₁, h⟩ := Outcome.bind_eq_returned.1 h
  by_cases hf : pkt.fds.take Session.maxFds = []
  · rw [if_pos (Session.controlLen_lt_iff.2 hf)] at h₁
    rw [if_pos hf] at h
    exact Or.inl ⟨hf, d₁, h₁, h⟩
  · rw [if_neg (mt Session.controlLen_lt_iff.1 hf), Outcome.returned.injEq] at h₁
    subst h₁
    rw [if_neg hf] at h
    obtain ⟨s, hs, h⟩ := deref_returned.1 h
    cases hr : Proto.readSetup s.buffer with
    | none => simp [hr] at h
    | some r =>
      simp only [hr] at h
      refine Or.inr ⟨hf, s, r, hs, hr, ?_⟩
      by_cases hc : r.cmd = Proto.connect
      · rw [if_pos hc] at h
        exact Or.inl ⟨hc, h⟩
      · rw [if_neg hc] at h
        by_cases hl : r.cmd = Proto.listSessions
        · rw [if_pos hl] at h
          obtain ⟨d₁, h₁, h⟩ := Outcome.bind_eq_returned.1 h
          obtain rfl := printStatus_returned h₁
          exact Or.inr (Or.inl ⟨hc, hl, h⟩)
        · rw [if_neg hl, Outcome.returned.injEq] at h
          exact Or.inr (Or.inr ⟨hc, hl, h.symm⟩)

end Daemon

def recvEnds : Except Errno Packet → Bool
  | .error _ => true
  | .ok pkt => decide (pkt.data = [])

def recvFds (sid : ℕ) : Except Errno Packet → List Action
  | .error _ => []
  | .ok pkt => [.receiveFds sid (pkt.fds.take Session.maxFds)]

namespace Daemon

variable {env : Env} {sys : Sys} {d d' : Daemon} {sid k i j : ℕ} {s : Session}

def receive (d : Daemon) (sid : ℕ) (pkt : Packet) : Daemon :=
  (d.act [.receiveFds sid (pkt.fds.take Session.maxFds)]).modifySession sid
    (Session.received (pkt.data.take Proto.bufferSize))

theorem take_bufferSize_eq_nil {data : Bytes} : data.take Proto.bufferSize = [] ↔ data = [] := by
  simp [List.take_eq_nil_iff, Proto.bufferSize]

theorem onDataFromClient_hangUp {recv : Except Errno Packet} (hr : recvEnds recv = true) :
    Session.onDataFromClient env sys d sid recv = Session.closeSession env sys
      ((d.act (recvFds sid recv)).modifySession sid Session.hungUp) sid := by
  cases recv with
  | error e =>
    have ha : d.act (recvFds sid (.error e)) = d := by simp [act, recvFds]
    rw [ha]
    rfl
  | ok pkt =>
    have hd : pkt.data = [] := of_decide_eq_true hr
    have ht : pkt.data.take Proto.bufferSize = [] := take_bufferSize_eq_nil.2 hd
    simp only [Session.onDataFromClient, ht, ↓reduceIte]
    rfl

theorem session_receive (sid : ℕ) (pkt : Packet) : (d.receive sid pkt).session k =
    if k = sid then (d.session sid).map (Session.received (pkt.data.take Proto.bufferSize))
    else d.session k := by
  rw [receive, session_modifySession]
  · rfl
  · exact fun _ => rfl

theorem session_receive_self (pkt : Packet) (hs : d.session sid = some s) :
    (d.receive sid pkt).session sid = some (s.received (pkt.data.take Proto.bufferSize)) := by
  rw [session_receive, if_pos rfl, hs, Option.map_some]

theorem onDataFromClient_packet {pkt : Packet} (hs : d.session sid = some s) (hd : pkt.data ≠ []) :
    Session.onDataFromClient env sys d sid (.ok pkt) =
      if (Event.clientData sid (.ok pkt) sys).setup?.isSome then
        Session.onSetupMsg env sys (d.receive sid pkt) sid pkt
      else .returned (d.receive sid pkt) := by
  have ht : pkt.data.take Proto.bufferSize ≠ [] := mt take_bufferSize_eq_nil.1 hd
  simp only [Session.onDataFromClient, if_neg ht]
  change (if _ then Outcome.returned (d.receive sid pkt) else (d.receive sid pkt).deref sid _) = _
  by_cases hlen : (pkt.data.take Proto.bufferSize).length < Proto.headerSize
  · rw [if_pos hlen, if_neg]
    exact fun hset => Nat.not_le.2 hlen (Event.isSome_setup_iff.1 hset).1
  · have hword : 0 + 4 ≤ (pkt.data.take Proto.bufferSize).length :=
      Nat.le_trans (by decide) (Nat.le_of_not_lt hlen)
    rw [if_neg hlen, deref, session_receive_self pkt hs]
    simp only [Session.received, Memory.word_store s.buffer hword]
    by_cases hw : Memory.word (fun i => (pkt.data.take Proto.bufferSize).getD i 0) 0 =
        Proto.msgTypeSetup
    · rw [if_pos hw, if_pos (Event.isSome_setup_iff.2 ⟨Nat.le_of_not_lt hlen, hw⟩)]
      rfl
    · rw [if_neg hw, if_neg fun hset => hw (Event.isSome_setup_iff.1 hset).2]
      rfl

theorem onDataFromClient_returned {recv : Except Errno Packet} (hs : d.session sid = some s)
    (h : Session.onDataFromClient env sys d sid recv = .returned d') :
    (recvEnds recv = true ∧ Session.closeSession env sys
      ((d.act (recvFds sid recv)).modifySession sid Session.hungUp) sid = .returned d') ∨
    ∃ pkt, recv = .ok pkt ∧
      (((Event.clientData sid recv sys).setup? = none ∧ d' = d.receive sid pkt) ∨
        ((Event.clientData sid recv sys).setup? = some (sid, pkt) ∧
          Session.onSetupMsg env sys (d.receive sid pkt) sid pkt = .returned d')) := by
  by_cases hend : recvEnds recv = true
  · rw [onDataFromClient_hangUp hend] at h
    exact Or.inl ⟨hend, h⟩
  cases recv with
  | error e => exact absurd rfl hend
  | ok pkt =>
    rw [onDataFromClient_packet hs fun hd => hend (decide_eq_true hd)] at h
    refine Or.inr ⟨pkt, rfl, ?_⟩
    rcases Event.setup_cases sid pkt sys with hset | hset
    · rw [hset] at h
      exact Or.inl ⟨hset, (Outcome.returned.inj h).symm⟩
    · rw [hset] at h
      exact Or.inr ⟨hset, h⟩

theorem newSocketConnection_returned {io : ConnectIo} {factory : ProxyFactory} {peer : Pid}
    (h : Session.newSocketConnection env io d sid factory peer = .returned d') :
    ∃ s, d.session sid = some s ∧ ((s.status ≠ .hasBoard ∧ d' = d) ∨
      ∃ conn, s.status = .hasBoard ∧ factory.create env io (d.boardIp s) = .ok conn ∧
        d' = Session.addProxy d sid peer conn) := by
  obtain ⟨s, hs, h⟩ := deref_returned.1 h
  refine ⟨s, hs, ?_⟩
  by_cases hst : s.status = .hasBoard
  · simp only [hst, ne_eq, not_true_eq_false, ↓reduceIte] at h
    cases hc : factory.create env io (d.boardIp s) with
    | error f => simp [hc] at h
    | ok conn =>
      simp only [hc, Outcome.returned.injEq] at h
      exact Or.inr ⟨conn, hst, rfl, h.symm⟩
  · simp only [hst, ne_eq, not_false_eq_true, ↓reduceIte, Outcome.returned.injEq] at h
    exact Or.inl ⟨hst, h.symm⟩

def setProxy (pid : ℕ) (conn : ProxyConn) (ps : List Proxy) : List Proxy :=
  if conn.closed then KeyedList.remove Proxy.id pid ps
  else KeyedList.modify Proxy.id pid (fun p => { p with conn := conn }) ps

theorem runProxy_returned {pid : ℕ} {run : Session → ProxyConn → Outcome ProxyConn}
    (h : Session.runProxy d sid pid run = .returned d') :
    ∃ s p conn, d.session sid = some s ∧ KeyedList.lookup Proxy.id pid s.proxies = some p ∧
      run s p.conn = .returned conn ∧
      d' = d.modifySession sid (Session.withProxies (setProxy pid conn) 0) := by
  obtain ⟨s, hs, h⟩ := deref_returned.1 h
  cases hp : KeyedList.lookup Proxy.id pid s.proxies with
  | none => simp [hp] at h
  | some p =>
    simp only [hp] at h
    obtain ⟨conn, hr, rfl⟩ := Outcome.map_eq_returned.1 h
    exact ⟨s, p, conn, hs, hp, hr, rfl⟩

theorem onChild_returned {pid : Pid} (h : onChild env sys d pid = .returned d') :
    ((∀ s ∈ d.sessions, ∀ c, s.childWatcher = some c → c.pid ≠ pid) ∧ d' = d) ∨
    ∃ s c, s ∈ d.sessions ∧ s.childWatcher = some c ∧ c.pid = pid ∧
      Session.closeSession env sys (Session.stopChildWatcher d s.id) s.id = .returned d' := by
  unfold onChild at h
  cases hf : d.sessions.find? (watches pid) with
  | none =>
    simp only [hf, Outcome.returned.injEq] at h
    refine Or.inl ⟨?_, h.symm⟩
    intro s hs c hc hp
    have hn := List.find?_eq_none.1 hf s hs
    simp [watches, hc, hp] at hn
  | some s =>
    have hs := List.mem_of_find?_eq_some hf
    have hw := List.find?_some hf
    cases hc : s.childWatcher with
    | none => simp [watches, hc] at hw
    | some c =>
      have hp : c.pid = pid := by simpa [watches, hc] using hw
      simp only [hf, hc] at h
      refine Or.inr ⟨s, c, hs, hc, hp, ?_⟩
      cases hcb : c.callback with
      | onProcessExit => simpa [hcb, Session.onProcessExit] using h
      | onCloseCommandExit => simpa [hcb, Session.onCloseCommandExit] using h

end Daemon
end BoardProxy
