import BoardProxy.CallbackCases

/-!
# Commands that cannot be started

A process is started in three places: for a client that finds a board, for a waiting
client that gets the board of one that leaves, and for the close command of a board. In
all three a command line that cannot be split, or a `fork` that fails, is an exception
that nothing catches on the way to the event loop. In the first two the client is told
before, and a standard error without a reader ends the daemon by `SIGPIPE`.
-/

namespace BoardProxy

def Startable (env : Env) (sys : Sys) (command : Bytes) : Prop :=
  ∃ argv pid, env.splitUnix command = some argv ∧ sys.fork = .ok pid

namespace Daemon

variable {env : Env} {sys : Sys} {d d' : Daemon} {sid k i : ℕ} {s : Session} {b : BoardSpec}
  {argv : List Bytes} {pid : Pid}

def Started (d d' : Daemon) (k i : ℕ) (kind : ProcessKind) : Prop :=
  ∃ pid argv stdio, d'.processes = d.processes ++ [⟨pid, kind, k, i, argv, stdio, .running⟩]

/-- The session `k` could not start a process on the board `i`, and nobody else is
concerned: the board is available, or a watcher is left that will close the session. -/
structure Contained (d d' : Daemon) (k i : ℕ) : Prop where
  board : d'.owner i = none ∨ d'.owner i = some k ∧
    ∃ s, d'.session k = some s ∧ (s.childWatcher.isSome ∨ s.clientWatcher = true)
  boards : ∀ j ≠ i, d'.owner j = d.owner j
  sessions : ∀ l ≠ k, d'.session l = d.session l
  queue : d'.waitQueue = d.waitQueue

def Survives (d : Daemon) (k i : ℕ) (kind : ProcessKind) (o : Outcome Daemon) : Prop :=
  ∃ d', o = .returned d' ∧ (Started d d' k i kind ∨ Contained d d' k i)

/-- The calls that start a process, with the state in which the board has been chosen and the
descriptor on which the client is told of it. -/
inductive Launch (env : Env) (sys : Sys) :
    Daemon → ℕ → ℕ → ProcessKind → Bytes → Option ℤ → Outcome Daemon → Prop
  | connect {d : Daemon} {sid i : ℕ} {s : Session} {b : BoardSpec} {noWait : Bool} :
      d.session sid = some s → d.findAvailableBoard s.getUsername = some i → d.spec i = some b →
      Launch env sys d sid i .command b.command (some s.fdErr)
        (Session.onConnect env sys d sid noWait)
  | handOver {d : Daemon} {sid v i : ℕ} {s t : Session} {b : BoardSpec} :
      d.session sid = some s →
      (d.departed sid).findWaiting (d.departed sid).waitQueue = .ok (some (v, i)) →
      (d.departed sid).session v = some t → d.spec i = some b →
      Launch env sys ((d.departed sid).dequeue v) v i .command b.command (some t.fdErr)
        (Daemon.closeSession env sys d sid)
  | close {d : Daemon} {sid i : ℕ} {s : Session} {b : BoardSpec} :
      d.session sid = some s → s.status = .hasBoard → s.childWatcher = none → s.board = some i →
      d.spec i = some b → b.closeCommand ≠ [] →
      Launch env sys d sid i .closeCommand b.closeCommand none
        (Session.closeSession env sys d sid)

theorem assignBoard_eq_grant (hs : d.session sid = some s) (hb : d.spec i = some b)
    (hr : sys.brokenPipe s.fdErr = false) (hc : env.splitUnix b.command = some argv)
    (hp : sys.fork = .ok pid) :
    Session.assignBoard env sys d sid i = .returned (d.grant sid i s b argv pid sys.now) := by
  have hs' : ((d.modifySession sid fun s => { s with
      status := .hasBoard
      board := some i
      boardSince := sys.now }).session sid) = some { s with
        status := .hasBoard
        board := some i
        boardSince := sys.now } := by
    simp [hs]
  simp only [Session.assignBoard, deref, hs, hb, dprintf, hr, Bool.false_eq_true, ↓reduceIte,
    Outcome.returned_bind, Session.startProcess, session_act, session_modifyBoard, hs', derefBoard,
    spec_act, spec_acquire, spec_modifySession, hc, hp]
  rfl

theorem started_grant (argv : List Bytes) (pid : Pid) :
    Started d (d.grant sid i s b argv pid sys.now) sid i .command :=
  ⟨_, _, _, (grant_fields b argv pid sys.now).2.1⟩

theorem onConnect_survives {noWait : Bool} (hs : d.session sid = some s)
    (hf : d.findAvailableBoard s.getUsername = some i) (hb : d.spec i = some b)
    (hr : sys.brokenPipe s.fdErr = false) (hc : env.splitUnix b.command = some argv)
    (hp : sys.fork = .ok pid) :
    Survives d sid i .command (Session.onConnect env sys d sid noWait) := by
  have hsa := setAwaiting_session_self hs
  refine ⟨d.grant sid i s b argv pid sys.now, ?_, Or.inl (started_grant argv pid)⟩
  rw [onConnect_of_available noWait hs hf,
    assignBoard_eq_grant (d := d.setAwaiting sid) hsa hb hr hc hp, grant_setAwaiting]

theorem closeSession_of_waiting {v : ℕ}
    (hf : (d.departed sid).findWaiting (d.departed sid).waitQueue = .ok (some (v, i))) :
    Daemon.closeSession env sys d sid =
      (Session.assignBoard env sys ((d.departed sid).dequeue v) v i).map exitIfIdle := by
  change (serveWaiting env sys (d.departed sid)).map exitIfIdle = _
  simp only [serveWaiting, hf]

theorem closeSession_of_closeCommand (hs : d.session sid = some s) (hst : s.status = .hasBoard)
    (hc : s.childWatcher = none) (hi : s.board = some i) (hb : d.spec i = some b)
    (hne : b.closeCommand ≠ []) : Session.closeSession env sys d sid =
      Session.startCloseCommand env sys
        (d.modifySession sid fun s => { s with status := .closingBoard }) sid := by
  simp only [Session.closeSession, hs, hst, ↓reduceIte, hc, derefBoard, hi, hb, hne]

theorem startCloseCommand_eq (hs : d.session sid = some s) (hi : s.board = some i)
    (hb : d.spec i = some b) (hc : env.splitUnix b.closeCommand = some argv)
    (hp : sys.fork = .ok pid) : Session.startCloseCommand env sys
      (d.modifySession sid fun s => { s with status := .closingBoard }) sid =
        .returned (d.startClosing sid i argv pid) := by
  have hs' : (d.modifySession sid fun s => { s with status := .closingBoard }).session sid =
      some { s with status := .closingBoard } := by
    simp [hs]
  simp only [Session.startCloseCommand, deref, hs', derefBoard, hi, spec_modifySession, hb, hc, hp]
  rfl

theorem startable_of_assignBoard (hb : d.spec i = some b)
    (h : Session.assignBoard env sys d sid i = .returned d') : Startable env sys b.command := by
  obtain ⟨_, c, argv, pid, _, hc, hsplit, hfork, _⟩ := sessionAssignBoard_returned h
  rw [hb, Option.some.injEq] at hc
  exact ⟨argv, pid, hc ▸ hsplit, hfork⟩

section Launch

variable {kind : ProcessKind} {command : Bytes} {told : Option ℤ} {o : Outcome Daemon}

theorem Launch.has_reader (h : Launch env sys d k i kind command told o) (ho : o = .returned d') :
    ∀ fd ∈ told, sys.brokenPipe fd = false := by
  rintro fd hfd
  cases h with
  | connect hs hf hb =>
    rw [onConnect_of_available _ hs hf] at ho
    cases hfd
    have hr := not_brokenPipe_of_assignBoard (setAwaiting_session_self hs) ho
    exact hr
  | handOver hs hf ht hb =>
    rw [closeSession_of_waiting hf] at ho
    obtain ⟨d₁, ha, _⟩ := Outcome.map_eq_returned.1 ho
    cases hfd
    exact not_brokenPipe_of_assignBoard (d := (departed _ _).dequeue k) ht ha
  | close hs hst hc hi hb hne => cases hfd

theorem Launch.startable (h : Launch env sys d k i kind command told o) (ho : o = .returned d') :
    Startable env sys command := by
  cases h with
  | connect hs hf hb =>
    obtain ⟨t, ht, hcase⟩ := onConnect_returned ho
    rw [hs, Option.some.injEq] at ht
    subst ht
    rw [hf] at hcase
    rcases hcase with ⟨j, hj, ha⟩ | ⟨hn, _⟩ | ⟨hn, _⟩
    · rw [← Option.some.inj hj] at ha
      exact startable_of_assignBoard (d := d.setAwaiting k) hb ha
    · cases hn
    · cases hn
  | handOver hs hf ht hb =>
    rw [closeSession_of_waiting hf] at ho
    obtain ⟨d₁, ha, _⟩ := Outcome.map_eq_returned.1 ho
    refine startable_of_assignBoard ?_ ha
    rw [dequeue_spec, departed_spec, hb]
  | close hs hst hc hi hb hne =>
    rw [closeSession_of_closeCommand hs hst hc hi hb hne] at ho
    obtain ⟨c, argv, pid, hc, hsplit, hfork, _⟩ := startCloseCommand_returned hs hi ho
    rw [hb, Option.some.injEq] at hc
    exact ⟨argv, pid, hc ▸ hsplit, hfork⟩

theorem Launch.survives (h : Launch env sys d k i kind command told o)
    (hr : ∀ fd ∈ told, sys.brokenPipe fd = false) (hst : Startable env sys command) :
    Survives d k i kind o := by
  obtain ⟨argv, pid, hsplit, hfork⟩ := hst
  cases h with
  | connect hs hf hb => exact onConnect_survives hs hf hb (hr _ rfl) hsplit hfork
  | @handOver d sid v i s t b hs hf ht hb =>
    have hb' : ((d.departed sid).dequeue k).spec i = some b := by
      rw [dequeue_spec, departed_spec, hb]
    obtain ⟨x, y, z, hp⟩ : Started ((d.departed sid).dequeue k)
        (((d.departed sid).dequeue k).grant k i t b argv pid sys.now) k i .command :=
      started_grant argv pid
    rw [closeSession_of_waiting hf,
      assignBoard_eq_grant (d := (d.departed sid).dequeue k) ht hb' (hr _ rfl) hsplit hfork]
    refine ⟨_, rfl, Or.inl ⟨x, y, z, ?_⟩⟩
    rw [exitIfIdle_eq_silent]
    exact hp
  | close hs hst hc hi hb hne =>
    rw [closeSession_of_closeCommand hs hst hc hi hb hne,
      startCloseCommand_eq hs hi hb hsplit hfork]
    exact ⟨_, rfl, Or.inl ⟨_, _, _, (startClosing_fields argv pid).2.2.1⟩⟩

/-- Wherever a process is started, in whatever state: the other users are safe from its
failure exactly if it does not fail and the client that is told of it still reads. -/
theorem launch_survives_iff (h : Launch env sys d k i kind command told o) :
    Survives d k i kind o ↔
      (∀ fd ∈ told, sys.brokenPipe fd = false) ∧ Startable env sys command := by
  constructor
  · rintro ⟨d', ho, _⟩
    exact ⟨h.has_reader ho, h.startable ho⟩
  · exact fun hst => h.survives hst.1 hst.2

end Launch

end Daemon

namespace Sample

def escapes : Env :=
  { env with splitUnix := fun s => if s.getLast? = some 92 then none else some [s] }

end Sample

namespace Daemon

theorem launch_survives_connect : ∃ d s,
    Run (Next Sample.escapes) (initial [Sample.board [] []] [] false) [Sample.accept] d ∧
    d.session 0 = some s ∧
    Survives d 0 0 .command (Session.onConnect Sample.escapes (Sample.sys 100) d 0 false) := by
  obtain ⟨d, hrun, hd⟩ : ∃ d, Run (Next Sample.escapes) (initial [Sample.board [] []] [] false)
      [Sample.accept] d ∧
      ((d.session 0).map fun s => d.findAvailableBoard s.getUsername, d.spec 0) =
        (some (some 0), some (Sample.board [] [])) :=
    exists_run (fun d : Daemon => ((d.session 0).map fun s => d.findAvailableBoard s.getUsername,
      d.spec 0)) (by decide +kernel)
  obtain ⟨hs, hb⟩ := Prod.mk.inj hd
  obtain ⟨s, hs, hf⟩ := Option.map_eq_some_iff.1 hs
  exact ⟨d, s, hrun, hs, (launch_survives_iff (.connect hs hf hb)).2
    ⟨fun _ _ => rfl, [ascii "minicom"], 100, by decide +kernel, rfl⟩⟩

/-- A client has a board. Another one gets a board whose command ends with a backslash, and
the daemon ends. -/
theorem unstartable_command_ends_daemon : ∃ d,
    Run (Next Sample.escapes) (initial [Sample.board [] [],
      ⟨ascii "bad", ascii "run \\", ascii "10.0.0.2", [], []⟩] [] false)
      [Sample.accept, Sample.connect 0 7 100, Sample.accept] d ∧
    (d.owner 0, d.enabled (Sample.connect 1 8 101),
      (d.step Sample.escapes (Sample.connect 1 8 101)).fault?) =
        (some 0, true, some .commandSyntax) :=
  exists_run (fun d : Daemon => (d.owner 0, d.enabled (Sample.connect 1 8 101),
    (d.step Sample.escapes (Sample.connect 1 8 101)).fault?)) (by decide +kernel)

end Daemon
end BoardProxy
