import BoardProxy.ConnectionHistory
import BoardProxy.EveryRun
import BoardProxy.Tenure

/-!
# The end of the event loop

An iteration of the loop runs the callbacks that were pending at its start, in any
order, and looks at `breakLoop` behind the last one. A client watcher can only be
pending if its session existed at the start. With socket activation the end of the
last session asks the loop to stop. Whoever is accepted later in this iteration is
dropped with the process, and a close command may still run if its client has hung up.
-/

namespace BoardProxy

def Event.isAccept : Event → Bool
  | .clientConnecting .. => true
  | _ => false

namespace Daemon

variable {env : Env} {sys : Sys} {d d' : Daemon} {e : Event} {es : List Event} {sid k : ℕ}
  {s : Session}

/-- The callback may be pending at the start of an iteration. -/
def pending (d : Daemon) : Event → Bool
  | .clientData sid _ _ => (d.session sid).isSome
  | _ => true

/-- One iteration of a loop that has not been asked to stop. -/
structure Iteration (env : Env) (d : Daemon) (es : List Event) (d' : Daemon) : Prop where
  running : d.breakLoop = false
  pending : ∀ e ∈ es, d.pending e = true
  callbacks : Run (Next env) d es d'

def iterate (env : Env) (d : Daemon) (es : List Event) : Option Daemon :=
  if d.breakLoop = false ∧ ∀ e ∈ es, d.pending e = true then feed (next env) d es else none

theorem exists_iterations {α : Type*} {its : List (List Event)} (f : Daemon → α) {a : α}
    (h : (feed (iterate env) d its).map f = some a) :
    ∃ t, Run (Iteration env) d its t ∧ f t = a := by
  obtain ⟨t, hr, ha⟩ := exists_run f h
  refine ⟨t, hr.mono fun d es d' hd => ?_, ha⟩
  simp only [iterate] at hd
  split_ifs at hd with hg
  exact ⟨hg.1, hg.2, Run.of_feed hd⟩

theorem run_of_iterations {its : List (List Event)} (h : Run (Iteration env) d its d') :
    Run (Next env) d its.flatten d' := by
  induction h with
  | nil => exact .nil
  | snoc _ hi ih =>
    rw [List.flatten_append, List.flatten_singleton]
    exact ih.append hi.callbacks

theorem sessions_ne_nil (hs : d.session sid = some s) : d.sessions ≠ [] :=
  List.ne_nil_of_mem (mem_of_session d sid hs)

theorem idle_of_next (h : d.sessions = []) (hn : d.Next env e d') (he : e.isAccept = false) :
    d'.sessions = [] := by
  cases callback_of_next hn with
  | accept => cases he
  | hangUp _ hs => exact absurd h (sessions_ne_nil hs)
  | ignore _ hs => exact absurd h (sessions_ne_nil hs)
  | noFds _ hs => exact absurd h (sessions_ne_nil hs)
  | connect _ hs => exact absurd h (sessions_ne_nil hs)
  | listSessions _ hs => exact absurd h (sessions_ne_nil hs)
  | otherCommand _ hs => exact absurd h (sessions_ne_nil hs)
  | processExits => exact h
  | reapUnwatched => exact h
  | reap _ _ hs => exact absurd h (List.ne_nil_of_mem hs)
  | unrouted => exact h
  | attach _ _ hs => exact absurd h (sessions_ne_nil hs)
  | proxied _ hs => exact absurd h (sessions_ne_nil hs)
  | signal => exact h

def StopsIdle (d d' : Daemon) : Prop :=
  d'.breakLoop = true → d.breakLoop = true ∨ d'.sessions = []

theorem stopsIdle_exitIfIdle {d₁ : Daemon} (h : d₁.breakLoop = d.breakLoop) :
    StopsIdle d d₁.exitIfIdle := by
  intro hb
  unfold exitIfIdle at hb ⊢
  split_ifs at hb ⊢ with hidle
  · exact Or.inr hidle.2
  · exact Or.inl (h ▸ hb)

theorem breakLoop_departed : (d.departed sid).breakLoop = d.breakLoop := by
  unfold departed Session.destroy
  split
  · rfl
  · dsimp only
    split <;> rfl

theorem stopsIdle_leaves (hl : Leaves env sys d sid d') : StopsIdle d d' := by
  cases hl with
  | idle => exact stopsIdle_exitIfIdle breakLoop_departed
  | handOver => exact stopsIdle_exitIfIdle breakLoop_departed

theorem stopsIdle_closes (hc : Closes env sys d sid s d') : StopsIdle d d' := by
  cases hc with
  | kill => exact Or.inl
  | startClosing => exact Or.inl
  | leave _ hl => exact stopsIdle_leaves hl

theorem stopsIdle_connects {noWait : Bool} (hc : Connects env sys d sid s noWait d') :
    StopsIdle d d' := by
  cases hc with
  | grant => exact Or.inl
  | wait => exact Or.inl
  | turnAway _ _ hl =>
    have hstop := stopsIdle_leaves hl
    exact hstop

theorem stopsIdle_of_next (hn : d.Next env e d') (he : e ≠ .signal) : StopsIdle d d' := by
  cases callback_of_next hn with
  | accept => exact Or.inl
  | hangUp _ _ _ _ hcl =>
    have hstop := stopsIdle_closes hcl
    exact hstop
  | ignore => exact Or.inl
  | @noFds sid pkt _ _ _ d₁ _ _ _ _ _ hcl h₂ =>
    -- the session is still there after the first request
    obtain ⟨u, hu, hcl'⟩ := closes_of_closeSession h₂
    intro hb
    rcases stopsIdle_closes hcl' hb with hb | hnil
    · rcases stopsIdle_closes hcl hb with hb | hnil
      · exact Or.inl hb
      · exact absurd hnil (sessions_ne_nil hu)
    · exact Or.inr hnil
  | connect _ _ _ _ hcon =>
    have hstop := stopsIdle_connects hcon
    exact hstop
  | listSessions _ _ _ _ hcl =>
    have hstop := stopsIdle_closes hcl
    exact hstop
  | otherCommand => exact Or.inl
  | processExits => exact Or.inl
  | reapUnwatched => exact Or.inl
  | reap _ _ _ _ _ _ hcl =>
    have hstop := stopsIdle_closes hcl
    exact hstop
  | unrouted => exact Or.inl
  | attach => exact Or.inl
  | proxied => exact Or.inl
  | signal => exact absurd rfl he

def Newcomer (k : ℕ) (d : Daemon) : Prop :=
  (∃ s, d.session k = some s ∧ s.childWatcher = none) ∧ k ∉ d.waitQueue

namespace Newcomer

theorem of_sessions (h : Newcomer k d) (hs : d'.session k = d.session k)
    (hq : k ∈ d'.waitQueue → k ∈ d.waitQueue) : Newcomer k d' := by
  obtain ⟨⟨s, hk, hc⟩, hn⟩ := h
  exact ⟨⟨s, hs.trans hk, hc⟩, fun hmem => hn (hq hmem)⟩

theorem of_map {f : Session → Session} (h : Newcomer k d)
    (hd : d'.session k = if k = sid then (d.session sid).map f else d.session k)
    (hf : ∀ s, (f s).childWatcher = s.childWatcher) (hq : d'.waitQueue = d.waitQueue) :
    Newcomer k d' := by
  obtain ⟨⟨s, hk, hc⟩, hn⟩ := h
  refine ⟨?_, hq ▸ hn⟩
  by_cases hks : k = sid
  · rw [if_pos hks, ← hks, hk, Option.map_some] at hd
    exact ⟨f s, hd, (hf s).trans hc⟩
  · rw [if_neg hks, hk] at hd
    exact ⟨s, hd, hc⟩

section Other

variable (hne : k ≠ sid)
include hne

theorem leaves (h : Newcomer k d) (hs : d.session sid = some s) (hl : Leaves env sys d sid d') :
    Newcomer k d' := by
  have hqueue : (d.departed sid).waitQueue = d.waitQueue.filter fun k => k ≠ sid :=
    (departed_fields hs).1
  have hdep : Newcomer k (d.departed sid) := by
    refine h.of_sessions ?_ fun hmem => ?_
    · rw [departed_session, if_neg hne]
    · rw [hqueue] at hmem
      exact List.mem_of_mem_filter hmem
  cases hl with
  | idle =>
    rw [exitIfIdle_eq_silent]
    exact hdep.of_sessions rfl id
  | @handOver v i t b argv pid hf _ _ _ _ =>
    obtain ⟨pre, post, _, hq, _⟩ := findWaiting_some hf
    have hkv : k ≠ v := by
      rintro rfl
      exact hdep.2 (hq ▸ List.mem_append_right _ List.mem_cons_self)
    rw [exitIfIdle_eq_silent]
    refine hdep.of_sessions ?_ fun hmem => List.mem_of_mem_filter hmem
    exact (grant_session ..).trans (if_neg hkv)

theorem closes (h : Newcomer k d) (hs : d.session sid = some s) (hc : Closes env sys d sid s d') :
    Newcomer k d' := by
  cases hc with
  | kill => exact h.of_sessions rfl id
  | startClosing => exact h.of_sessions ((startClosing_session ..).trans (if_neg hne)) id
  | leave _ hl => exact leaves hne h hs hl

theorem connects {noWait : Bool} (h : Newcomer k d) (hs : d.session sid = some s)
    (hc : Connects env sys d sid s noWait d') : Newcomer k d' := by
  have henq : ∀ as, Newcomer k ((d.enqueue sid).act as) := by
    intro as
    refine h.of_sessions (enqueue_session.trans (if_neg hne)) fun hmem => ?_
    rcases List.mem_append.1 hmem with hmem | hmem
    · exact hmem
    · exact absurd (List.mem_singleton.1 hmem) hne
  cases hc with
  | grant => exact h.of_sessions ((grant_session ..).trans (if_neg hne)) id
  | wait => exact henq _
  | @turnAway as _ _ _ hl =>
    exact leaves hne (henq as) (enqueue_session_self hs) hl

end Other

theorem receive (h : Newcomer k d) (sid : ℕ) (pkt : Packet) : Newcomer k (d.receive sid pkt) :=
  h.of_map (session_receive sid pkt) (fun _ => rfl) rfl

theorem introduce (h : Newcomer k d) (sid : ℕ) (pkt : Packet) (r : Proto.Request) :
    Newcomer k (d.introduce sid pkt r) :=
  h.of_map (session_introduce sid pkt r) (fun _ => rfl) rfl

theorem callback (h : Newcomer k d) (hsound : Sound none d)
    (he : ∀ recv sys, e ≠ .clientData k recv sys) (hc : Callback env d e d') : Newcomer k d' := by
  cases hc with
  | accept =>
    obtain ⟨⟨s, hk, hch⟩, hq⟩ := h
    refine ⟨⟨s, ?_, hch⟩, hq⟩
    rw [onClientConnecting, session_addSession, hk, Option.some_or]
  | @hangUp sid recv sys as s d' _ hs _ _ hcl =>
    have hne : k ≠ sid := fun hks => he recv sys (by rw [hks])
    have hsh := session_hangUp_self as hs
    exact closes hne (h.of_map (session_hangUp as) (fun _ => rfl) rfl) hsh hcl
  | ignore => exact h.receive ..
  | @noFds sid pkt sys s t d₁ d' _ _ _ ht hcl h₂ =>
    have hne : k ≠ sid := fun hks => he (.ok pkt) sys (by rw [hks])
    obtain ⟨u, hu, hcl'⟩ := closes_of_closeSession h₂
    exact closes hne (closes hne (h.receive sid pkt) ht hcl) hu hcl'
  | @connect sid pkt sys r s d' _ hs _ _ hcon =>
    have hne : k ≠ sid := fun hks => he (.ok pkt) sys (by rw [hks])
    exact connects hne (h.introduce sid pkt r) (session_introduce_self pkt r hs) hcon
  | @listSessions sid pkt sys r as s d' _ hs _ _ hcl =>
    have hne : k ≠ sid := fun hks => he (.ok pkt) sys (by rw [hks])
    have hact : Newcomer k ((d.introduce sid pkt r).act as) :=
      (h.introduce sid pkt r).of_sessions rfl id
    exact closes hne hact (session_introduce_self pkt r hs) hcl
  | otherCommand => exact h.introduce ..
  | processExits => exact h.of_sessions rfl id
  | reapUnwatched => exact h.of_sessions rfl id
  | @reap pid sys s t c d' _ _ hs hc _ ht hcl =>
    have hne : k ≠ s.id := by
      rintro rfl
      obtain ⟨⟨u, hu, hch⟩, _⟩ := h
      rw [hsound.session_of_mem hs, Option.some.injEq] at hu
      rw [← hu, hc] at hch
      cases hch
    have hnew : Newcomer k (Session.stopChildWatcher (d.moveProcess pid .zombie .reaped) s.id) :=
      h.of_sessions (session_stopChildWatcher.trans (if_neg hne)) id
    exact closes hne hnew (session_stop_moveProcess ht) hcl
  | unrouted => exact h
  | attach => exact h.of_map (session_modifySession _ _ _ _ fun _ => rfl) (fun _ => rfl) rfl
  | proxied => exact h.of_map (session_modifySession _ _ _ _ fun _ => rfl) (fun _ => rfl) rfl
  | signal => exact h.of_sessions rfl id

theorem accept {cred : Bytes} {ppid : Pid} {buffer : Memory} {now : ℤ} (h : Sound none d) :
    Newcomer d.counter (d.onClientConnecting cred ppid buffer now) := by
  have hnone := h.session_counter
  refine ⟨?_, fun hmem => h.queued _ hmem hnone⟩
  rw [onClientConnecting, session_addSession, hnone, Option.none_or, if_pos rfl]
  exact ⟨_, rfl, rfl⟩

end Newcomer

section Iterations

variable {t : Daemon}

theorem newcomers_run (hsound : Sound none d)
    (hpend : ∀ e ∈ es, d.pending e = true) (h : Run (Next env) d es t) :
    Sound none t ∧ ∀ k, d.counter ≤ k → k < t.counter → Newcomer k t := by
  refine h.history (fun es t => (∀ e ∈ es, d.pending e = true) →
    Sound none t ∧ ∀ k, d.counter ≤ k → k < t.counter → Newcomer k t) ?_ ?_ hpend
  · exact fun _ => ⟨hsound, fun k hge hlt => absurd hlt (Nat.not_lt.2 hge)⟩
  · intro es t e u _ ih hn hpend
    obtain ⟨hst, hnew⟩ := ih fun f hf => hpend f (List.mem_append_left _ hf)
    refine ⟨hst.callback (callback_of_next hn), fun k hge hlt => ?_⟩
    have hother : ∀ recv sys, e ≠ .clientData k recv sys := by
      rintro recv sys rfl
      obtain ⟨s, hs⟩ := Option.isSome_iff_exists.1
        (hpend _ (List.mem_append_right _ (List.mem_singleton_self _)))
      exact absurd (hsound.fresh k s hs) (Nat.not_lt.2 hge)
    rcases Nat.lt_or_ge k t.counter with hkt | hkt
    · exact (hnew k hge hkt).callback hst hother (callback_of_next hn)
    · cases links_of_callback (callback_of_next hn) with
      | kept _ hk => exact absurd (hk.counter ▸ hlt) (Nat.not_lt.2 hkt)
      | accepted _ hd =>
        rw [hd] at hlt ⊢
        obtain rfl : k = t.counter := Nat.le_antisymm (Nat.lt_succ_iff.1 hlt) hkt
        exact Newcomer.accept hst
      | attached _ _ _ _ hd =>
        rw [hd] at hlt
        exact absurd hlt (Nat.not_lt.2 hkt)
      | proxied _ _ _ _ hd =>
        rw [hd] at hlt
        exact absurd hlt (Nat.not_lt.2 hkt)

theorem counter_lt_of_accept (h : Run (Next env) d es t) (ha : ∃ e ∈ es, e.isAccept = true) :
    d.counter < t.counter := by
  refine (h.history (fun es t => d.counter ≤ t.counter ∧
    ((∃ e ∈ es, e.isAccept = true) → d.counter < t.counter)) ⟨Nat.le_refl _, ?_⟩ ?_).2 ha
  · rintro ⟨e, he, _⟩
    cases he
  · rintro es t e u _ ⟨hle, hlt⟩ hn
    have hmono := counter_le_of_next hn
    refine ⟨hle.trans hmono, ?_⟩
    rintro ⟨f, hf, hacc⟩
    rcases List.mem_append.1 hf with hf | hf
    · exact Nat.lt_of_lt_of_le (hlt ⟨f, hf, hacc⟩) hmono
    · obtain rfl := List.mem_singleton.1 hf
      cases f with
      | clientConnecting cred ppid buffer now =>
        have hu := (next_iff.1 hn).2
        rw [← Outcome.returned.inj hu]
        exact Nat.lt_succ_of_le hle
      | _ => cases hacc

theorem idle_run (hb : d.breakLoop = false) (h : Run (Next env) d es t) (hsig : .signal ∉ es)
    (hacc : ∀ e ∈ es, e.isAccept = false) (ht : t.breakLoop = true) : t.sessions = [] := by
  refine h.history (fun es t => .signal ∉ es → (∀ e ∈ es, e.isAccept = false) →
    t.breakLoop = true → t.sessions = []) ?_ ?_ hsig hacc ht
  · intro _ _ hd
    rw [hb] at hd
    cases hd
  · intro es t e u _ ih hn hsig hacc hu
    have hlast : e ∈ es ++ [e] := List.mem_append_right _ (List.mem_singleton_self _)
    have hne : e ≠ .signal := fun he => hsig (he ▸ hlast)
    rcases stopsIdle_of_next hn hne hu with ht | hnil
    · have hnil := ih (fun hmem => hsig (List.mem_append_left _ hmem))
        (fun f hf => hacc f (List.mem_append_left _ hf)) ht
      exact idle_of_next hnil hn (hacc e hlast)
    · exact hnil

theorem owner_of_idle {bs : List BoardSpec} {fs : List ProxyFactory} {sd : Bool}
    (h : Run (Next env) (initial bs fs sd) es d) (ho : AtMostOneSetup es) (hnil : d.sessions = [])
    (i : ℕ) : d.owner i = none := by
  cases hown : d.owner i with
  | none => rfl
  | some k =>
    obtain ⟨s, hs, _⟩ := (orderly_run h ho).settled.owner_mem hown
    rw [hnil] at hs
    cases hs

theorem stopped_of_idle {bs : List BoardSpec} {fs : List ProxyFactory} {sd : Bool}
    (h : Run (PatientNext env) (initial bs fs sd) es d) (ho : AtMostOneSetup es)
    (hnil : d.sessions = []) : ∀ p ∈ d.processes, p.state ≠ .running := by
  intro p hp hr
  obtain ⟨u, hu⟩ := accounted_run h ho p hp hr
  obtain ⟨s, hs, _⟩ := exists_of_view_tenant hu
  exact sessions_ne_nil hs hnil

/-- The loop ends because the last session was closed: nobody is left then, exactly if
no client was accepted in the last iteration. If clients send one setup message each,
no board is taken then, and if none of them hangs up during its close command, no board
is being closed, either. -/
theorem idle_exit_iff {bs : List BoardSpec} {fs : List ProxyFactory} {sd : Bool}
    {its : List (List Event)}
    (h : Run (Iteration env) (initial bs fs sd) (its ++ [es]) t) (ht : t.breakLoop = true)
    (hsig : .signal ∉ es) :
    (t.sessions = [] ↔ ∀ e ∈ es, e.isAccept = false) ∧
      (AtMostOneSetup (its ++ [es]).flatten → t.sessions = [] → (∀ i, t.owner i = none) ∧
        (Run (PatientNext env) (initial bs fs sd) (its ++ [es]).flatten t →
          ∀ p ∈ t.processes, p.state ≠ .running)) := by
  obtain ⟨d, hd, hit⟩ := h.snoc_inv
  have hsound := sound_run (run_of_iterations hd)
  refine ⟨⟨fun hnil => ?_, fun hacc => idle_run hit.running hit.callbacks hsig hacc ht⟩,
    fun hone hnil => ⟨owner_of_idle (run_of_iterations h) hone hnil, fun hp => ?_⟩⟩
  · by_contra hne
    push Not at hne
    obtain ⟨e, he, hacc⟩ := hne
    have hlt := counter_lt_of_accept hit.callbacks ⟨e, he, by simpa using hacc⟩
    obtain ⟨⟨s, hs, _⟩, _⟩ :=
      (newcomers_run hsound hit.pending hit.callbacks).2 d.counter (Nat.le_refl _) hlt
    exact sessions_ne_nil hs hnil
  · exact stopped_of_idle hp hone hnil

/-- The close command of the only client ends. -/
theorem idle_exit_single_client :
    let its : List (List Event) := [[Sample.accept], [Sample.connect 0 7 100],
      [.processExits 100, .childReaped 100 (Sample.sys 101)]]
    let es : List Event := [.processExits 101, .childReaped 101 (Sample.sys 102)]
    ∃ t, (Run (Iteration Sample.env) (initial [Sample.board (ascii "off") []] [] true)
        (its ++ [es]) t ∧ t.breakLoop = true) ∧
      t.sessions = [] ∧ (∀ i, t.owner i = none) ∧ ∀ p ∈ t.processes, p.state ≠ .running := by
  intro its es
  obtain ⟨t, hrun, ht⟩ : ∃ t, Run (Iteration Sample.env)
      (initial [Sample.board (ascii "off") []] [] true) (its ++ [es]) t ∧ t.breakLoop = true :=
    exists_iterations Daemon.breakLoop (by decide +kernel)
  obtain ⟨u, hu, _⟩ : ∃ u, Run (PatientNext Sample.env)
      (initial [Sample.board (ascii "off") []] [] true) (its ++ [es]).flatten u ∧
      u.breakLoop = true :=
    exists_guarded_run Daemon.breakLoop (by decide +kernel)
  obtain rfl : u = t := (hu.mono fun _ _ _ hn => hn.1).unique
    (fun _ _ _ _ h h' => Option.some.inj (h.symm.trans h')) (run_of_iterations hrun)
  obtain ⟨hiff, hfree⟩ := idle_exit_iff hrun ht (by simp [es])
  have hnil := hiff.2 (by simp [es, Event.isAccept])
  obtain ⟨hown, hstop⟩ := hfree (by decide +kernel) hnil
  exact ⟨u, ⟨hrun, ht⟩, hnil, hown, hstop hu⟩

/-- A second client is accepted behind the end of the first one, in the same iteration. -/
theorem accepted_client_is_dropped : ∃ t,
    Run (Iteration Sample.env) (initial [Sample.board [] []] [] true)
      [[Sample.accept], [Sample.eof 0 100, Sample.accept]] t ∧
    (t.breakLoop, t.sessions.map Session.id) = (true, [1]) :=
  exists_iterations (fun t => (t.breakLoop, t.sessions.map Session.id)) (by decide +kernel)

end Iterations
end Daemon
end BoardProxy
