import BoardProxy.TenancyRefinement
import BoardProxy.WaitingLine

/-!
# Who owns which board

Two classes of runs. In a disciplined run clients may send any number of setup
messages, but no `connect` request meets a session that already holds a board
or could be served while it waits. In a run with at most one setup message for
each client the discipline follows from the history: a setup message always
finds a session that has just been created.
-/

namespace BoardProxy
namespace Daemon

variable {env : Env} {d d' : Daemon} {e : Event} {es : List Event} {sid : ℕ} {s : Session}
  {bs : List BoardSpec} {fs : List ProxyFactory} {sd : Bool}

def DisciplinedNext (env : Env) (d : Daemon) (e : Event) (d' : Daemon) : Prop :=
  d.Next env e d' ∧ d.Disciplined e

theorem settled_disciplined_run (h : Run (DisciplinedNext env) (initial bs fs sd) es d) :
    Settled d :=
  h.invariant Settled (settled_initial bs fs sd)
    fun _ _ _ hs hn => settled_callback hs hn.2 (callback_of_next hn.1)

theorem Settled.command_owner (h : Settled d) {p : Process} (hp : p ∈ d.processes)
    (hk : p.kind = .command) (hr : p.state ≠ .reaped) : d.owner p.board = some p.session := by
  obtain ⟨t, ht⟩ := h.coherent.command p hp hr hk
  exact (h.coherent.owner_iff p.board p.session).2 ⟨t, ht, (h.coherent.live p hp hr t ht).2.1⟩

theorem Settled.owner_mem (h : Settled d) {i k : ℕ} (ho : d.owner i = some k) :
    ∃ s ∈ d.sessions, s.id = k ∧ s.board = some i := by
  obtain ⟨t, ht, hb⟩ := (h.coherent.owner_iff i k).1 ho
  obtain ⟨s, hs, rfl⟩ := exists_of_view_tenant ht
  exact ⟨s, mem_of_session d k hs, id_of_session d k hs, hb⟩

theorem Settled.session_of_mem (h : Settled d) (hs : s ∈ d.sessions) : d.session s.id = some s :=
  KeyedList.lookup_of_mem h.coherent.ids_nodup hs

/-- No board leaks in a disciplined run. -/
theorem disciplined_run_no_leak (h : Run (DisciplinedNext env) (initial bs fs sd) es d) :
    (∀ i j k, d.owner i = some k → d.owner j = some k → i = j) ∧
    (∀ i k, d.owner i = some k → ∃ s ∈ d.sessions, s.id = k) ∧
    (∀ i, d.owner i = none → ∀ p ∈ d.processes, p.kind = .command → p.board = i →
      p.state ≠ .running) := by
  have hs := settled_disciplined_run h
  refine ⟨fun i j k hi hj => hs.coherent.owner_unique hi hj, ?_, ?_⟩
  · intro i k ho
    obtain ⟨s, hmem, hid, _⟩ := hs.owner_mem ho
    exact ⟨s, hmem, hid⟩
  · intro i ho p hp hk hb hr
    have hown := hs.command_owner hp hk (by rw [hr]; decide)
    rw [hb, ho] at hown
    cases hown

theorem disciplined_run_no_leak_two_clients : ∃ d,
    (Run (DisciplinedNext Sample.env) (initial [Sample.board [] []] [] false)
      [Sample.accept, Sample.connect 0 7 100, Sample.accept, Sample.connect 1 8 101,
        Sample.connect 1 8 101] d ∧ (d.owner 0, d.waitQueue) = (some 0, [1, 1])) ∧
    ∀ i j k, d.owner i = some k → d.owner j = some k → i = j :=
  Exists.imp (fun _ hr => ⟨hr, (disciplined_run_no_leak hr.1).1⟩)
    (exists_guarded_run (fun d : Daemon => (d.owner 0, d.waitQueue)) (by decide +kernel))

/-- A second request of a session that has a board takes another board. -/
theorem second_connect_takes_second_board : ∃ d,
    Run (Next Sample.env) (initial [Sample.board [] [], Sample.board [] []] [] false)
      [Sample.accept, Sample.connect 0 7 100, Sample.connect 0 7 101] d ∧
    (d.owner 0, d.owner 1) = (some 0, some 0) :=
  exists_run (fun d : Daemon => (d.owner 0, d.owner 1)) (by decide +kernel)

open Tenancy (Lined Once)

/-- The state after the events `es`, when no client has sent two setup messages. -/
structure Orderly (es : List Event) (d : Daemon) : Prop where
  settled : Settled d
  lined : Lined (· ∈ setUps es) d.view.tenant d.view.queue

namespace Orderly

theorem created (h : Orderly es d) (ho : AtMostOneSetup (es ++ [e])) (he : e.IsSetupFor sid)
    (hs : d.session sid = some s) : s.status = .created := by
  by_contra hn
  exact ho.notMem he (h.lined.recorded sid s.tenant (view_tenant hs) hn)

theorem disciplined (h : Orderly es d) (ho : AtMostOneSetup (es ++ [e])) : d.Disciplined e := by
  intro x hx _ s hs
  obtain ⟨sid, pkt, r⟩ := x
  have hc := h.created ho (isSetupFor_of_request hx) hs
  refine ⟨(h.settled.coherent.board_none sid _ (view_tenant hs)).2 (Or.inl hc), fun hst => ?_⟩
  rw [hc] at hst
  cases hst

theorem path (h : Orderly es d) (ho : AtMostOneSetup (es ++ [e])) (hn : d.Next env e d')
    (forced : List Process → ℕ → Prop)
    (hfor : ∀ sid s, e.hangUp? = some sid → d.session sid = some s → s.status = .closingBoard →
      forced d.processes sid) :
    Relation.ReflTransGen (Tenancy.Step (Once e.IsSetupFor) forced) d.view d'.view := by
  refine callback_path _ _ h.settled (h.disciplined ho) ?_ ?_ (callback_of_next hn)
  · exact fun sid s name he hs => ⟨h.created ho he hs, he⟩
  · intro sid s he hs hst
    rcases he with he | he
    · exact hfor sid s he hs hst
    · rw [h.created ho he hs] at hst
      cases hst

end Orderly

theorem lined_path {S T : ℕ → Prop} {forced : List Process → ℕ → Prop} {v v' : Tenancy}
    (hc : v.Coherent) (hT : ∀ k, T k → S k) (hl : Lined S v.tenant v.queue)
    (hp : Relation.ReflTransGen (Tenancy.Step (Once T) forced) v v') :
    Lined S v'.tenant v'.queue :=
  invariant_path (P := fun v => Lined S v.tenant v.queue) hc hl
    (fun _ _ hu hlu hs => hlu.step hu hT hs) hp

theorem Orderly.step (h : Orderly es d) (ho : AtMostOneSetup (es ++ [e])) (hn : d.Next env e d') :
    Orderly (es ++ [e]) d' := by
  refine ⟨settled_callback h.settled (h.disciplined ho) (callback_of_next hn), ?_⟩
  refine lined_path h.settled.coherent (fun k hk => ?_) (h.lined.mono fun k hk => ?_)
    (h.path ho hn (fun _ _ => True) fun _ _ _ _ _ => trivial)
  · rw [setUps_append]
    exact List.mem_append_right _ (mem_setUps_singleton.2 hk)
  · rw [setUps_append]
    exact List.mem_append_left _ hk

theorem orderly_run (h : Run (Next env) (initial bs fs sd) es d) (ho : AtMostOneSetup es) :
    Orderly es d := by
  refine h.history (fun es d => AtMostOneSetup es → Orderly es d) ?_ ?_ ho
  · exact fun _ => ⟨settled_initial bs fs sd, List.nodup_nil, fun k t h => (by cases h),
      fun k t h => (by cases h)⟩
  · exact fun es t e u _ ih hn ho => (ih ho.of_append).step ho hn

theorem mem_sessions_iff (h : Settled d) {P : Session → Prop} :
    (∃ s ∈ d.sessions, s.id = sid ∧ P s) ↔ ∃ s, d.session sid = some s ∧ P s := by
  constructor
  · intro ⟨s, hs, hid, hp⟩
    exact ⟨s, hid ▸ h.session_of_mem hs, hp⟩
  · intro ⟨s, hs, hp⟩
    exact ⟨s, mem_of_session d sid hs, id_of_session d sid hs, hp⟩

/-- Owners, sessions and the wait queue agree whenever no callback runs. -/
theorem once_run_ownership (h : Run (Next env) (initial bs fs sd) es d) (ho : AtMostOneSetup es) :
    (∀ i k, d.owner i = some k ↔ ∃ s ∈ d.sessions, s.id = k ∧ s.board = some i) ∧
    (∀ s ∈ d.sessions, ∀ t ∈ d.sessions, ∀ i, s.board = some i → t.board = some i → s = t) ∧
    (∀ i j k, d.owner i = some k → d.owner j = some k → i = j) ∧
    (∀ k, k ∈ d.waitQueue ↔ ∃ s ∈ d.sessions, s.id = k ∧ s.status = .awaitingBoard) ∧
    d.waitQueue.Nodup ∧
    (∀ s ∈ d.sessions, s.board = none ↔ s.status = .created ∨ s.status = .awaitingBoard) := by
  have hs := orderly_run h ho
  have hc := hs.settled.coherent
  have hown : ∀ i k, d.owner i = some k ↔ ∃ s ∈ d.sessions, s.id = k ∧ s.board = some i := by
    intro i k
    rw [mem_sessions_iff hs.settled]
    refine (hc.owner_iff i k).trans ⟨?_, ?_⟩
    · intro ⟨t, ht, hb⟩
      obtain ⟨s, hks, rfl⟩ := exists_of_view_tenant ht
      exact ⟨s, hks, hb⟩
    · intro ⟨s, hks, hb⟩
      exact ⟨s.tenant, view_tenant hks, hb⟩
  refine ⟨hown, ?_, fun i j k => hc.owner_unique, ?_, hs.lined.nodup, ?_⟩
  · intro s hsm t htm i hsb htb
    have hid : s.id = t.id := by
      have ho₁ := (hown i s.id).2 ⟨s, hsm, rfl, hsb⟩
      rw [(hown i t.id).2 ⟨t, htm, rfl, htb⟩] at ho₁
      exact (Option.some.inj ho₁).symm
    have hts := hs.settled.session_of_mem htm
    rw [← hid, hs.settled.session_of_mem hsm] at hts
    exact Option.some.inj hts
  · intro k
    rw [mem_sessions_iff hs.settled]
    constructor
    · intro hk
      obtain ⟨t, ht, hst⟩ := hc.queued k hk
      obtain ⟨s, hks, rfl⟩ := exists_of_view_tenant ht
      exact ⟨s, hks, hst⟩
    · intro ⟨s, hks, hst⟩
      exact hs.lined.waiting k s.tenant (view_tenant hks) hst
  · intro s hsm
    exact hc.board_none s.id s.tenant (view_tenant (hs.settled.session_of_mem hsm))

theorem once_run_ownership_three_clients : ∃ d,
    (Run (Next Sample.env) (initial [Sample.board [] []] [] false)
      [Sample.accept, Sample.accept, Sample.connect 1 7 100, Sample.connect 0 8 101, Sample.accept,
        Sample.setup 2 1 9 [] false 101] d ∧
      (d.owner 0, d.waitQueue, d.sessions.map Session.id) = (some 1, [0], [0, 1])) ∧
    (∀ k, k ∈ d.waitQueue ↔ ∃ s ∈ d.sessions, s.id = k ∧ s.status = .awaitingBoard) :=
  Exists.imp (fun _ hr => ⟨hr, (once_run_ownership hr.1 (by decide +kernel)).2.2.2.1⟩)
    (exists_run (fun d : Daemon => (d.owner 0, d.waitQueue, d.sessions.map Session.id))
      (by decide +kernel))

end Daemon
end BoardProxy
