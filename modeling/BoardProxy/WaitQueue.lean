import BoardProxy.Tenure
import Mathlib.Data.List.Perm.Basic

/-!
# The wait queue of the daemon

The boards and the wait queue are a pool, and every callback is a sequence of
its steps. So no board that a waiting user could have is free between two
callbacks, and boards are handed out in the order of the setup messages.
-/

namespace BoardProxy
namespace Tenancy

variable {v v' : Tenancy} {S T : ℕ → Prop} {forced : List Process → ℕ → Prop} {q l : List ℕ}
  {a : ℕ}

theorem Step.spec_eq {setup : ℕ → Tenant → Prop} (hs : Step setup forced v v') :
    v'.spec = v.spec := by
  cases hs <;> rfl

theorem Step.queue_sublist (hc : Coherent v) (hT : ∀ k, T k → l = [k])
    (hs : Step (Once T) forced v v') (h : v.queue.Sublist (q ++ l)) :
    v'.queue.Sublist (q ++ l) := by
  cases hs with
  | accept => exact h
  | rename => exact h
  | @wait sid t ht hset =>
    have hq : sid ∉ v.queue := hc.notMem_queue ht (by rw [hset.1]; decide)
    have hl := hT sid hset.2
    subst hl
    have hsub := h.filter fun k => decide (k ≠ sid)
    rw [filter_ne_of_notMem hq, List.filter_append] at hsub
    have hnil : ([sid].filter fun k => decide (k ≠ sid)) = [] := by simp
    rw [hnil, List.append_nil] at hsub
    exact (hsub.trans List.filter_sublist).append_right [sid]
  | grant => exact h
  | close => exact h
  | leave => exact List.filter_sublist.trans h
  | handOver => exact List.filter_sublist.trans (List.filter_sublist.trans h)
  | exits => exact h
  | reapUnwatched => exact h
  | reap => exact h

theorem Step.queue_back (hc : Coherent v) (hT : ¬T a) (hs : Step (Once T) forced v v')
    (ha : a ∈ v'.queue) : a ∈ v.queue ∧ ticket v'.tenant a = ticket v.tenant a := by
  have hne : ∀ {sid o}, sid ≠ a →
      ticket (Function.update v.tenant sid o) a = ticket v.tenant a := by
    intro sid o hn
    simp [ticket, Ne.symm hn]
  cases hs with
  | accept =>
    refine ⟨ha, hne fun he => ?_⟩
    obtain ⟨t, ht, _⟩ := hc.queued a ha
    exact absurd (hc.tenant_lt a t ht) (by rw [he]; exact Nat.lt_irrefl _)
  | rename _ hset => exact ⟨ha, hne fun he => hT (he ▸ hset.2)⟩
  | wait _ hset =>
    have hsa : _ ≠ a := fun he => hT (he ▸ hset.2)
    refine ⟨?_, hne hsa⟩
    rcases List.mem_append.1 ha with ha | ha
    · exact ha
    · exact absurd (List.mem_singleton.1 ha).symm hsa
  | grant _ hset => exact ⟨ha, hne fun he => hT (he ▸ hset.2)⟩
  | @close sid i t pid argv ht =>
    refine ⟨ha, ?_⟩
    by_cases hsa : sid = a
    · subst hsa
      simp [ticket, start, ht]
    · exact hne hsa
  | @leave sid t =>
    obtain ⟨ha, hsa⟩ := List.mem_filter.1 ha
    have hsa' : a ≠ sid := by simpa using hsa
    exact ⟨ha, hne hsa'.symm⟩
  | @handOver sid k i t u =>
    obtain ⟨ha, hka⟩ := List.mem_filter.1 ha
    obtain ⟨ha, hsa⟩ := List.mem_filter.1 ha
    have hka' : a ≠ k := by simpa using hka
    have hsa' : a ≠ sid := by simpa using hsa
    exact ⟨ha, by simp [ticket, start, dequeue, Tenancy.leave, hka', hsa']⟩
  | exits => exact ⟨ha, rfl⟩
  | reapUnwatched => exact ⟨ha, rfl⟩
  | @reap sid t c z ht =>
    refine ⟨ha, ?_⟩
    by_cases hsa : sid = a
    · subst hsa
      simp [ticket, unwatch, move, ht]
    · exact hne hsa

/-- The board `i` is given back, to the first in line who is eligible for it. -/
inductive Released (v : Tenancy) (i : ℕ) (v' : Tenancy) : Prop
  | idle : v'.owner i = none → v'.queue = v.queue →
      (∀ a ∈ v.queue, ¬May v.spec (ticket v.tenant a) i) → Released v i v'
  | served {pre post : List ℕ} {b : ℕ} : v.queue = pre ++ b :: post → v'.owner i = some b →
      May v.spec (ticket v.tenant b) i → (∀ a ∈ pre, ¬May v.spec (ticket v.tenant a) i) →
      v'.queue = pre ++ post → Released v i v'

theorem Step.released {setup : ℕ → Tenant → Prop} {i k : ℕ} (hc : Coherent v)
    (hl : Lined S v.tenant v.queue) (hw : Pool.WorkConserving (May v.spec) v.pool)
    (hs : Step setup forced v v') (ho : v.owner i = some k) (hrel : v'.owner i ≠ some k) :
    Released v i v' := by
  cases hs with
  | accept => exact absurd ho hrel
  | rename => exact absurd ho hrel
  | wait => exact absurd ho hrel
  | @grant sid j t pid argv stdio _ _ _ _ hf =>
    have hij : i ≠ j := by
      intro he
      rw [he, hf.1] at ho
      cases ho
    refine absurd ?_ hrel
    simp only [start, Function.update_apply, if_neg hij]
    exact ho
  | @close sid j t pid argv ht _ _ hb =>
    have hj : v.owner j = some sid := (hc.owner_iff j sid).2 ⟨t, ht, hb⟩
    refine absurd ?_ hrel
    simp only [start]
    rw [← hj, Function.update_eq_self]
    exact ho
  | @leave sid t ht _ hno =>
    have hb : t.board = some i := by
      by_contra hb
      exact hrel (by simpa [Tenancy.leave, hb] using ho)
    obtain ⟨hq, _⟩ := pool_leave hc ht hb
    have hqe : (v.leave sid t).queue = v.queue := filter_ne_of_notMem hq
    refine .idle (by simp [Tenancy.leave, hb]) hqe ?_
    intro a ha hm
    obtain ⟨w, hwt, _⟩ := hc.queued a ha
    have has : a ≠ sid := fun he => hq (he ▸ ha)
    rw [ticket_of_tenant hwt] at hm
    exact hno a (hqe ▸ ha) w (by simp [Tenancy.leave, has, hwt]) i
      ⟨by simp [Tenancy.leave, hb], hm⟩
  | @handOver sid b j t u pid argv stdio pre post ht _ hq hu hf hpre =>
    obtain ⟨hb, hvq, hno, hq', _⟩ := pool_handOver pid argv stdio hc hl hw ht hq hu hf hpre
    have hij : i = j := by
      by_contra hij
      refine hrel ?_
      have hbi : t.board ≠ some i := by
        rw [hb]
        exact fun he => hij (Option.some.inj he).symm
      simpa [start, dequeue, Tenancy.leave, hij, hbi] using ho
    subst hij
    have hin : ∀ a ∈ pre ++ b :: post,
        ∃ w, v.tenant a = some w ∧ ticket v.tenant a = (a, w.name) := by
      intro a ha
      obtain ⟨w, hwt, _⟩ := hc.queued a (hvq ▸ ha)
      exact ⟨w, hwt, ticket_of_tenant hwt⟩
    refine .served hvq (by simp [start]) ?_ ?_ hq'
    · obtain ⟨w, hwt, hk⟩ := hin b (List.mem_append_right _ List.mem_cons_self)
      have hbs : b ≠ sid := by
        intro he
        rw [he] at hu
        simp [Tenancy.leave] at hu
      rw [show (v.leave sid t).tenant b = v.tenant b by simp [Tenancy.leave, hbs], hwt,
        Option.some.injEq] at hu
      rw [hk, hu]
      exact hf.2
    · intro a ha
      obtain ⟨w, hwt, hk⟩ := hin a (List.mem_append_left _ ha)
      rw [hk]
      exact hno a ha w hwt
  | exits => exact absurd ho hrel
  | reapUnwatched => exact absurd ho hrel
  | reap => exact absurd ho hrel

theorem Released.of_reap {sid i : ℕ} {t : Tenant} {c : ChildWatcher} (ht : v.tenant sid = some t)
    (h : Released ((v.move c.pid .zombie .reaped).unwatch sid t) i v') : Released v i v' := by
  have hk : ticket ((v.move c.pid .zombie .reaped).unwatch sid t).tenant = ticket v.tenant := by
    funext a
    by_cases ha : a = sid
    · simp [ticket, unwatch, move, ha, ht]
    · simp [ticket, unwatch, move, ha]
  cases h with
  | idle ho hq hno => exact .idle ho hq (hk ▸ hno)
  | served hq ho hm hno hq' => exact .served hq ho (hk ▸ hm) (hk ▸ hno) hq'

section Paths

variable (hc : Coherent v) (hT : ∀ k, T k → S k) (hl : Lined S v.tenant v.queue)
  (hw : Pool.WorkConserving (May v.spec) v.pool)
  (hp : Relation.ReflTransGen (Step (Once T) forced) v v')
include hc hp

theorem queue_sublist_path (hT : ∀ k, T k → l = [k]) (h : v.queue.Sublist q) :
    v'.queue.Sublist (q ++ l) :=
  Daemon.invariant_path (P := fun v => v.queue.Sublist (q ++ l)) hc
    (h.trans (List.sublist_append_left _ _)) (fun _ _ hu hq hs => hs.queue_sublist hu hT hq) hp

theorem queue_back_path (ha : ¬T a) (hin : a ∈ v'.queue) :
    a ∈ v.queue ∧ ticket v'.tenant a = ticket v.tenant a := by
  induction hp with
  | refl => exact ⟨hin, rfl⟩
  | tail hp hs ih =>
    obtain ⟨hw, ht⟩ := hs.queue_back (Daemon.coherent_path hc hp) ha hin
    exact ⟨(ih hw).1, ht.trans (ih hw).2⟩

include hT hl hw

theorem workConserving_path : v'.spec = v.spec ∧ Pool.WorkConserving (May v.spec) v'.pool := by
  induction hp with
  | refl => exact ⟨rfl, hw⟩
  | tail hp hs ih =>
    have hlu := Daemon.lined_path hc hT hl hp
    obtain ⟨hspec, hwu⟩ := ih
    rw [← hspec] at hwu
    obtain ⟨got, hstep, _⟩ := pool_step (Daemon.coherent_path hc hp) hlu hwu hs
    rw [← hspec]
    exact ⟨hs.spec_eq, hwu.step hstep⟩

theorem no_overtaking_path {b i : ℕ} (hTl : ∀ k, T k → l = [k]) (hq : v.queue.Sublist q)
    (ha : ¬T a) (hin : a ∈ v'.queue) (hm : May v.spec (ticket v.tenant a) i)
    (hb : v.owner i ≠ some b) (hb' : v'.owner i = some b) : [b, a].Sublist (q ++ l) := by
  induction hp with
  | refl => exact absurd hb' hb
  | @tail w x hp hs ih =>
    have hcw := Daemon.coherent_path hc hp
    obtain ⟨hspec, hww⟩ := workConserving_path hc hT hl hw hp
    obtain ⟨haw, htick⟩ := hs.queue_back hcw ha hin
    by_cases hbw : w.owner i = some b
    · exact ih haw hbw
    · rw [← (queue_back_path hc hp ha haw).2, ← hspec] at hm
      rw [← hspec] at hww
      obtain ⟨got, hstep, hgot⟩ := pool_step hcw (Daemon.lined_path hc hT hl hp) hww hs
      rcases hgot i b hb' with hob | ⟨n, rfl⟩
      · exact absurd hob hbw
      · have hline : ticket w.tenant a ∈ w.pool.line := List.mem_map_of_mem haw
        have hline' : ticket w.tenant a ∈ x.pool.line := htick ▸ List.mem_map_of_mem hin
        have hsub := (Pool.no_overtaking hww hstep hline hline' hm).map Prod.fst
        rw [pool, List.map_map, show Prod.fst ∘ ticket w.tenant = id from rfl, List.map_id] at hsub
        exact hsub.trans (queue_sublist_path hc hp hTl hq)

end Paths

end Tenancy

namespace Daemon

open Tenancy (May Released ticket)

variable {env : Env} {d d' : Daemon} {e : Event} {es : List Event} {a b i k : ℕ} {s : Session}
  {bs : List BoardSpec} {fs : List ProxyFactory} {sd : Bool}

def WorkConserving (d : Daemon) : Prop := Pool.WorkConserving (May d.view.spec) d.view.pool

theorem isSetupFor_subset : ∀ k, e.IsSetupFor k → k ∈ setUps (es ++ [e]) := by
  intro k hk
  rw [setUps_append]
  exact List.mem_append_right _ (mem_setUps_singleton.2 hk)

theorem setUps_of_isSetupFor : ∀ k, e.IsSetupFor k → setUps [e] = [k] := by
  intro k hk
  cases he : e.setup? with
  | none => simp [Event.IsSetupFor, he] at hk
  | some x =>
    simp only [Event.IsSetupFor, he, Option.map_some, Option.some.injEq] at hk
    simp [setUps, he, hk]

theorem Orderly.lined_append (h : Orderly es d) :
    Tenancy.Lined (· ∈ setUps (es ++ [e])) d.view.tenant d.view.queue := by
  refine h.lined.mono fun k hk => ?_
  rw [setUps_append]
  exact List.mem_append_left _ hk

theorem Orderly.anyPath (h : Orderly es d) (ho : AtMostOneSetup (es ++ [e]))
    (hn : d.Next env e d') : Relation.ReflTransGen
      (Tenancy.Step (Tenancy.Once e.IsSetupFor) fun _ _ => True) d.view d'.view :=
  h.path ho hn _ fun _ _ _ _ _ => trivial

theorem workConserving_run (h : Run (Next env) (initial bs fs sd) es d) (ho : AtMostOneSetup es) :
    d.WorkConserving := by
  refine h.history (fun es d => AtMostOneSetup es → d.WorkConserving) ?_ ?_ ho
  · exact fun _ x hx => (by cases hx)
  · intro es d e d' hr ih hn ho
    have hor := orderly_run hr ho.of_append
    obtain ⟨hspec, hw⟩ := Tenancy.workConserving_path hor.settled.coherent isSetupFor_subset
      hor.lined_append (ih ho.of_append) (hor.anyPath ho hn)
    rw [WorkConserving, hspec]
    exact hw

theorem queue_sublist_run (h : Run (Next env) (initial bs fs sd) es d) (ho : AtMostOneSetup es) :
    d.waitQueue.Sublist (setUps es) := by
  refine h.history (fun es d => AtMostOneSetup es → d.waitQueue.Sublist (setUps es)) ?_ ?_ ho
  · exact fun _ => List.nil_sublist _
  · intro es d e d' hr ih hn ho
    have hor := orderly_run hr ho.of_append
    rw [setUps_append]
    exact Tenancy.queue_sublist_path hor.settled.coherent (hor.anyPath ho hn) setUps_of_isSetupFor
      (ih ho.of_append)

theorem may_view {bd : BoardSpec} (hs : d.session a = some s) (hbd : d.spec i = some bd) :
    May d.view.spec (ticket d.view.tenant a) i ↔ bd.Eligible s.getUsername := by
  rw [Tenancy.ticket_of_tenant (view_tenant hs)]
  constructor
  · intro ⟨c, hc, he⟩
    rw [show d.view.spec i = some bd from hbd, Option.some.injEq] at hc
    exact hc ▸ he
  · exact fun he => ⟨bd, hbd, he⟩

def Unserved (d : Daemon) (k : ℕ) : Prop :=
  ∃ s, d.session k = some s ∧
    ∀ i bd, d.spec i = some bd → d.owner i = none → ¬bd.Eligible s.getUsername

theorem waiting_unserved (h : Run (Next env) (initial bs fs sd) es d) (ho : AtMostOneSetup es)
    (hk : k ∈ d.waitQueue) : d.Unserved k := by
  obtain ⟨t, ht, _⟩ := (orderly_run h ho).settled.coherent.queued k hk
  obtain ⟨s, hs, rfl⟩ := exists_of_view_tenant ht
  refine ⟨s, hs, fun i bd hbd hown he => ?_⟩
  exact workConserving_run h ho _ (List.mem_map_of_mem hk) i hown ((may_view hs hbd).2 he)

/-- No board is free that a waiting user could have. -/
theorem once_run_no_idle_board (h : Run (Next env) (initial bs fs sd) es d)
    (ho : AtMostOneSetup es) : ∀ k ∈ d.waitQueue, ∃ s ∈ d.sessions, s.id = k ∧
      d.findAvailableBoard s.getUsername = none ∧
      ∀ i bd, d.spec i = some bd → d.owner i = none → ¬bd.Eligible s.getUsername := by
  intro k hk
  obtain ⟨s, hs, hno⟩ := waiting_unserved h ho hk
  exact ⟨s, mem_of_session d k hs, id_of_session d k hs, findAvailableBoard_none.2 hno, hno⟩

/-- A board that is reserved for somebody else stays free while a user waits. -/
theorem once_run_no_idle_board_reserved : ∃ d,
    (Run (Next Sample.env) (initial [Sample.board [] (ascii "amy"), Sample.board [] []] [] false)
      [Sample.accept, Sample.connect 0 7 100, Sample.accept, Sample.connect 1 8 101] d ∧
      (d.owner 0, d.owner 1, d.waitQueue) = (none, some 0, [1])) ∧
    ∀ k ∈ d.waitQueue, ∃ s ∈ d.sessions, s.id = k ∧
      d.findAvailableBoard s.getUsername = none ∧
      ∀ i bd, d.spec i = some bd → d.owner i = none → ¬bd.Eligible s.getUsername :=
  Exists.imp (fun _ hr => ⟨hr, once_run_no_idle_board hr.1 (by decide +kernel)⟩)
    (exists_run (fun d : Daemon => (d.owner 0, d.owner 1, d.waitQueue)) (by decide +kernel))

theorem released_of_next (h : Run (Next env) (initial bs fs sd) es d) (hn : d.Next env e d')
    (ho : AtMostOneSetup (es ++ [e])) (hown : d.owner i = some k) (hrel : d'.owner i ≠ some k) :
    Released d.view i d'.view := by
  have hor := orderly_run h ho.of_append
  have hc := hor.settled.coherent
  have hw := workConserving_run h ho.of_append
  obtain ⟨t, ht, hb⟩ := (hc.owner_iff i k).1 hown
  obtain ⟨s, hs, rfl⟩ := exists_of_view_tenant ht
  have hbs : s.board ≠ none := by
    rw [show s.board = some i from hb]
    exact Option.some_ne_none i
  cases departs_of_next hor ho hn hs hbs (gone_of_released hor ho hn hown hrel) with
  | @hangUp sys d₁ s₁ _ hv hs₁ hm hf hl =>
    have hstep : Tenancy.Step (fun _ _ => True) (fun _ _ => True) d₁.view d'.view :=
      leaves_step hs₁ ⟨hm, fun _ => Or.inr trivial⟩ hf hl
    rw [hv] at hstep
    exact hstep.released hc hor.lined hw hown hrel
  | @reap sys d₁ s₁ c z hcw hz hzp hzs hv hs₁ hm hf hl =>
    have hreap : Tenancy.Step (Tenancy.Once fun _ => False) (fun _ _ => True) d.view
        ((d.view.move c.pid .zombie .reaped).unwatch k s.tenant) :=
      .reap ht hcw hz hzp hzs
    have hstep : Tenancy.Step (fun _ _ => True) (fun _ _ => True) d₁.view d'.view :=
      leaves_step hs₁ ⟨hm, fun _ => Or.inr trivial⟩ hf hl
    rw [hv] at hstep
    have hl₁ := hor.lined.step hc (fun _ hF => hF.elim) hreap
    obtain ⟨_, hw₁⟩ := Tenancy.workConserving_path hc (fun _ hF => hF.elim) hor.lined hw
      (.single hreap)
    exact (hstep.released (hc.step hreap) hl₁ hw₁ hown hrel).of_reap ht

/-- Nobody who could have a board is overtaken by a later request, and a board that
is given back goes to the first in line who is eligible for it. -/
theorem once_run_first_come_first_served (h : Run (Next env) (initial bs fs sd) es d)
    (hn : d.Next env e d') (ho : AtMostOneSetup (es ++ [e])) {bd : BoardSpec}
    (hbd : d.spec i = some bd) :
    (∀ a b s, d.session a = some s → a ∈ d.waitQueue → a ∈ d'.waitQueue →
      bd.Eligible s.getUsername → d.owner i ≠ some b → d'.owner i = some b →
      [b, a].Sublist (setUps (es ++ [e])) ∧ ¬[a, b].Sublist (setUps (es ++ [e]))) ∧
    (∀ k, d.owner i = some k → d'.owner i ≠ some k →
      (d'.owner i = none ∧ d'.waitQueue = d.waitQueue ∧
        ∀ a ∈ d.waitQueue, ∀ s, d.session a = some s → ¬bd.Eligible s.getUsername) ∨
      ∃ pre w post, d.waitQueue = pre ++ w.id :: post ∧ d.session w.id = some w ∧
        bd.Eligible w.getUsername ∧ d'.owner i = some w.id ∧ d'.waitQueue = pre ++ post ∧
        ∀ a ∈ pre, ∀ s, d.session a = some s → ¬bd.Eligible s.getUsername) := by
  have hor := orderly_run h ho.of_append
  refine ⟨?_, ?_⟩
  · intro a b s hs ha ha' he hb hb'
    have hsub : [b, a].Sublist (setUps (es ++ [e])) := by
      have hna : ¬e.IsSetupFor a := fun hset => by
        have hst := hor.created ho hset hs
        obtain ⟨t, ht, hwait⟩ := hor.settled.coherent.queued a ha
        rw [view_tenant hs, Option.some.injEq] at ht
        rw [← ht, show s.tenant.status = s.status from rfl, hst] at hwait
        cases hwait
      rw [setUps_append]
      exact Tenancy.no_overtaking_path hor.settled.coherent isSetupFor_subset hor.lined_append
        (workConserving_run h ho.of_append) (hor.anyPath ho hn) setUps_of_isSetupFor
        (queue_sublist_run h ho.of_append) hna ha' ((may_view hs hbd).2 he) hb hb'
    refine ⟨hsub, fun hsub' => ?_⟩
    have heq := (List.Nodup.perm_iff_eq_of_sublist ho hsub hsub').1 (List.Perm.swap a b [])
    obtain rfl : b = a := (List.cons.inj heq).1
    exact absurd (hsub.nodup ho) (by simp)
  · intro k hown hrel
    have hq : ∀ a ∈ d.waitQueue, ∃ s, d.session a = some s := by
      intro a ha
      obtain ⟨t, ht, _⟩ := hor.settled.coherent.queued a ha
      obtain ⟨s, hs, _⟩ := exists_of_view_tenant ht
      exact ⟨s, hs⟩
    cases released_of_next h hn ho hown hrel with
    | idle hnone hq hno =>
      exact Or.inl ⟨hnone, hq, fun a ha s hs he => hno a ha ((may_view hs hbd).2 he)⟩
    | @served pre post b hqueue hb hm hno hq' =>
      obtain ⟨w, hw⟩ := hq b (by
        rw [show d.waitQueue = _ from hqueue]
        exact List.mem_append_right _ List.mem_cons_self)
      obtain rfl := id_of_session d b hw
      exact Or.inr ⟨pre, w, post, hqueue, hw, (may_view hw hbd).1 hm, hb, hq',
        fun a ha s hs he => hno a ha ((may_view hs hbd).2 he)⟩

/-- The command of the first user ends, and the second of three users gets the board. -/
theorem once_run_first_come_first_served_three_clients : ∃ es d d',
    ((Run (Next Sample.env) (initial [Sample.board [] []] [] false) es d ∧
      d.Next Sample.env (.childReaped 100 (Sample.sys 101)) d') ∧
      (d.owner 0, d.waitQueue, d.spec 0, (d.session 1).isSome) =
        (some 0, [2, 1], some (Sample.board [] []), true) ∧
      (d'.owner 0, d'.waitQueue) = (some 2, [1])) ∧
    [2, 1].Sublist (setUps (es ++ [.childReaped 100 (Sample.sys 101)])) := by
  refine ⟨[Sample.accept, Sample.connect 0 7 100, Sample.accept, Sample.accept,
    Sample.connect 2 8 101, Sample.connect 1 9 101, .processExits 100], ?_⟩
  refine Exists.imp (fun d => Exists.imp fun d' hr => ⟨hr, ?_⟩) (exists_run_step
    (fun d : Daemon => (d.owner 0, d.waitQueue, d.spec 0, (d.session 1).isSome))
    (fun d : Daemon => (d.owner 0, d.waitQueue)) (by decide +kernel))
  obtain ⟨⟨hrun, hnext⟩, hd, hd'⟩ := hr
  simp only [Prod.mk.injEq] at hd hd'
  obtain ⟨s, hs⟩ := Option.isSome_iff_exists.1 hd.2.2.2
  exact ((once_run_first_come_first_served hrun hnext (by decide +kernel) hd.2.2.1).1 1 2 s hs
    (by simp [hd.2.1]) (by simp [hd'.2]) (Or.inl rfl) (by simp [hd.1]) hd'.1).1

end Daemon
end BoardProxy
