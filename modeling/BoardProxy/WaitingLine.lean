import BoardProxy.ResourcePool
import BoardProxy.Tenancy

/-!
# The wait queue of the tenancies

The steps of the tenancies in which every setup message finds a tenant that has
just been created. Then the queue holds every waiting tenant exactly once, and
the boards with the queue form a pool whose resources are handed out in order.
-/

namespace BoardProxy
namespace Tenancy

variable {S T : ℕ → Prop} {forced : List Process → ℕ → Prop} {v v' : Tenancy} {sid k i : ℕ}
  {t u : Tenant}

def Once (S : ℕ → Prop) (k : ℕ) (t : Tenant) : Prop := t.status = .created ∧ S k

structure Lined (S : ℕ → Prop) (f : ℕ → Option Tenant) (q : List ℕ) : Prop where
  nodup : q.Nodup
  waiting : ∀ k t, f k = some t → t.status = .awaitingBoard → k ∈ q
  recorded : ∀ k t, f k = some t → t.status ≠ .created → S k

namespace Lined

variable {f : ℕ → Option Tenant} {q : List ℕ}

theorem amend (h : Lined S f q) (ht : f sid = some t) (hu : u.status = t.status) :
    Lined S (Function.update f sid (some u)) q := by
  refine ⟨h.nodup, ?_, ?_⟩
  · intro k w hw hst
    rcases update_eq_some hw with ⟨rfl, rfl⟩ | ⟨_, hw⟩
    · exact h.waiting k t ht (hu.symm.trans hst)
    · exact h.waiting k w hw hst
  · intro k w hw hst
    rcases update_eq_some hw with ⟨rfl, rfl⟩ | ⟨_, hw⟩
    · exact h.recorded k t ht (hu ▸ hst)
    · exact h.recorded k w hw hst

theorem served (h : Lined S f q) (hS : S sid) (hu : u.status ≠ .awaitingBoard) {q' : List ℕ}
    (hq : q'.Nodup) (hsub : ∀ k ∈ q, k ≠ sid → k ∈ q') :
    Lined S (Function.update f sid (some u)) q' := by
  refine ⟨hq, ?_, ?_⟩
  · intro k w hw hst
    rcases update_eq_some hw with ⟨_, rfl⟩ | ⟨hk, hw⟩
    · exact absurd hst hu
    · exact hsub k (h.waiting k w hw hst) hk
  · intro k w hw hst
    rcases update_eq_some hw with ⟨rfl, _⟩ | ⟨_, hw⟩
    · exact hS
    · exact h.recorded k w hw hst

theorem enqueue (h : Lined S f q) (hS : S sid) (hq : sid ∉ q) :
    Lined S (Function.update f sid (some { t with status := .awaitingBoard })) (q ++ [sid]) := by
  refine ⟨?_, ?_, ?_⟩
  · refine h.nodup.append (List.nodup_singleton _) ?_
    intro k hk hk'
    rw [List.mem_singleton.1 hk'] at hk
    exact hq hk
  · intro k w hw hst
    rcases update_eq_some hw with ⟨rfl, _⟩ | ⟨_, hw⟩
    · exact List.mem_append_right _ (List.mem_singleton_self _)
    · exact List.mem_append_left _ (h.waiting k w hw hst)
  · intro k w hw hst
    rcases update_eq_some hw with ⟨rfl, _⟩ | ⟨_, hw⟩
    · exact hS
    · exact h.recorded k w hw hst

theorem remove (h : Lined S f q) (sid : ℕ) :
    Lined S (Function.update f sid none) (q.filter fun k => k ≠ sid) := by
  have hnew : ∀ k w, Function.update f sid none k = some w → k ≠ sid ∧ f k = some w := by
    intro k w hw
    rw [Function.update_apply] at hw
    by_cases hk : k = sid
    · rw [if_pos hk] at hw
      cases hw
    · rw [if_neg hk] at hw
      exact ⟨hk, hw⟩
  refine ⟨h.nodup.filter _, ?_, ?_⟩
  · intro k w hw hst
    obtain ⟨hk, hw⟩ := hnew k w hw
    exact List.mem_filter.2 ⟨h.waiting k w hw hst, by simpa using hk⟩
  · exact fun k w hw hst => h.recorded k w (hnew k w hw).2 hst

end Lined

theorem Coherent.notMem_queue (h : Coherent v) (ht : v.tenant sid = some t)
    (hst : t.status ≠ .awaitingBoard) : sid ∉ v.queue := by
  intro hq
  obtain ⟨w, hw, hsw⟩ := h.queued sid hq
  rw [ht, Option.some.injEq] at hw
  exact hst (hw ▸ hsw)

theorem Lined.step (hc : Coherent v) (hT : ∀ k, T k → S k) (h : Lined S v.tenant v.queue)
    (hs : Step (Once T) forced v v') : Lined S v'.tenant v'.queue := by
  cases hs with
  | @accept name =>
    refine ⟨h.nodup, ?_, ?_⟩
    · intro k w hw hst
      rcases update_eq_some hw with ⟨_, rfl⟩ | ⟨_, hw⟩
      · cases hst
      · exact h.waiting k w hw hst
    · intro k w hw hst
      rcases update_eq_some hw with ⟨_, rfl⟩ | ⟨_, hw⟩
      · exact absurd rfl hst
      · exact h.recorded k w hw hst
  | rename ht => exact h.amend ht rfl
  | wait ht hset =>
    refine h.enqueue (hT _ hset.2) (hc.notMem_queue ht ?_)
    rw [hset.1]
    decide
  | grant _ hset =>
    exact h.served (hT _ hset.2) (ProcessKind.status_ne_awaiting .command) h.nodup fun k hk _ => hk
  | close ht hst =>
    refine h.served (h.recorded _ _ ht ?_) (ProcessKind.status_ne_awaiting .closeCommand) h.nodup
      fun k hk _ => hk
    rw [hst]
    decide
  | leave => exact h.remove _
  | @handOver sid k i t u pid argv stdio pre post ht hm hq hk =>
    have hl := h.remove sid
    have hkq : k ∈ (v.leave sid t).queue := by
      rw [hq]
      exact List.mem_append_right _ List.mem_cons_self
    obtain ⟨w, hw, hst⟩ := (hc.leave ht fun hst => (hm.command hst).1).queued k hkq
    refine hl.served (hl.recorded k w hw ?_) (ProcessKind.status_ne_awaiting .command)
      (hl.nodup.filter _)
      ?_
    · rw [hst]
      decide
    · intro j hj hjk
      exact List.mem_filter.2 ⟨hj, by simpa using hjk⟩
  | exits => exact h
  | reapUnwatched => exact h
  | reap ht => exact h.amend ht rfl

theorem Lined.mono {S' : ℕ → Prop} {f : ℕ → Option Tenant} {q : List ℕ} (h : Lined S f q)
    (hS : ∀ k, S k → S' k) : Lined S' f q :=
  ⟨h.nodup, h.waiting, fun k t ht hst => hS k (h.recorded k t ht hst)⟩

def ticket (f : ℕ → Option Tenant) (k : ℕ) : ℕ × Bytes := (k, ((f k).map Tenant.name).getD [])

/-- The free boards and the users who wait for one. -/
def pool (v : Tenancy) : Pool ℕ (ℕ × Bytes) :=
  ⟨{i | v.owner i = none}, v.queue.map (ticket v.tenant)⟩

def May (spec : ℕ → Option BoardSpec) (x : ℕ × Bytes) (i : ℕ) : Prop :=
  ∃ b, spec i = some b ∧ b.Eligible x.2

section Tickets

variable {f : ℕ → Option Tenant} {q : List ℕ}

theorem ticket_of_tenant (ht : f k = some t) : ticket f k = (k, t.name) := by
  simp [ticket, ht]

theorem map_ticket_update (o : Option Tenant) (hq : sid ∉ q) :
    q.map (ticket (Function.update f sid o)) = q.map (ticket f) := by
  apply List.map_congr_left
  intro k hk
  have hne : k ≠ sid := fun he => hq (he ▸ hk)
  simp [ticket, hne]

theorem map_ticket_amend (ht : f sid = some t) (hn : u.name = t.name) :
    q.map (ticket (Function.update f sid (some u))) = q.map (ticket f) := by
  apply List.map_congr_left
  intro k _
  by_cases hk : k = sid
  · simp [ticket, hk, ht, hn]
  · simp [ticket, hk]

end Tickets

theorem filter_ne_of_notMem {q : List ℕ} (hq : sid ∉ q) : (q.filter fun k => k ≠ sid) = q := by
  rw [List.filter_eq_self]
  intro k hk
  have hne : k ≠ sid := fun he => hq (he ▸ hk)
  simpa using hne

theorem pool_leave (hc : Coherent v) (ht : v.tenant sid = some t) (hb : t.board = some i) :
    sid ∉ v.queue ∧ (v.leave sid t).pool = ⟨insert i v.pool.free, v.pool.line⟩ := by
  have hq : sid ∉ v.queue := by
    refine hc.notMem_queue ht fun hst => ?_
    rw [(hc.board_none sid t ht).2 (Or.inr hst)] at hb
    cases hb
  refine ⟨hq, ?_⟩
  simp only [pool, leave, filter_ne_of_notMem hq, map_ticket_update none hq, Pool.mk.injEq,
    and_true]
  ext j
  simp only [hb, Option.some.injEq, Set.mem_ofPred_eq, Set.mem_insert_iff]
  by_cases hj : i = j
  · simp [hj]
  · simp [hj, Ne.symm hj]

theorem pool_leave_none (hb : t.board = none) :
    (v.leave sid t).pool = ⟨v.pool.free, v.pool.line.filter fun x => x.1 ≠ sid⟩ := by
  have hq : sid ∉ v.queue.filter fun k => k ≠ sid := by simp
  simp only [pool, leave, hb, reduceCtorEq, ↓reduceIte, map_ticket_update none hq, Pool.mk.injEq,
    true_and]
  rw [List.filter_map]
  rfl

theorem freed_board (hw : Pool.WorkConserving (May v.spec) v.pool) (hk : k ∈ v.queue)
    (hu : v.tenant k = some u) (hf : (v.leave sid t).Free i u.name) : t.board = some i := by
  by_contra hb
  have ho : v.owner i = none := by
    have hl := hf.1
    simpa [leave, hb] using hl
  refine hw (k, u.name) ?_ i ho hf.2
  rw [← ticket_of_tenant hu]
  exact List.mem_map_of_mem hk

theorem pool_handOver (pid : Pid) (argv : List Bytes) (stdio : Option (ℤ × ℤ × ℤ))
    {pre post : List ℕ} (hc : Coherent v) (hl : Lined S v.tenant v.queue)
    (hw : Pool.WorkConserving (May v.spec) v.pool) (ht : v.tenant sid = some t)
    (hq : (v.leave sid t).queue = pre ++ k :: post) (hk : (v.leave sid t).tenant k = some u)
    (hf : (v.leave sid t).Free i u.name)
    (hpre : ∀ j ∈ pre, ∀ w, (v.leave sid t).tenant j = some w →
      ∀ i, ¬(v.leave sid t).Free i w.name) :
    t.board = some i ∧ v.queue = pre ++ k :: post ∧
      (∀ j ∈ pre, ∀ w, v.tenant j = some w → ¬May v.spec (j, w.name) i) ∧
      (((v.leave sid t).dequeue k).start k i u .command pid argv stdio).queue = pre ++ post ∧
      Pool.Step (May v.spec) v.pool (some ((k, u.name), i))
        (((v.leave sid t).dequeue k).start k i u .command pid argv stdio).pool := by
  have hks : k ≠ sid ∧ v.tenant k = some u := by
    simp only [leave, Function.update_apply] at hk
    by_cases he : k = sid
    · rw [if_pos he] at hk
      cases hk
    · rw [if_neg he] at hk
      exact ⟨he, hk⟩
  have hkq : k ∈ v.queue := by
    have hmem : k ∈ (v.leave sid t).queue := by
      rw [hq]
      exact List.mem_append_right _ List.mem_cons_self
    exact List.mem_of_mem_filter hmem
  have hb := freed_board hw hkq hks.2 hf
  obtain ⟨hsq, _⟩ := pool_leave hc ht hb
  have hvq : v.queue = pre ++ k :: post := by
    rw [← hq, leave, filter_ne_of_notMem hsq]
  have hno : ∀ j ∈ pre, ∀ w, v.tenant j = some w → ¬May v.spec (j, w.name) i := by
    intro j hj w hwt hm
    have hjs : j ≠ sid := by
      intro he
      refine hsq ?_
      rw [hvq, ← he]
      exact List.mem_append_left _ hj
    exact hpre j hj w (by simp [leave, hjs, hwt]) i ⟨hf.1, hm⟩
  have hnd : k ∉ pre ∧ k ∉ post := by
    have hn := hl.nodup
    rw [hvq, List.nodup_append] at hn
    refine ⟨fun hmem => hn.2.2 k hmem k List.mem_cons_self rfl, ?_⟩
    exact (List.nodup_cons.1 hn.2.1).1
  have hfil : (((v.leave sid t).dequeue k).start k i u .command pid argv stdio).queue =
      pre ++ post := by
    change (v.leave sid t).queue.filter (fun j => j ≠ k) = pre ++ post
    rw [hq, List.filter_append, List.filter_cons_of_neg (by simp), filter_ne_of_notMem hnd.1,
      filter_ne_of_notMem hnd.2]
  refine ⟨hb, hvq, hno, hfil, ?_⟩
  have hpool : (((v.leave sid t).dequeue k).start k i u .command pid argv stdio).pool =
      ⟨v.pool.free, pre.map (ticket v.tenant) ++ post.map (ticket v.tenant)⟩ := by
    have hkpp : k ∉ pre ++ post := by
      simpa using hnd
    have hspp : sid ∉ pre ++ post := by
      intro hmem
      refine hsq ?_
      rw [hvq]
      rcases List.mem_append.1 hmem with hmem | hmem
      · exact List.mem_append_left _ hmem
      · exact List.mem_append_right _ (List.mem_cons_of_mem _ hmem)
    simp only [pool, hfil, Pool.mk.injEq]
    refine ⟨?_, ?_⟩
    · ext j
      simp only [start, dequeue, leave, Function.update_apply, Set.mem_ofPred_eq]
      by_cases hj : j = i
      · have ho := (hc.owner_iff i sid).2 ⟨t, ht, hb⟩
        simp [hj, ho]
      · simp [hj, hb, Ne.symm hj]
    · simp only [start, dequeue, leave]
      rw [map_ticket_update _ hkpp, map_ticket_update _ hspp, List.map_append]
  rw [hpool]
  refine .handOver ?_ hf.2 ?_
  · simp only [pool, hvq, List.map_append, List.map_cons, ticket_of_tenant hks.2]
  · intro x hx
    obtain ⟨j, hj, rfl⟩ := List.mem_map.1 hx
    have hjq : j ∈ v.queue := by
      rw [hvq]
      exact List.mem_append_left _ hj
    obtain ⟨w, hwt, _⟩ := hc.queued j hjq
    rw [ticket_of_tenant hwt]
    exact hno j hj w hwt

/-- The tenancies refine a pool, and the pool step names whoever gets a board. -/
theorem pool_step (hc : Coherent v) (hl : Lined S v.tenant v.queue)
    (hw : Pool.WorkConserving (May v.spec) v.pool) (hs : Step (Once T) forced v v') :
    ∃ got, Pool.Step (May v.spec) v.pool got v'.pool ∧
      ∀ i b, v'.owner i = some b → v.owner i = some b ∨ ∃ n, got = some ((b, n), i) := by
  cases hs with
  | @accept name =>
    refine ⟨none, ?_, fun i b h => Or.inl h⟩
    have hq : v.counter ∉ v.queue := by
      intro hmem
      obtain ⟨t, ht, _⟩ := hc.queued _ hmem
      exact absurd (hc.tenant_lt _ t ht) (Nat.lt_irrefl _)
    simp only [pool, accept, map_ticket_update _ hq]
    exact .idle _
  | @rename sid t name ht hset =>
    refine ⟨none, ?_, fun i b h => Or.inl h⟩
    have hq : sid ∉ v.queue := hc.notMem_queue ht (by rw [hset.1]; decide)
    simp only [pool, rename, map_ticket_update _ hq]
    exact .idle _
  | @wait sid t ht hset hb hno =>
    refine ⟨none, ?_, fun i b h => Or.inl h⟩
    have hq : sid ∉ v.queue := hc.notMem_queue ht (by rw [hset.1]; decide)
    have hp : (v.wait sid t).pool = ⟨v.pool.free, v.pool.line ++ [(sid, t.name)]⟩ := by
      simp only [pool, wait, List.map_append, map_ticket_update _ hq]
      simp [ticket]
    rw [hp]
    exact .wait fun i ho hm => hno i ⟨ho, hm⟩
  | @grant sid i t pid argv stdio ht hset hb hq hf hp =>
    have hpool : (v.start sid i t .command pid argv stdio).pool =
        ⟨v.pool.free \ {i}, v.pool.line⟩ := by
      simp only [pool, start, map_ticket_update _ hq, Pool.mk.injEq, and_true]
      ext j
      by_cases hj : j = i <;> simp [Function.update_apply, hj]
    refine ⟨some ((sid, t.name), i), ?_, ?_⟩
    · rw [hpool]
      exact .serve hf.1 hf.2
    · intro j b h
      simp only [start, Function.update_apply] at h
      by_cases hj : j = i
      · rw [if_pos hj, Option.some.injEq] at h
        exact Or.inr ⟨t.name, by rw [h, hj]⟩
      · rw [if_neg hj] at h
        exact Or.inl h
  | @close sid i t pid argv ht hst hwn hb hp =>
    have ho : v.owner i = some sid := (hc.owner_iff i sid).2 ⟨t, ht, hb⟩
    have hown : Function.update v.owner i (some sid) = v.owner := by
      rw [← ho, Function.update_eq_self]
    refine ⟨none, ?_, fun j b h => Or.inl ?_⟩
    · simp only [pool, start, hown, map_ticket_amend ht]
      exact .idle _
    · rw [← hown]
      exact h
  | @leave sid t ht hm hno =>
    refine ⟨none, ?_, ?_⟩
    · cases hb : t.board with
      | none =>
        rw [pool_leave_none hb]
        exact .quit _
      | some i =>
        obtain ⟨hq, hp⟩ := pool_leave hc ht hb
        rw [hp]
        refine .release ?_
        intro x hx hmay
        obtain ⟨k, hk, rfl⟩ := List.mem_map.1 hx
        obtain ⟨w, hwt, _⟩ := hc.queued k hk
        rw [ticket_of_tenant hwt] at hmay
        have hks : k ≠ sid := fun he => hq (he ▸ hk)
        refine hno k ?_ w (by simp [leave, hks, hwt]) i ⟨by simp [leave, hb], hmay⟩
        exact List.mem_filter.2 ⟨hk, by simpa using hks⟩
    · intro i b h
      simp only [leave] at h
      by_cases hb : t.board = some i
      · rw [if_pos hb] at h
        cases h
      · rw [if_neg hb] at h
        exact Or.inl h
  | @handOver sid k i t u pid argv stdio pre post ht hm hq hk hf hpre hp =>
    obtain ⟨hb, _, _, _, hstep⟩ := pool_handOver pid argv stdio hc hl hw ht hq hk hf
      hpre
    refine ⟨_, hstep, ?_⟩
    intro j b h
    simp only [start, dequeue, leave, Function.update_apply] at h
    by_cases hj : j = i
    · rw [if_pos hj, Option.some.injEq] at h
      exact Or.inr ⟨u.name, by rw [h, hj]⟩
    · have hbj : t.board ≠ some j := by
        rw [hb]
        exact fun he => hj (Option.some.inj he).symm
      rw [if_neg hj, if_neg hbj] at h
      exact Or.inl h
  | exits => exact ⟨none, .idle _, fun i b h => Or.inl h⟩
  | reapUnwatched => exact ⟨none, .idle _, fun i b h => Or.inl h⟩
  | @reap sid t c z ht =>
    refine ⟨none, ?_, fun i b h => Or.inl h⟩
    simp only [pool, unwatch, move, map_ticket_amend ht]
    exact .idle _

end Tenancy
end BoardProxy
