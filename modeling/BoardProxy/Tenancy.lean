import BoardProxy.DaemonState
import Mathlib.Logic.Function.Basic

/-!
# Tenancies

What the daemon is for, without descriptors, buffers and proxies: tenants hold
boards, wait for boards, and have at most one child process each. `Coherent` says
that the five places in which a tenancy is recorded agree. Each operation keeps
it under the guard that is stated with the operation's theorem.
-/

namespace BoardProxy

def ProcessKind.status : ProcessKind → Status
  | .command => .hasBoard
  | .closeCommand => .closingBoard

theorem ProcessKind.status_ne_awaiting (kind : ProcessKind) : kind.status ≠ .awaitingBoard := by
  cases kind <;> decide

def ProcessKind.callback : ProcessKind → ChildCallback
  | .command => .onProcessExit
  | .closeCommand => .onCloseCommandExit

def Process.moved (pid : Pid) (a b : ProcessState) (p : Process) : Process :=
  if p.pid = pid ∧ p.state = a then { p with state := b } else p

theorem Process.moved_fields (pid : Pid) (a b : ProcessState) (p : Process) :
    (p.moved pid a b).pid = p.pid ∧ (p.moved pid a b).kind = p.kind ∧
      (p.moved pid a b).session = p.session ∧ (p.moved pid a b).board = p.board := by
  by_cases hc : p.pid = pid ∧ p.state = a <;> simp [moved, hc]

structure Tenant where
  status : Status
  board : Option ℕ
  watch : Option ChildWatcher
  name : Bytes
deriving DecidableEq

@[ext] structure Tenancy where
  tenant : ℕ → Option Tenant
  owner : ℕ → Option ℕ
  queue : List ℕ
  ids : List ℕ
  counter : ℕ
  processes : List Process
  spec : ℕ → Option BoardSpec

namespace Tenancy

variable {v : Tenancy} {sid i : ℕ} {t : Tenant} {pid : Pid} {argv : List Bytes}
  {stdio : Option (ℤ × ℤ × ℤ)}

def accept (v : Tenancy) (name : Bytes) : Tenancy :=
  { v with
    tenant := Function.update v.tenant v.counter (some ⟨.created, none, none, name⟩)
    ids := v.ids ++ [v.counter]
    counter := v.counter + 1 }

def rename (v : Tenancy) (sid : ℕ) (t : Tenant) (name : Bytes) : Tenancy :=
  { v with tenant := Function.update v.tenant sid (some { t with name := name }) }

def wait (v : Tenancy) (sid : ℕ) (t : Tenant) : Tenancy :=
  { v with
    tenant := Function.update v.tenant sid (some { t with status := .awaitingBoard })
    queue := v.queue ++ [sid] }

def dequeue (v : Tenancy) (sid : ℕ) : Tenancy :=
  { v with queue := v.queue.filter fun k => k ≠ sid }

def start (v : Tenancy) (sid i : ℕ) (t : Tenant) (kind : ProcessKind) (pid : Pid)
    (argv : List Bytes) (stdio : Option (ℤ × ℤ × ℤ)) : Tenancy :=
  { v with
    tenant := Function.update v.tenant sid
      (some ⟨kind.status, some i, some ⟨pid, kind.callback⟩, t.name⟩)
    owner := Function.update v.owner i (some sid)
    processes := v.processes ++ [⟨pid, kind, sid, i, argv, stdio, .running⟩] }

def leave (v : Tenancy) (sid : ℕ) (t : Tenant) : Tenancy :=
  { v with
    tenant := Function.update v.tenant sid none
    owner := fun j => if t.board = some j then none else v.owner j
    queue := v.queue.filter fun k => k ≠ sid
    ids := v.ids.filter fun k => k ≠ sid }

def move (v : Tenancy) (pid : Pid) (a b : ProcessState) : Tenancy :=
  { v with processes := v.processes.map (Process.moved pid a b) }

def unwatch (v : Tenancy) (sid : ℕ) (t : Tenant) : Tenancy :=
  { v with tenant := Function.update v.tenant sid (some { t with watch := none }) }

theorem unwatch_self (v : Tenancy) (sid : ℕ) (t : Tenant) :
    (v.unwatch sid t).tenant sid = some { t with watch := none } := Function.update_self ..

structure Holding (v : Tenancy) : Prop where
  ids_nodup : v.ids.Nodup
  ids_lt : ∀ k ∈ v.ids, k < v.counter
  tenant_lt : ∀ k t, v.tenant k = some t → k < v.counter
  owner_iff : ∀ i k, v.owner i = some k ↔ ∃ t, v.tenant k = some t ∧ t.board = some i
  board_none : ∀ k t, v.tenant k = some t →
    (t.board = none ↔ t.status = .created ∨ t.status = .awaitingBoard)
  queued : ∀ k ∈ v.queue, ∃ t, v.tenant k = some t ∧ t.status = .awaitingBoard

structure Children (v : Tenancy) : Prop where
  pids : ∀ p ∈ v.processes, ∀ q ∈ v.processes, p.state ≠ .reaped → q.state ≠ .reaped →
    p.pid = q.pid → p = q
  known : ∀ p ∈ v.processes, p.session < v.counter
  live : ∀ p ∈ v.processes, p.state ≠ .reaped → ∀ t, v.tenant p.session = some t →
    t.status = p.kind.status ∧ t.board = some p.board ∧ t.watch = some ⟨p.pid, p.kind.callback⟩
  command : ∀ p ∈ v.processes, p.state ≠ .reaped → p.kind = .command →
    ∃ t, v.tenant p.session = some t
  watched : ∀ k t c, v.tenant k = some t → t.watch = some c →
    ∃ p ∈ v.processes, p.state ≠ .reaped ∧ p.session = k ∧ p.pid = c.pid
  started : ∀ k t i, v.tenant k = some t → t.board = some i →
    (∃ p ∈ v.processes, p.kind = .command ∧ p.session = k ∧ p.board = i) ∧
    (t.status = .closingBoard → ∃ p ∈ v.processes, p.kind = .closeCommand ∧ p.session = k ∧
      p.board = i)

structure Coherent (v : Tenancy) : Prop extends Holding v, Children v

def Unused (v : Tenancy) (pid : Pid) : Prop := ∀ p ∈ v.processes, p.pid = pid → p.state = .reaped

theorem update_eq_some {f : ℕ → Option Tenant} {u t : Tenant} {k : ℕ}
    (h : Function.update f sid (some u) k = some t) :
    (k = sid ∧ t = u) ∨ (k ≠ sid ∧ f k = some t) := by
  rw [Function.update_apply] at h
  by_cases hk : k = sid
  · rw [if_pos hk, Option.some.injEq] at h
    exact Or.inl ⟨hk, h.symm⟩
  · rw [if_neg hk] at h
    exact Or.inr ⟨hk, h⟩

theorem exists_update {f : ℕ → Option Tenant} (u : Tenant) {k : ℕ} (h : ∃ t, f k = some t) :
    ∃ t, Function.update f sid (some u) k = some t := by
  by_cases hk : k = sid
  · exact ⟨u, by rw [hk, Function.update_self]⟩
  · rw [Function.update_of_ne hk]
    exact h

theorem Holding.amend (h : Holding v) (ht : v.tenant sid = some t) {u : Tenant}
    (hs : u.status = t.status) (hb : u.board = t.board) :
    Holding { v with tenant := Function.update v.tenant sid (some u) } := by
  have hold : ∀ k t', v.tenant k = some t' →
      ∃ u', Function.update v.tenant sid (some u) k = some u' ∧
      u'.status = t'.status ∧ u'.board = t'.board := by
    intro k t' ht'
    by_cases hk : k = sid
    · subst hk
      rw [ht, Option.some.injEq] at ht'
      subst ht'
      exact ⟨u, Function.update_self .., hs, hb⟩
    · exact ⟨t', by rw [Function.update_of_ne hk, ht'], rfl, rfl⟩
  have hnew : ∀ k u', Function.update v.tenant sid (some u) k = some u' →
      ∃ t', v.tenant k = some t' ∧ u'.status = t'.status ∧ u'.board = t'.board := by
    intro k u' hu'
    rcases update_eq_some hu' with ⟨rfl, rfl⟩ | ⟨_, ht'⟩
    · exact ⟨t, ht, hs, hb⟩
    · exact ⟨u', ht', rfl, rfl⟩
  refine
    { ids_nodup := h.ids_nodup, ids_lt := h.ids_lt, tenant_lt := ?_, owner_iff := ?_,
      board_none := ?_, queued := ?_ }
  · intro k u' hu'
    obtain ⟨t', ht', _⟩ := hnew k u' hu'
    exact h.tenant_lt k t' ht'
  · intro i k
    refine (h.owner_iff i k).trans ⟨?_, ?_⟩
    · intro ⟨t', ht', hi⟩
      obtain ⟨u', hu', _, hb'⟩ := hold k t' ht'
      exact ⟨u', hu', hb'.trans hi⟩
    · intro ⟨u', hu', hi⟩
      obtain ⟨t', ht', _, hb'⟩ := hnew k u' hu'
      exact ⟨t', ht', hb'.symm.trans hi⟩
  · intro k u' hu'
    obtain ⟨t', ht', hs', hb'⟩ := hnew k u' hu'
    rw [hs', hb']
    exact h.board_none k t' ht'
  · intro k hk
    obtain ⟨t', ht', hst⟩ := h.queued k hk
    obtain ⟨u', hu', hs', _⟩ := hold k t' ht'
    exact ⟨u', hu', hs'.trans hst⟩

theorem Children.started_amend (h : Children v) (ht : v.tenant sid = some t) {u : Tenant}
    (hs : u.status = t.status) (hb : u.board = t.board) (k : ℕ) (u' : Tenant) (i : ℕ)
    (hu' : Function.update v.tenant sid (some u) k = some u') (hi : u'.board = some i) :
    (∃ p ∈ v.processes, p.kind = .command ∧ p.session = k ∧ p.board = i) ∧
    (u'.status = .closingBoard → ∃ p ∈ v.processes, p.kind = .closeCommand ∧ p.session = k ∧
      p.board = i) := by
  rcases update_eq_some hu' with ⟨rfl, rfl⟩ | ⟨_, hu'⟩
  · rw [hs]
    exact h.started k t i ht (hb.symm.trans hi)
  · exact h.started k u' i hu' hi

namespace Coherent

theorem not_owned (h : Coherent v) (ht : v.tenant sid = some t) (hb : t.board = none) (j : ℕ) :
    v.owner j ≠ some sid := by
  intro ho
  obtain ⟨u, hu, hj⟩ := (h.owner_iff j sid).1 ho
  rw [ht, Option.some.injEq] at hu
  subst hu
  rw [hb] at hj
  cases hj

theorem owner_unique (h : Coherent v) {k j : ℕ} (hi : v.owner i = some k)
    (hj : v.owner j = some k) :
    i = j := by
  obtain ⟨t, ht, hti⟩ := (h.owner_iff i k).1 hi
  obtain ⟨u, hu, huj⟩ := (h.owner_iff j k).1 hj
  rw [ht, Option.some.injEq] at hu
  subst hu
  rw [hti, Option.some.injEq] at huj
  exact huj

theorem all_reaped (h : Coherent v) (ht : v.tenant sid = some t) (hw : t.watch = none) :
    ∀ p ∈ v.processes, p.session = sid → p.state = .reaped := by
  intro p hp hs
  by_contra hr
  subst hs
  have hl := (h.live p hp hr t ht).2.2
  rw [hw] at hl
  cases hl

theorem accept (h : Coherent v) (name : Bytes) : Coherent (v.accept name) := by
  have hne : ∀ k < v.counter, k ≠ v.counter := fun k hk => Nat.ne_of_lt hk
  have hold : ∀ k t, v.tenant k = some t → (v.accept name).tenant k = some t := by
    intro k t ht
    simp [Tenancy.accept, hne k (h.tenant_lt k t ht), ht]
  have hnew : ∀ k t, (v.accept name).tenant k = some t →
      (k = v.counter ∧ t = ⟨.created, none, none, name⟩) ∨ v.tenant k = some t := by
    intro k t ht
    simp only [Tenancy.accept, Function.update_apply] at ht
    by_cases hk : k = v.counter
    · rw [if_pos hk, Option.some.injEq] at ht
      exact Or.inl ⟨hk, ht.symm⟩
    · rw [if_neg hk] at ht
      exact Or.inr ht
  refine
    { ids_nodup := ?_, ids_lt := ?_, tenant_lt := ?_, owner_iff := ?_, board_none := ?_,
      queued := ?_, pids := h.pids, known := ?_, live := ?_, command := ?_, watched := ?_,
      started := ?_ }
  · refine List.Nodup.append h.ids_nodup (List.nodup_singleton _) ?_
    intro k hk hk'
    exact hne k (h.ids_lt k hk) (List.mem_singleton.1 hk')
  · intro k hk
    rcases List.mem_append.1 hk with hk | hk
    · exact Nat.lt_succ_of_lt (h.ids_lt k hk)
    · rw [List.mem_singleton.1 hk]
      exact Nat.lt_succ_self _
  · intro k t ht
    rcases hnew k t ht with ⟨rfl, _⟩ | ht
    · exact Nat.lt_succ_self _
    · exact Nat.lt_succ_of_lt (h.tenant_lt k t ht)
  · intro i k
    refine (h.owner_iff i k).trans ⟨?_, ?_⟩
    · intro ⟨t, ht, hb⟩
      exact ⟨t, hold k t ht, hb⟩
    · intro ⟨t, ht, hb⟩
      rcases hnew k t ht with ⟨_, rfl⟩ | ht
      · cases hb
      · exact ⟨t, ht, hb⟩
  · intro k t ht
    rcases hnew k t ht with ⟨_, rfl⟩ | ht
    · simp
    · exact h.board_none k t ht
  · intro k hk
    obtain ⟨t, ht, hst⟩ := h.queued k hk
    exact ⟨t, hold k t ht, hst⟩
  · exact fun p hp => Nat.lt_succ_of_lt (h.known p hp)
  · intro p hp hr t ht
    rcases hnew p.session t ht with ⟨hk, _⟩ | ht
    · exact absurd hk (hne _ (h.known p hp))
    · exact h.live p hp hr t ht
  · intro p hp hr hk
    obtain ⟨t, ht⟩ := h.command p hp hr hk
    exact ⟨t, hold _ t ht⟩
  · intro k t c ht hc
    rcases hnew k t ht with ⟨_, rfl⟩ | ht
    · cases hc
    · exact h.watched k t c ht hc
  · intro k t i ht hb
    rcases hnew k t ht with ⟨_, rfl⟩ | ht
    · cases hb
    · exact h.started k t i ht hb

theorem amend (h : Coherent v) (ht : v.tenant sid = some t) {u : Tenant}
    (hs : u.status = t.status) (hb : u.board = t.board) (hw : u.watch = t.watch) :
    Coherent { v with tenant := Function.update v.tenant sid (some u) } := by
  refine
    { toHolding := h.toHolding.amend ht hs hb, pids := h.pids, known := h.known, live := ?_,
      command := fun p hp hr hk => exists_update u (h.command p hp hr hk), watched := ?_,
      started := h.started_amend ht hs hb }
  · intro p hp hr u' hu'
    rcases update_eq_some hu' with ⟨hps, rfl⟩ | ⟨_, hu'⟩
    · rw [hs, hb, hw]
      exact h.live p hp hr t (hps ▸ ht)
    · exact h.live p hp hr u' hu'
  · intro k u' c hu' hc
    rcases update_eq_some hu' with ⟨rfl, rfl⟩ | ⟨_, hu'⟩
    · exact h.watched k t c ht (hw.symm.trans hc)
    · exact h.watched k u' c hu' hc

theorem rename (h : Coherent v) (ht : v.tenant sid = some t) (name : Bytes) :
    Coherent (v.rename sid t name) :=
  h.amend ht rfl rfl rfl

theorem wait (h : Coherent v) (ht : v.tenant sid = some t) (hb : t.board = none) :
    Coherent (v.wait sid t) := by
  refine
    { ids_nodup := h.ids_nodup, ids_lt := h.ids_lt, tenant_lt := ?_, owner_iff := ?_,
      board_none := ?_, queued := ?_, pids := h.pids, known := h.known, live := ?_,
      command := fun p hp hr hk => exists_update _ (h.command p hp hr hk), watched := ?_,
      started := ?_ }
  · intro k u hu
    rcases update_eq_some hu with ⟨rfl, _⟩ | ⟨_, hu⟩
    · exact h.tenant_lt k t ht
    · exact h.tenant_lt k u hu
  · intro i k
    refine (h.owner_iff i k).trans ⟨?_, ?_⟩
    · intro ⟨u, hu, hi⟩
      have hk : k ≠ sid := by
        intro hk
        rw [hk, ht, Option.some.injEq] at hu
        rw [← hu, hb] at hi
        cases hi
      exact ⟨u, by simp [Tenancy.wait, hk, hu], hi⟩
    · intro ⟨u, hu, hi⟩
      rcases update_eq_some hu with ⟨_, rfl⟩ | ⟨_, hu⟩
      · rw [hb] at hi
        cases hi
      · exact ⟨u, hu, hi⟩
  · intro k u hu
    rcases update_eq_some hu with ⟨_, rfl⟩ | ⟨_, hu⟩
    · simp [hb]
    · exact h.board_none k u hu
  · intro k hk
    by_cases hks : k = sid
    · exact ⟨{ t with status := .awaitingBoard }, by simp [Tenancy.wait, hks], rfl⟩
    · have hk : k ∈ v.queue := by
        rcases List.mem_append.1 hk with hk | hk
        · exact hk
        · exact absurd (List.mem_singleton.1 hk) hks
      obtain ⟨u, hu, hst⟩ := h.queued k hk
      exact ⟨u, by simp [Tenancy.wait, hks, hu], hst⟩
  · intro p hp hr u hu
    rcases update_eq_some hu with ⟨hs, _⟩ | ⟨_, hu⟩
    · have hl := (h.live p hp hr t (hs ▸ ht)).2.1
      rw [hb] at hl
      cases hl
    · exact h.live p hp hr u hu
  · intro k u c hu hc
    rcases update_eq_some hu with ⟨rfl, rfl⟩ | ⟨_, hu⟩
    · exact h.watched k t c ht hc
    · exact h.watched k u c hu hc
  · intro k u i hu hi
    rcases update_eq_some hu with ⟨_, rfl⟩ | ⟨_, hu⟩
    · rw [hb] at hi
      cases hi
    · exact h.started k u i hu hi

theorem dequeue (h : Coherent v) (sid : ℕ) : Coherent (v.dequeue sid) :=
  { ids_nodup := h.ids_nodup, ids_lt := h.ids_lt, tenant_lt := h.tenant_lt,
    owner_iff := h.owner_iff, board_none := h.board_none,
    queued := fun k hk => h.queued k (List.mem_of_mem_filter hk), pids := h.pids, known := h.known,
    live := h.live, command := h.command, watched := h.watched, started := h.started }

theorem leave (h : Coherent v) (ht : v.tenant sid = some t)
    (hg : t.status = .hasBoard → t.watch = none) : Coherent (v.leave sid t) := by
  have hold : ∀ k u, k ≠ sid → v.tenant k = some u → (v.leave sid t).tenant k = some u := by
    intro k u hk hu
    simp [Tenancy.leave, hk, hu]
  have hnew : ∀ k u, (v.leave sid t).tenant k = some u → k ≠ sid ∧ v.tenant k = some u := by
    intro k u hu
    simp only [Tenancy.leave, Function.update_apply] at hu
    by_cases hk : k = sid
    · rw [if_pos hk] at hu
      cases hu
    · rw [if_neg hk] at hu
      exact ⟨hk, hu⟩
  refine
    { ids_nodup := h.ids_nodup.filter _, ids_lt := ?_, tenant_lt := ?_, owner_iff := ?_,
      board_none := ?_, queued := ?_, pids := h.pids, known := h.known, live := ?_, command := ?_,
      watched := ?_, started := ?_ }
  · exact fun k hk => h.ids_lt k (List.mem_of_mem_filter hk)
  · exact fun k u hu => h.tenant_lt k u (hnew k u hu).2
  · intro i k
    simp only [Tenancy.leave]
    by_cases hi : t.board = some i
    · rw [if_pos hi]
      refine ⟨fun hn => (by cases hn), ?_⟩
      intro ⟨u, hu, hui⟩
      obtain ⟨hk, hu⟩ := hnew k u hu
      have hoi := (h.owner_iff i sid).2 ⟨t, ht, hi⟩
      rw [(h.owner_iff i k).2 ⟨u, hu, hui⟩, Option.some.injEq] at hoi
      exact absurd hoi hk
    · rw [if_neg hi]
      refine (h.owner_iff i k).trans ⟨?_, ?_⟩
      · intro ⟨u, hu, hui⟩
        have hk : k ≠ sid := by
          intro hk
          rw [hk, ht, Option.some.injEq] at hu
          exact hi (hu ▸ hui)
        exact ⟨u, hold k u hk hu, hui⟩
      · intro ⟨u, hu, hui⟩
        exact ⟨u, (hnew k u hu).2, hui⟩
  · exact fun k u hu => h.board_none k u (hnew k u hu).2
  · intro k hk
    obtain ⟨hk, hks⟩ := List.mem_filter.1 hk
    obtain ⟨u, hu, hst⟩ := h.queued k hk
    exact ⟨u, hold k u (by simpa using hks) hu, hst⟩
  · exact fun p hp hr u hu => h.live p hp hr u (hnew _ u hu).2
  · intro p hp hr hk
    obtain ⟨u, hu⟩ := h.command p hp hr hk
    refine ⟨u, hold _ u ?_ hu⟩
    intro hs
    obtain ⟨hst, _, hw⟩ := h.live p hp hr t (hs ▸ ht)
    rw [hk] at hst
    rw [hg hst] at hw
    cases hw
  · exact fun k u c hu hc => h.watched k u c (hnew k u hu).2 hc
  · exact fun k u i hu hi => h.started k u i (hnew k u hu).2 hi

theorem pids_append (h : Coherent v) {n : Process} (hn : v.Unused n.pid) :
    ∀ p ∈ v.processes ++ [n], ∀ q ∈ v.processes ++ [n], p.state ≠ .reaped → q.state ≠ .reaped →
      p.pid = q.pid → p = q := by
  intro p hp q hq hpr hqr hpq
  rcases List.mem_append.1 hp with hp | hp <;> rcases List.mem_append.1 hq with hq | hq
  · exact h.pids p hp q hq hpr hqr hpq
  · rw [List.mem_singleton.1 hq] at hpq
    exact absurd (hn p hp hpq) hpr
  · rw [List.mem_singleton.1 hp] at hpq
    exact absurd (hn q hq hpq.symm) hqr
  · rw [List.mem_singleton.1 hp, List.mem_singleton.1 hq]

theorem start (h : Coherent v) (ht : v.tenant sid = some t) (hq : sid ∉ v.queue)
    (hr : ∀ p ∈ v.processes, p.session = sid → p.state = .reaped) (hp : v.Unused pid)
    (ho : v.owner i = none ∨ v.owner i = some sid) (hb : ∀ j, t.board = some j → j = i)
    {kind : ProcessKind} (hk : kind = .closeCommand →
      ∃ p ∈ v.processes, p.kind = .command ∧ p.session = sid ∧ p.board = i) :
    Coherent (v.start sid i t kind pid argv stdio) := by
  have hmem : ∀ p ∈ (v.start sid i t kind pid argv stdio).processes,
      p ∈ v.processes ∨ p = ⟨pid, kind, sid, i, argv, stdio, .running⟩ := by
    intro p hp
    rcases List.mem_append.1 hp with hp | hp
    · exact Or.inl hp
    · exact Or.inr (List.mem_singleton.1 hp)
  have hnew : (⟨pid, kind, sid, i, argv, stdio, .running⟩ : Process) ∈
      (v.start sid i t kind pid argv stdio).processes :=
    List.mem_append_right _ (List.mem_singleton_self _)
  refine
    { ids_nodup := h.ids_nodup, ids_lt := h.ids_lt, tenant_lt := ?_, owner_iff := ?_,
      board_none := ?_, queued := ?_, pids := h.pids_append hp, known := ?_, live := ?_,
      command := ?_, watched := ?_, started := ?_ }
  · intro k u hu
    rcases update_eq_some hu with ⟨rfl, _⟩ | ⟨_, hu⟩
    · exact h.tenant_lt k t ht
    · exact h.tenant_lt k u hu
  · intro j k
    have hkt : (v.start sid i t kind pid argv stdio).tenant k = if k = sid then
        some ⟨kind.status, some i, some ⟨pid, kind.callback⟩, t.name⟩ else v.tenant k :=
      Function.update_apply ..
    have hjo : (v.start sid i t kind pid argv stdio).owner j =
        if j = i then some sid else v.owner j := Function.update_apply ..
    rw [hkt, hjo]
    by_cases hji : j = i <;> by_cases hks : k = sid
    · simp [hji, hks]
    · have hno : ¬∃ u, v.tenant k = some u ∧ u.board = some i := by
        rw [← h.owner_iff]
        rcases ho with ho | ho
        · simp [ho]
        · simp [ho, Ne.symm hks]
      simp only [hji, hks, ↓reduceIte, Option.some.injEq]
      exact iff_of_false (fun he => hks he.symm) hno
    · have hno : v.owner j ≠ some sid := by
        intro hj
        obtain ⟨u, hu, huj⟩ := (h.owner_iff j sid).1 hj
        rw [ht, Option.some.injEq] at hu
        subst hu
        exact hji (hb j huj)
      simp [hji, hks, hno, Ne.symm hji]
    · simp only [hji, hks, ↓reduceIte]
      exact h.owner_iff j k
  · intro k u hu
    rcases update_eq_some hu with ⟨_, rfl⟩ | ⟨_, hu⟩
    · cases kind <;> simp [ProcessKind.status]
    · exact h.board_none k u hu
  · intro k hk
    obtain ⟨u, hu, hst⟩ := h.queued k hk
    have hks : k ≠ sid := fun he => hq (he ▸ hk)
    exact ⟨u, by simp [Tenancy.start, hks, hu], hst⟩
  · intro p hp
    rcases hmem p hp with hp | rfl
    · exact h.known p hp
    · exact h.tenant_lt sid t ht
  · intro p hp hpr u hu
    rcases hmem p hp with hp | rfl
    · rcases update_eq_some hu with ⟨hs, _⟩ | ⟨_, hu⟩
      · exact absurd (hr p hp hs) hpr
      · exact h.live p hp hpr u hu
    · rcases update_eq_some hu with ⟨_, rfl⟩ | ⟨hs, _⟩
      · exact ⟨rfl, rfl, rfl⟩
      · exact absurd rfl hs
  · intro p hp hpr hkc
    rcases hmem p hp with hp | rfl
    · exact exists_update _ (h.command p hp hpr hkc)
    · exact ⟨_, Function.update_self ..⟩
  · intro k u c hu hc
    rcases update_eq_some hu with ⟨rfl, rfl⟩ | ⟨_, hu⟩
    · obtain rfl : (⟨pid, kind.callback⟩ : ChildWatcher) = c := by simpa using hc
      exact ⟨_, hnew, by simp, rfl, rfl⟩
    · obtain ⟨p, hp, hw⟩ := h.watched k u c hu hc
      exact ⟨p, List.mem_append_left _ hp, hw⟩
  · intro k u j hu hj
    rcases update_eq_some hu with ⟨rfl, rfl⟩ | ⟨_, hu⟩
    · obtain rfl : i = j := by simpa using hj
      cases kind with
      | command => exact ⟨⟨_, hnew, rfl, rfl, rfl⟩, fun hn => (by cases hn)⟩
      | closeCommand =>
        obtain ⟨p, hp, hpk⟩ := hk rfl
        exact ⟨⟨p, List.mem_append_left _ hp, hpk⟩, fun _ => ⟨_, hnew, rfl, rfl, rfl⟩⟩
    · obtain ⟨⟨p, hp, hpk⟩, hc⟩ := h.started k u j hu hj
      refine ⟨⟨p, List.mem_append_left _ hp, hpk⟩, fun hst => ?_⟩
      obtain ⟨q, hq, hqk⟩ := hc hst
      exact ⟨q, List.mem_append_left _ hq, hqk⟩

theorem grant (h : Coherent v) (ht : v.tenant sid = some t) (hb : t.board = none)
    (hq : sid ∉ v.queue) (ho : v.owner i = none) (hp : v.Unused pid) :
    Coherent (v.start sid i t .command pid argv stdio) := by
  refine h.start ht hq ?_ hp (Or.inl ho) ?_ (fun hk => (by cases hk))
  · intro p hpp hs
    by_contra hr
    have hl := (h.live p hpp hr t (hs ▸ ht)).2.1
    rw [hb] at hl
    cases hl
  · intro j hj
    rw [hb] at hj
    cases hj

theorem close (h : Coherent v) (ht : v.tenant sid = some t) (hst : t.status = .hasBoard)
    (hw : t.watch = none) (hb : t.board = some i) (hp : v.Unused pid) :
    Coherent (v.start sid i t .closeCommand pid argv stdio) := by
  refine h.start ht ?_ (h.all_reaped ht hw) hp (Or.inr ((h.owner_iff i sid).2 ⟨t, ht, hb⟩)) ?_
    (fun _ => (h.started sid t i ht hb).1)
  · intro hq
    obtain ⟨u, hu, hsu⟩ := h.queued sid hq
    rw [ht, Option.some.injEq] at hu
    rw [← hu, hst] at hsu
    cases hsu
  · intro j hj
    rw [hb, Option.some.injEq] at hj
    exact hj.symm

theorem mem_move {a b : ProcessState} {p : Process} (hp : p ∈ (v.move pid a b).processes) :
    ∃ q ∈ v.processes, p = q.moved pid a b ∧ p.pid = q.pid ∧ p.kind = q.kind ∧
      p.session = q.session ∧ p.board = q.board := by
  obtain ⟨q, hq, rfl⟩ := List.mem_map.1 hp
  exact ⟨q, hq, rfl, q.moved_fields pid a b⟩

theorem moved_live {a b : ProcessState} (ha : a ≠ .reaped) {p : Process}
    (h : (p.moved pid a b).state ≠ .reaped) : p.state ≠ .reaped := by
  by_cases hc : p.pid = pid ∧ p.state = a
  · rw [hc.2]
    exact ha
  · simpa [Process.moved, hc] using h

theorem exists_move {a b : ProcessState} {kind : ProcessKind} {k : ℕ}
    (h : ∃ p ∈ v.processes, p.kind = kind ∧ p.session = k ∧ p.board = i) :
    ∃ p ∈ (v.move pid a b).processes, p.kind = kind ∧ p.session = k ∧ p.board = i := by
  obtain ⟨p, hp, hk, hs, hb⟩ := h
  obtain ⟨_, hpk, hps, hpb⟩ := p.moved_fields pid a b
  exact ⟨p.moved pid a b, List.mem_map_of_mem hp, hpk.trans hk, hps.trans hs, hpb.trans hb⟩

theorem move (h : Coherent v) {a b : ProcessState} (ha : a ≠ .reaped)
    (hw : ∀ k t c, v.tenant k = some t → t.watch = some c →
      ∃ p ∈ v.processes, (p.moved pid a b).state ≠ .reaped ∧ p.session = k ∧ p.pid = c.pid) :
    Coherent (v.move pid a b) := by
  refine
    { toHolding := { h.toHolding with }, pids := ?_, known := ?_, live := ?_, command := ?_,
      watched := ?_, started := ?_ }
  · intro p hp q hq hpr hqr hpq
    obtain ⟨p₀, hp₀, rfl, hpp, _⟩ := mem_move hp
    obtain ⟨q₀, hq₀, rfl, hqp, _⟩ := mem_move hq
    rw [hpp, hqp] at hpq
    rw [h.pids p₀ hp₀ q₀ hq₀ (moved_live ha hpr) (moved_live ha hqr) hpq]
  · intro p hp
    obtain ⟨q, hq, _, _, _, hs, _⟩ := mem_move hp
    rw [hs]
    exact h.known q hq
  · intro p hp hr t ht
    obtain ⟨q, hq, rfl, hpid, hk, hs, hb⟩ := mem_move hp
    rw [hpid, hk, hb]
    exact h.live q hq (moved_live ha hr) t (hs ▸ ht)
  · intro p hp hr hkc
    obtain ⟨q, hq, rfl, _, hk, hs, _⟩ := mem_move hp
    rw [hs]
    exact h.command q hq (moved_live ha hr) (hk.symm.trans hkc)
  · intro k t c ht hc
    obtain ⟨p, hp, hr, hs, hpid⟩ := hw k t c ht hc
    refine ⟨_, List.mem_map_of_mem hp, hr, ?_⟩
    by_cases hcase : p.pid = pid ∧ p.state = a <;> simp [Process.moved, hcase, hs, ← hpid]
  · intro k t i ht hb
    obtain ⟨hcmd, hcl⟩ := h.started k t i ht hb
    exact ⟨exists_move hcmd, fun hst => exists_move (hcl hst)⟩

theorem exits (h : Coherent v) (pid : Pid) : Coherent (v.move pid .running .zombie) := by
  refine h.move (by decide) ?_
  intro k t c ht hc
  obtain ⟨p, hp, hr, hs, hpid⟩ := h.watched k t c ht hc
  refine ⟨p, hp, ?_, hs, hpid⟩
  by_cases hcase : p.pid = pid ∧ p.state = .running
  · simp [Process.moved, hcase]
  · simpa [Process.moved, hcase] using hr

theorem reap_unwatched (h : Coherent v)
    (hn : ∀ k t c, v.tenant k = some t → t.watch = some c → c.pid ≠ pid) :
    Coherent (v.move pid .zombie .reaped) := by
  refine h.move (by decide) ?_
  intro k t c ht hc
  obtain ⟨p, hp, hr, hs, hpid⟩ := h.watched k t c ht hc
  have hne : p.pid ≠ pid := fun he => hn k t c ht hc (hpid.symm.trans he)
  exact ⟨p, hp, by simpa [Process.moved, hne] using hr, hs, hpid⟩

theorem reap (h : Coherent v) (ht : v.tenant sid = some t) {c : ChildWatcher}
    (hc : t.watch = some c) {z : Process} (hz : z ∈ v.processes) (hzp : z.pid = c.pid)
    (hzs : z.state = .zombie) : Coherent ((v.move c.pid .zombie .reaped).unwatch sid t) := by
  have hzr : z.state ≠ .reaped := by
    rw [hzs]
    decide
  have hz_sid : z.session = sid := by
    obtain ⟨p, hp, hr, hs, hpid⟩ := h.watched sid t c ht hc
    rw [← h.pids p hp z hz hr hzr (hpid.trans hzp.symm)]
    exact hs
  have hlive : ∀ p ∈ v.processes, (p.moved c.pid .zombie .reaped).state ≠ .reaped →
      p.state ≠ .reaped ∧ p.pid ≠ c.pid := by
    intro p hp hr
    have hpr : p.state ≠ .reaped := moved_live (by decide) hr
    refine ⟨hpr, fun hpid => hr ?_⟩
    have hpz := h.pids p hp z hz hpr hzr (hpid.trans hzp.symm)
    simp [Process.moved, hpz, hzp, hzs]
  refine
    { toHolding := (show Holding (v.move c.pid .zombie .reaped) from { h.toHolding with }).amend
        ht rfl rfl
      pids := ?_, known := ?_, live := ?_, command := ?_, watched := ?_, started := ?_ }
  · intro p hp q hq hpr hqr hpq
    obtain ⟨p₀, hp₀, rfl, hpp, _⟩ := mem_move hp
    obtain ⟨q₀, hq₀, rfl, hqp, _⟩ := mem_move hq
    rw [hpp, hqp] at hpq
    rw [h.pids p₀ hp₀ q₀ hq₀ (hlive p₀ hp₀ hpr).1 (hlive q₀ hq₀ hqr).1 hpq]
  · intro p hp
    obtain ⟨q, hq, _, _, _, hs, _⟩ := mem_move hp
    rw [hs]
    exact h.known q hq
  · intro p hp hr u hu
    obtain ⟨q, hq, rfl, hpid, hk, hs, hb⟩ := mem_move hp
    obtain ⟨hqr, hqp⟩ := hlive q hq hr
    rw [hs] at hu
    rw [hpid, hk, hb]
    rcases update_eq_some hu with ⟨hqs, _⟩ | ⟨_, hu⟩
    · have hw := (h.live q hq hqr t (hqs ▸ ht)).2.2
      rw [hc, Option.some.injEq] at hw
      exact absurd (congrArg ChildWatcher.pid hw).symm hqp
    · exact h.live q hq hqr u hu
  · intro p hp hr hkc
    obtain ⟨q, hq, rfl, _, hk, hs, _⟩ := mem_move hp
    rw [hs]
    exact exists_update _ (h.command q hq (hlive q hq hr).1 (hk.symm.trans hkc))
  · intro k u c' hu hc'
    rcases update_eq_some hu with ⟨_, rfl⟩ | ⟨hks, hu⟩
    · cases hc'
    · obtain ⟨p, hp, hr, hs, hpid⟩ := h.watched k u c' hu hc'
      have hne : p.pid ≠ c.pid := by
        intro he
        have hpz := h.pids p hp z hz hr hzr (he.trans hzp.symm)
        exact hks (hs.symm.trans ((congrArg Process.session hpz).trans hz_sid))
      refine ⟨p.moved c.pid .zombie .reaped, List.mem_map_of_mem hp, ?_⟩
      simpa [Process.moved, hne] using ⟨hr, hs, hpid⟩
  · intro k u i hu hi
    obtain ⟨hcmd, hcl⟩ :=
      h.started_amend ht (u := { t with watch := none }) rfl rfl k u i hu hi
    exact ⟨exists_move hcmd, fun hst => exists_move (hcl hst)⟩

end Coherent

def Free (v : Tenancy) (i : ℕ) (name : Bytes) : Prop :=
  v.owner i = none ∧ ∃ b, v.spec i = some b ∧ b.Eligible name

/-- A tenant ends when its command has ended and there is no close command, when
its close command has ended, or when it is `forced` to. -/
structure MayLeave (forced : List Process → ℕ → Prop) (v : Tenancy) (sid : ℕ) (t : Tenant) :
    Prop where
  command : t.status = .hasBoard → t.watch = none ∧
    ∃ i b, t.board = some i ∧ v.spec i = some b ∧ b.closeCommand = []
  closing : t.status = .closingBoard → t.watch = none ∨ forced v.processes sid

/-- The steps of the tenancies. `setup` limits the tenants whose request can be
handled, and `forced` those that can be closed while a close command runs. -/
inductive Step (setup : ℕ → Tenant → Prop) (forced : List Process → ℕ → Prop) :
    Tenancy → Tenancy → Prop
  | accept {v : Tenancy} {name : Bytes} : Step setup forced v (v.accept name)
  | rename {v : Tenancy} {sid : ℕ} {t : Tenant} {name : Bytes} :
      v.tenant sid = some t → setup sid t → Step setup forced v (v.rename sid t name)
  | wait {v : Tenancy} {sid : ℕ} {t : Tenant} :
      v.tenant sid = some t → setup sid t → t.board = none → (∀ i, ¬v.Free i t.name) →
      Step setup forced v (v.wait sid t)
  | grant {v : Tenancy} {sid i : ℕ} {t : Tenant} {pid : Pid} {argv : List Bytes}
      {stdio : Option (ℤ × ℤ × ℤ)} :
      v.tenant sid = some t → setup sid t → t.board = none → sid ∉ v.queue → v.Free i t.name →
      v.Unused pid → Step setup forced v (v.start sid i t .command pid argv stdio)
  | close {v : Tenancy} {sid i : ℕ} {t : Tenant} {pid : Pid} {argv : List Bytes} :
      v.tenant sid = some t → t.status = .hasBoard → t.watch = none → t.board = some i →
      v.Unused pid → Step setup forced v (v.start sid i t .closeCommand pid argv none)
  | leave {v : Tenancy} {sid : ℕ} {t : Tenant} :
      v.tenant sid = some t → MayLeave forced v sid t →
      (∀ k ∈ (v.leave sid t).queue, ∀ u, (v.leave sid t).tenant k = some u →
        ∀ i, ¬(v.leave sid t).Free i u.name) →
      Step setup forced v (v.leave sid t)
  | handOver {v : Tenancy} {sid k i : ℕ} {t u : Tenant} {pid : Pid} {argv : List Bytes}
      {stdio : Option (ℤ × ℤ × ℤ)} {pre post : List ℕ} :
      v.tenant sid = some t → MayLeave forced v sid t →
      (v.leave sid t).queue = pre ++ k :: post → (v.leave sid t).tenant k = some u →
      (v.leave sid t).Free i u.name →
      (∀ j ∈ pre, ∀ w, (v.leave sid t).tenant j = some w → ∀ i, ¬(v.leave sid t).Free i w.name) →
      v.Unused pid →
      Step setup forced v (((v.leave sid t).dequeue k).start k i u .command pid argv stdio)
  | exits {v : Tenancy} {pid : Pid} : Step setup forced v (v.move pid .running .zombie)
  | reapUnwatched {v : Tenancy} {pid : Pid} :
      (∀ k t c, v.tenant k = some t → t.watch = some c → c.pid ≠ pid) →
      Step setup forced v (v.move pid .zombie .reaped)
  | reap {v : Tenancy} {sid : ℕ} {t : Tenant} {c : ChildWatcher} {z : Process} :
      v.tenant sid = some t → t.watch = some c → z ∈ v.processes → z.pid = c.pid →
      z.state = .zombie → Step setup forced v ((v.move c.pid .zombie .reaped).unwatch sid t)

theorem Coherent.board_of_queue (h : Coherent v) {k : ℕ} {u : Tenant} {pre post : List ℕ}
    (hq : v.queue = pre ++ k :: post) (hk : v.tenant k = some u) : u.board = none := by
  have hkq : k ∈ v.queue := by
    rw [hq]
    exact List.mem_append_right _ List.mem_cons_self
  obtain ⟨w, hw, hst⟩ := h.queued k hkq
  rw [hk, Option.some.injEq] at hw
  subst hw
  exact (h.board_none k u hk).2 (Or.inr hst)

theorem Coherent.handOver (h : Coherent v) {k : ℕ} {u : Tenant} {pre post : List ℕ}
    (hq : v.queue = pre ++ k :: post) (hk : v.tenant k = some u) (ho : v.owner i = none)
    (hp : v.Unused pid) : Coherent ((v.dequeue k).start k i u .command pid argv stdio) := by
  refine (h.dequeue k).grant hk (h.board_of_queue hq hk) ?_ ho hp
  intro hmem
  simpa using (List.mem_filter.1 hmem).2

theorem Coherent.step {setup : ℕ → Tenant → Prop} {forced : List Process → ℕ → Prop} {v' : Tenancy}
    (h : Coherent v) (hs : Step setup forced v v') : Coherent v' := by
  cases hs with
  | accept => exact h.accept _
  | rename ht => exact h.rename ht _
  | wait ht _ hb => exact h.wait ht hb
  | grant ht _ hb hq hf hp => exact h.grant ht hb hq hf.1 hp
  | close ht hst hw hb hp => exact h.close ht hst hw hb hp
  | leave ht hm => exact h.leave ht fun hst => (hm.command hst).1
  | handOver ht hm hq hk hf _ hp =>
    exact (h.leave ht fun hst => (hm.command hst).1).handOver hq hk hf.1 hp
  | exits => exact h.exits _
  | reapUnwatched hn => exact h.reap_unwatched hn
  | reap ht hc hz hzp hzs => exact h.reap ht hc hz hzp hzs

/-- Every tenant with a board watches its command, except possibly one. -/
def Attended (hole : Option ℕ) (f : ℕ → Option Tenant) : Prop :=
  ∀ k t, some k ≠ hole → f k = some t → t.status = .hasBoard → t.watch ≠ none

namespace Attended

variable {f : ℕ → Option Tenant}

theorem weaken (h : Attended none f) (hole : Option ℕ) : Attended hole f :=
  fun k t _ ht => h k t (by simp) ht

theorem update (h : Attended (some sid) f) {u : Tenant}
    (hu : u.status = .hasBoard → u.watch ≠ none) :
    Attended none (Function.update f sid (some u)) := by
  intro k t _ ht hst
  rcases update_eq_some ht with ⟨_, rfl⟩ | ⟨hk, ht⟩
  · exact hu hst
  · exact h k t (by simpa using hk) ht hst

theorem unwatch (h : Attended none f) (u : Tenant) :
    Attended (some sid) (Function.update f sid (some u)) := by
  intro k t hk ht hst
  rcases update_eq_some ht with ⟨he, _⟩ | ⟨_, ht⟩
  · exact absurd (congrArg some he) hk
  · exact h k t (by simp) ht hst

theorem remove (h : Attended (some sid) f) : Attended none (Function.update f sid none) := by
  intro k t _ ht hst
  rw [Function.update_apply] at ht
  by_cases hk : k = sid
  · rw [if_pos hk] at ht
    cases ht
  · rw [if_neg hk] at ht
    exact h k t (by simpa using hk) ht hst

end Attended
end Tenancy
end BoardProxy
