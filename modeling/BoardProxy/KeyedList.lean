import Mathlib.Algebra.GroupWithZero.Nat
import Mathlib.Data.List.Nodup

/-!
# Lists whose elements are addressed by a key

A list of heap objects reached through pointers: `lookup` dereferences,
`modify` updates the object behind one pointer, and `remove` destroys it. The
list keeps its order under all three. Every result about `lookup` holds for
arbitrary lists; only membership needs distinct keys.
-/

namespace BoardProxy.KeyedList

variable {α κ : Type*} [DecidableEq κ] (key : α → κ)

def lookup (k : κ) (l : List α) : Option α := l.find? fun a => decide (key a = k)

def modify (k : κ) (f : α → α) (l : List α) : List α := l.map fun a => if key a = k then f a else a

def remove (k : κ) (l : List α) : List α := l.filter fun a => decide (key a ≠ k)

variable {key}

theorem mem_of_lookup {k : κ} {l : List α} {a : α} (h : lookup key k l = some a) : a ∈ l :=
  List.mem_of_find?_eq_some h

theorem key_of_lookup {k : κ} {l : List α} {a : α} (h : lookup key k l = some a) : key a = k := by
  simpa using List.find?_some h

theorem lookup_cons (k : κ) (a : α) (l : List α) :
    lookup key k (a :: l) = if key a = k then some a else lookup key k l := by
  by_cases h : key a = k <;> simp [lookup, h]

theorem lookup_append_singleton (k : κ) (l : List α) (a : α) :
    lookup key k (l ++ [a]) = (lookup key k l).or (if key a = k then some a else none) := by
  by_cases h : key a = k <;> simp [lookup, List.find?_append, h]

theorem lookup_modify (k j : κ) (f : α → α) (hf : ∀ a, key (f a) = key a) (l : List α) :
    lookup key j (modify key k f l) = if j = k then (lookup key k l).map f else lookup key j l := by
  induction l with
  | nil => simp [lookup, modify]
  | cons a l ih =>
    have hm : modify key k f (a :: l) = (if key a = k then f a else a) :: modify key k f l := rfl
    rw [hm, lookup_cons, ih, lookup_cons, lookup_cons]
    by_cases ha : key a = k
    · simp only [ha, ↓reduceIte, hf]
      by_cases hj : j = k
      · simp [hj]
      · simp [hj, Ne.symm hj]
    · by_cases hj : j = k
      · simp [ha, hj]
      · simp [ha, hj]

theorem lookup_remove (k j : κ) (l : List α) :
    lookup key j (remove key k l) = if j = k then none else lookup key j l := by
  induction l with
  | nil => simp [lookup, remove]
  | cons a l ih =>
    by_cases ha : key a = k
    · have hr : remove key k (a :: l) = remove key k l := by simp [remove, ha]
      rw [hr, ih, lookup_cons]
      by_cases hj : j = k
      · simp [hj]
      · simp [hj, ha, Ne.symm hj]
    · have hr : remove key k (a :: l) = a :: remove key k l := by simp [remove, ha]
      rw [hr, lookup_cons, ih, lookup_cons]
      by_cases hj : j = k
      · simp [hj, ha]
      · simp [hj]

theorem modify_modify (k : κ) (f g : α → α) (hf : ∀ a, key (f a) = key a) (l : List α) :
    modify key k g (modify key k f l) = modify key k (g ∘ f) l := by
  rw [modify, modify, modify, List.map_map]
  apply List.map_congr_left
  intro a _
  by_cases ha : key a = k <;> simp [ha, hf]

theorem keys_modify (k : κ) (f : α → α) (hf : ∀ a, key (f a) = key a) (l : List α) :
    (modify key k f l).map key = l.map key := by
  rw [modify, List.map_map]
  apply List.map_congr_left
  intro a _
  by_cases ha : key a = k <;> simp [ha, hf]

theorem keys_remove (k : κ) (l : List α) :
    (remove key k l).map key = (l.map key).filter fun j => decide (j ≠ k) := by
  rw [List.filter_map]
  rfl

theorem remove_remove (k : κ) (l : List α) :
    remove key k (remove key k l) = remove key k l := by
  simp [remove]

theorem remove_modify (k : κ) (f : α → α) (hf : ∀ a, key (f a) = key a) (l : List α) :
    remove key k (modify key k f l) = remove key k l := by
  induction l with
  | nil => rfl
  | cons a l ih =>
    have hm : modify key k f (a :: l) = (if key a = k then f a else a) :: modify key k f l := rfl
    simp only [remove] at ih ⊢
    by_cases ha : key a = k
    · rw [hm, if_pos ha, List.filter_cons_of_neg (by simp [hf, ha]),
        List.filter_cons_of_neg (by simp [ha]), ih]
    · rw [hm, if_neg ha, List.filter_cons_of_pos (by simp [ha]),
        List.filter_cons_of_pos (by simp [ha]), ih]

theorem lookup_of_mem {l : List α} (h : (l.map key).Nodup) {a : α} (ha : a ∈ l) :
    lookup key (key a) l = some a := by
  induction l with
  | nil => cases ha
  | cons b l ih =>
    rw [List.map_cons, List.nodup_cons] at h
    rw [lookup_cons]
    rcases List.mem_cons.1 ha with rfl | ha
    · simp
    · have hne : key b ≠ key a := fun he => h.1 (he ▸ List.mem_map_of_mem ha)
      simp [hne, ih h.2 ha]

theorem map_filter_perm {β : Type*} {l : List α} {q : List κ} {P : α → Bool} (g : α → β)
    (h : (l.map key).Nodup) (hq : q.Nodup)
    (hmem : ∀ k, k ∈ q ↔ ∃ a, lookup key k l = some a ∧ P a = true) :
    ((l.filter P).map g).Perm (q.filterMap fun k => (lookup key k l).map g) := by
  have hkeys : ((l.filter P).map key).Perm q := by
    rw [List.perm_ext_iff_of_nodup (h.sublist (List.filter_sublist.map key)) hq]
    intro k
    rw [hmem, List.mem_map]
    constructor
    · rintro ⟨a, ha, rfl⟩
      obtain ⟨ha, hP⟩ := List.mem_filter.1 ha
      exact ⟨a, lookup_of_mem h ha, hP⟩
    · rintro ⟨a, ha, hP⟩
      exact ⟨a, List.mem_filter.2 ⟨mem_of_lookup ha, hP⟩, key_of_lookup ha⟩
  have hmap : (l.filter P).map g =
      ((l.filter P).map key).filterMap fun k => (lookup key k l).map g := by
    rw [List.filterMap_map, ← List.filterMap_eq_map]
    refine List.filterMap_congr fun a ha => ?_
    rw [Function.comp_apply, Function.comp_apply, lookup_of_mem h (List.mem_of_mem_filter ha),
      Option.map_some]
  rw [hmap]
  exact hkeys.filterMap _

/-! The sum of a weight over the list. -/

theorem sum_modify {k : κ} {l : List α} {a : α} (w : α → ℕ) (f : α → α) (h : (l.map key).Nodup)
    (ha : lookup key k l = some a) :
    ((modify key k f l).map w).sum + w a = (l.map w).sum + w (f a) := by
  induction l with
  | nil => cases ha
  | cons b l ih =>
    have hm : modify key k f (b :: l) = (if key b = k then f b else b) :: modify key k f l := rfl
    rw [List.map_cons, List.nodup_cons] at h
    rw [lookup_cons] at ha
    rw [hm, List.map_cons, List.sum_cons, List.map_cons, List.sum_cons]
    by_cases hb : key b = k
    · rw [if_pos hb, Option.some.injEq] at ha
      subst ha
      have hrest : modify key k f l = l := by
        refine (List.map_congr_left fun c hc => ?_).trans (List.map_id l)
        have hne : key c ≠ k := fun hck => h.1 (hb ▸ hck ▸ List.mem_map_of_mem hc)
        exact if_neg hne
      rw [if_pos hb, hrest]
      omega
    · rw [if_neg hb] at ha ⊢
      have hih := ih h.2 ha
      omega

theorem sum_remove {k : κ} {l : List α} {a : α} (w : α → ℕ) (h : (l.map key).Nodup)
    (ha : lookup key k l = some a) : ((remove key k l).map w).sum + w a = (l.map w).sum := by
  induction l with
  | nil => cases ha
  | cons b l ih =>
    rw [List.map_cons, List.nodup_cons] at h
    rw [lookup_cons] at ha
    by_cases hb : key b = k
    · rw [if_pos hb, Option.some.injEq] at ha
      subst ha
      have hr : remove key k (b :: l) = l := by
        rw [remove, List.filter_cons_of_neg (by simp [hb]), List.filter_eq_self]
        intro c hc
        exact decide_eq_true fun hck => h.1 (hb ▸ hck ▸ List.mem_map_of_mem hc)
      rw [hr, List.map_cons, List.sum_cons, Nat.add_comm]
    · have hr : remove key k (b :: l) = b :: remove key k l := by simp [remove, hb]
      rw [if_neg hb] at ha
      have hih := ih h.2 ha
      rw [hr, List.map_cons, List.sum_cons, List.map_cons, List.sum_cons]
      omega

end BoardProxy.KeyedList
