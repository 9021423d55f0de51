import Mathlib.Data.Set.Insert
import Mathlib.Data.List.Infix

/-!
# Pools of resources with a waiting line

Users ask for a resource that they are eligible for. They are served from the
free resources or wait in line; a resource that is given back goes to the first
user in line who is eligible for it. Newcomers are served without a look at the
line, and yet nobody is overtaken: while a user waits, no resource that the user
could have is free.
-/

namespace BoardProxy

structure Pool (R U : Type*) where
  free : Set R
  line : List U

namespace Pool

variable {R U : Type*} {elig : U → R → Prop} {p p' : Pool R U} {got : Option (U × R)}

/-- A step, with the user who gets a resource in it. -/
inductive Step (elig : U → R → Prop) : Pool R U → Option (U × R) → Pool R U → Prop
  | idle (p : Pool R U) : Step elig p none p
  | serve {p : Pool R U} {u : U} {r : R} : r ∈ p.free → elig u r →
      Step elig p (some (u, r)) ⟨p.free \ {r}, p.line⟩
  | wait {p : Pool R U} {u : U} : (∀ r ∈ p.free, ¬elig u r) →
      Step elig p none ⟨p.free, p.line ++ [u]⟩
  | quit {p : Pool R U} (keep : U → Bool) : Step elig p none ⟨p.free, p.line.filter keep⟩
  | release {p : Pool R U} {r : R} : (∀ u ∈ p.line, ¬elig u r) →
      Step elig p none ⟨insert r p.free, p.line⟩
  | handOver {p : Pool R U} {u : U} {r : R} {pre post : List U} : p.line = pre ++ u :: post →
      elig u r → (∀ w ∈ pre, ¬elig w r) → Step elig p (some (u, r)) ⟨p.free, pre ++ post⟩

def WorkConserving (elig : U → R → Prop) (p : Pool R U) : Prop :=
  ∀ u ∈ p.line, ∀ r ∈ p.free, ¬elig u r

theorem WorkConserving.step (h : WorkConserving elig p) (hs : Step elig p got p') :
    WorkConserving elig p' := by
  cases hs with
  | idle => exact h
  | serve => exact fun u hu r hr => h u hu r hr.1
  | wait hw =>
    intro u hu r hr
    rcases List.mem_append.1 hu with hu | hu
    · exact h u hu r hr
    · rw [List.mem_singleton.1 hu]
      exact hw r hr
  | quit keep => exact fun u hu r hr => h u (List.mem_of_mem_filter hu) r hr
  | release hn =>
    intro u hu r hr
    rcases Set.mem_insert_iff.1 hr with rfl | hr
    · exact hn u hu
    · exact h u hu r hr
  | handOver hl =>
    intro u hu r hr
    refine h u ?_ r hr
    rw [hl]
    rcases List.mem_append.1 hu with hu | hu
    · exact List.mem_append_left _ hu
    · exact List.mem_append_right _ (List.mem_cons_of_mem _ hu)

theorem no_overtaking (h : WorkConserving elig p) {a b : U} {r : R}
    (hs : Step elig p (some (b, r)) p') (ha : a ∈ p.line) (ha' : a ∈ p'.line) (he : elig a r) :
    [b, a].Sublist p.line := by
  cases hs with
  | serve hr => exact absurd he (h a ha r hr)
  | @handOver _ _ pre post hl _ hpre =>
    have hpost : a ∈ post := by
      rcases List.mem_append.1 ha' with hmem | hmem
      · exact absurd he (hpre a hmem)
      · exact hmem
    rw [hl]
    exact ((List.singleton_sublist.2 hpost).cons_cons b).trans (List.sublist_append_right _ _)

theorem idxOf_le_of_sublist [BEq U] [LawfulBEq U] {a : U} {l m : List U} (h : l.Sublist m)
    (hn : m.Nodup) (ha : a ∈ l) : l.idxOf a ≤ m.idxOf a := by
  induction h with
  | slnil => cases ha
  | cons b h ih =>
    rw [List.nodup_cons] at hn
    have hb : b ≠ a := fun he => hn.1 (he ▸ h.subset ha)
    rw [List.idxOf_cons_ne _ hb]
    exact (ih hn.2 ha).trans (Nat.le_succ _)
  | cons_cons b h ih =>
    rw [List.nodup_cons] at hn
    by_cases hb : b = a
    · rw [List.idxOf_cons_eq _ hb]
      exact Nat.zero_le _
    · rw [List.idxOf_cons_ne _ hb, List.idxOf_cons_ne _ hb]
      exact Nat.succ_le_succ (ih hn.2 ((List.mem_cons.1 ha).resolve_left (Ne.symm hb)))

section Place

variable [BEq U] [LawfulBEq U] {a : U} (hn : p.line.Nodup) (ha : a ∈ p.line) (ha' : a ∈ p'.line)
include hn ha ha'

theorem place_le (hs : Step elig p got p') : p'.line.idxOf a ≤ p.line.idxOf a := by
  cases hs with
  | idle => exact Nat.le_refl _
  | serve => exact Nat.le_refl _
  | wait => exact (List.idxOf_append_of_mem ha).le
  | quit keep => exact idxOf_le_of_sublist List.filter_sublist hn ha'
  | release => exact Nat.le_refl _
  | handOver hl =>
    rw [hl] at hn ⊢
    exact idxOf_le_of_sublist ((List.sublist_cons_self _ _).append_left _) hn ha'

theorem place_lt (h : WorkConserving elig p) {b : U} {r : R} (hs : Step elig p (some (b, r)) p')
    (he : elig a r) : p'.line.idxOf a < p.line.idxOf a := by
  cases hs with
  | serve hr => exact absurd he (h a ha r hr)
  | @handOver _ _ pre post hl _ hpre =>
    have hnotin : a ∉ pre := fun hmem => hpre a hmem he
    have hpost : a ∈ post := (List.mem_append.1 ha').resolve_left hnotin
    rw [hl] at hn ⊢
    have hb : b ≠ a := by
      intro hb
      exact (List.nodup_cons.1 (List.nodup_append.1 hn).2.1).1 (hb ▸ hpost)
    rw [List.idxOf_append_of_notMem hnotin, List.idxOf_append_of_notMem hnotin,
      List.idxOf_cons_ne _ hb]
    omega

end Place

end Pool
end BoardProxy
