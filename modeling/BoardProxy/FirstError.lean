import Mathlib.Data.List.Forall2

/-!
# A loop that stops at the first error

`List.mapM` in `Except` runs a fallible step on one element after the other. It
gives all the results if no step fails, and otherwise the error of the first
step that does.
-/

universe u

namespace BoardProxy
namespace FirstError

section Bind

variable {ε : Type*} {α β : Type u} {x : Except ε α} {f : α → Except ε β}

theorem bind_eq_ok_iff {b : β} : x >>= f = .ok b ↔ ∃ a, x = .ok a ∧ f a = .ok b := by
  cases x <;> simp [bind, Except.bind]

theorem bind_eq_error_iff {e : ε} :
    x >>= f = .error e ↔ x = .error e ∨ ∃ a, x = .ok a ∧ f a = .error e := by
  cases x <;> simp [bind, Except.bind]

end Bind

variable {α : Type*} {ε β : Type*} {f : α → Except ε β} {l : List α} {bs : List β} {e : ε}

theorem mapM_cons (f : α → Except ε β) (a : α) (l : List α) : (a :: l).mapM f =
    match f a with
    | .error e => .error e
    | .ok b => (l.mapM f).map (b :: ·) := by
  rw [List.mapM_cons]
  cases f a with
  | error e => rfl
  | ok b => cases l.mapM f <;> rfl

theorem mapM_eq_ok_iff : l.mapM f = .ok bs ↔ List.Forall₂ (fun a b => f a = .ok b) l bs := by
  induction l generalizing bs with
  | nil =>
    rw [List.mapM_nil, List.forall₂_nil_left_iff]
    exact ⟨fun h => (Except.ok.inj h).symm, fun h => congrArg Except.ok h.symm⟩
  | cons a l ih =>
    rw [mapM_cons, List.forall₂_cons_left_iff]
    cases ha : f a with
    | error e => simp
    | ok b =>
      cases hl : l.mapM f with
      | error e =>
        have hno : ∀ cs, ¬List.Forall₂ (fun a b => f a = .ok b) l cs := by
          intro cs hcs
          rw [ih.2 hcs] at hl
          cases hl
        simp [Except.map, hno]
      | ok cs =>
        have hcs := ih.1 hl
        simp only [Except.map, Except.ok.injEq]
        constructor
        · rintro rfl
          exact ⟨b, cs, rfl, hcs, rfl⟩
        · rintro ⟨c, cs', rfl, hcs', rfl⟩
          rw [ih.2 hcs', Except.ok.injEq] at hl
          rw [hl]

theorem mapM_eq_error_iff : l.mapM f = .error e ↔ ∃ pre a post, l = pre ++ a :: post ∧
    (∀ x ∈ pre, ∃ b, f x = .ok b) ∧ f a = .error e := by
  induction l with
  | nil => simp [pure, Except.pure]
  | cons a l ih =>
    rw [mapM_cons]
    constructor
    · intro h
      cases ha : f a with
      | error e' =>
        simp only [ha, Except.error.injEq] at h
        subst h
        exact ⟨[], a, l, rfl, by simp, ha⟩
      | ok b =>
        simp only [ha] at h
        cases hl : l.mapM f with
        | ok cs =>
          rw [hl] at h
          cases h
        | error e' =>
          rw [hl] at h
          cases h
          obtain ⟨pre, x, post, rfl, hpre, hx⟩ := ih.1 hl
          refine ⟨a :: pre, x, post, rfl, ?_, hx⟩
          rintro y (_ | ⟨_, hy⟩)
          · exact ⟨b, ha⟩
          · exact hpre y hy
    · rintro ⟨pre, x, post, hsplit, hpre, hx⟩
      cases pre with
      | nil =>
        obtain ⟨rfl, rfl⟩ := List.cons.inj hsplit
        simp only [hx]
      | cons y pre =>
        obtain ⟨rfl, rfl⟩ := List.cons.inj hsplit
        obtain ⟨b, hb⟩ := hpre a List.mem_cons_self
        have hl := ih.2 ⟨pre, x, post, rfl, fun z hz => hpre z (List.mem_cons_of_mem _ hz), hx⟩
        simp only [hb, hl]
        rfl

theorem exists_mapM_eq_ok_iff : (∃ bs, l.mapM f = .ok bs) ↔ ∀ a ∈ l, ∃ b, f a = .ok b := by
  constructor
  · rintro ⟨bs, h⟩ a ha
    have hall := mapM_eq_ok_iff.1 h
    induction hall with
    | nil => cases ha
    | @cons x b l cs hx hl ih =>
      rcases List.mem_cons.1 ha with rfl | ha
      · exact ⟨b, hx⟩
      · exact ih (mapM_eq_ok_iff.2 hl) ha
  · intro h
    cases hl : l.mapM f with
    | ok bs => exact ⟨bs, rfl⟩
    | error e =>
      obtain ⟨pre, a, post, rfl, _, ha⟩ := mapM_eq_error_iff.1 hl
      obtain ⟨b, hb⟩ := h a (by simp)
      rw [ha] at hb
      cases hb

theorem mapM_eq_ok_map {g : α → β} (h : ∀ a ∈ l, f a = .ok (g a)) : l.mapM f = .ok (l.map g) := by
  rw [mapM_eq_ok_iff, List.forall₂_map_right_iff]
  exact List.forall₂_same.2 h

/-- The loop gets to `a`: everything before it satisfies `P`. -/
def Reached (P : α → Prop) (l : List α) (a : α) : Prop :=
  ∃ pre post, l = pre ++ a :: post ∧ ∀ x ∈ pre, P x

theorem exists_mapM_error_iff {P : α → Prop} {Q : ε → Prop} (hP : ∀ a, (∃ b, f a = .ok b) ↔ P a) :
    (∃ e, l.mapM f = .error e ∧ Q e) ↔ ∃ a, Reached P l a ∧ ∃ e, f a = .error e ∧ Q e := by
  constructor
  · rintro ⟨e, he, hq⟩
    obtain ⟨pre, a, post, hl, hpre, ha⟩ := mapM_eq_error_iff.1 he
    exact ⟨a, ⟨pre, post, hl, fun x hx => (hP x).1 (hpre x hx)⟩, e, ha, hq⟩
  · rintro ⟨a, ⟨pre, post, hl, hpre⟩, e, ha, hq⟩
    exact ⟨e, mapM_eq_error_iff.2 ⟨pre, a, post, hl, fun x hx => (hP x).2 (hpre x hx), ha⟩, hq⟩

end FirstError
end BoardProxy
