import Mathlib.Data.List.Count
import Mathlib.Logic.Relation

/-!
# The ledger of a resource

A party receives resources, holds them, uses them, gives copies of them away and
closes them. Whatever satisfies `P` is a resource; other values only mark a place
that holds none. The books balance when everything that was received has been
closed or is held, once each, and when nothing else was used or given away.
-/

namespace BoardProxy

structure Ledger (α : Type*) where
  received : List α
  closed : List α
  held : List α
  used : List α
  given : List α

namespace Ledger

variable {α : Type*} {P : α → Prop} {L M : Ledger α}

def receive (L : Ledger α) (as : List α) : Ledger α :=
  { L with received := L.received ++ as, held := as }

def use (L : Ledger α) (as : List α) : Ledger α := { L with used := L.used ++ as }

def give (L : Ledger α) : Ledger α := { L with given := L.given ++ L.held }

/-- Everything that is held is closed, and `rest` takes its place. -/
def close (L : Ledger α) (rest : List α) : Ledger α :=
  { L with closed := L.closed ++ L.held, held := rest }

inductive Step (P : α → Prop) (L : Ledger α) : Ledger α → Prop
  | receive {as : List α} : (∀ a ∈ L.held, ¬P a) → Step P L (L.receive as)
  | use {as : List α} : as ⊆ L.held → Step P L (L.use as)
  | give : Step P L L.give
  | close {rest : List α} : (∀ a ∈ rest, ¬P a) → Step P L (L.close rest)

section Balance
variable [DecidableEq α]

structure Balanced (P : α → Prop) (L : Ledger α) : Prop where
  count : ∀ a, P a → L.received.count a = L.closed.count a + L.held.count a
  used : ∀ a ∈ L.used, P a → a ∈ L.received
  given : ∀ a ∈ L.given, P a → a ∈ L.received

namespace Balanced

theorem closed_mem (h : Balanced P L) {a : α} (ha : a ∈ L.closed) (hp : P a) : a ∈ L.received := by
  have hc := h.count a hp
  have hpos := List.count_pos_iff.2 ha
  exact List.count_pos_iff.1 (by omega)

theorem held_mem (h : Balanced P L) {a : α} (ha : a ∈ L.held) (hp : P a) : a ∈ L.received := by
  have hc := h.count a hp
  have hpos := List.count_pos_iff.2 ha
  exact List.count_pos_iff.1 (by omega)

theorem step (h : Balanced P L) (hs : Step P L M) : Balanced P M := by
  have hno : ∀ {as : List α}, (∀ a ∈ as, ¬P a) → ∀ a, P a → as.count a = 0 :=
    fun has a hp => List.count_eq_zero_of_not_mem fun ha => has a ha hp
  cases hs with
  | @receive as hheld =>
    refine ⟨fun a hp => ?_, fun a ha hp => List.mem_append_left _ (h.used a ha hp),
      fun a ha hp => List.mem_append_left _ (h.given a ha hp)⟩
    have hc := h.count a hp
    rw [hno hheld a hp] at hc
    simp only [receive, List.count_append]
    omega
  | @use as hsub =>
    refine ⟨h.count, fun a ha hp => ?_, h.given⟩
    rcases List.mem_append.1 ha with ha | ha
    · exact h.used a ha hp
    · exact h.held_mem (hsub ha) hp
  | give =>
    refine ⟨h.count, h.used, fun a ha hp => ?_⟩
    rcases List.mem_append.1 ha with ha | ha
    · exact h.given a ha hp
    · exact h.held_mem ha hp
  | @close rest hrest =>
    refine ⟨fun a hp => ?_, h.used, h.given⟩
    have hc := h.count a hp
    simp only [close, List.count_append, hno hrest a hp]
    omega

theorem path (h : Balanced P L) (hs : Relation.ReflTransGen (Step P) L M) : Balanced P M := by
  induction hs with
  | refl => exact h
  | tail _ hs ih => exact ih.step hs

end Balanced
end Balance
end Ledger
end BoardProxy
