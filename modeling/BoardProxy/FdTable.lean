import Mathlib.Data.List.Nodup
import Mathlib.Logic.Function.Basic

/-!
# Tables of file descriptors

A process has a table of open files. An entry can be marked to be closed by `exec`; a copy
that `dup2` makes is not marked. `redirect` copies some descriptors to new places and closes
the old ones, as a child does before `exec`.
-/

namespace BoardProxy

abbrev FdTable (D F : Type*) := D → Option (F × Bool)

namespace FdTable

variable {D F : Type*} {T : FdTable D F} {d o n : D} {f : F} {c : Bool}

def exec (T : FdTable D F) : FdTable D F := fun d => (T d).filter fun x => !x.2

theorem exec_eq_some {x : F × Bool} : T.exec d = some x ↔ T d = some x ∧ x.2 = false := by
  simp [exec, Option.filter_eq_some_iff]

variable [DecidableEq D]

def close (T : FdTable D F) (d : D) : FdTable D F := Function.update T d none

def dup2 (T : FdTable D F) (old new : D) : FdTable D F :=
  match T old with
  | none => T
  | some (f, _) => if old = new then T else Function.update T new (some (f, false))

/-- New descriptors that are not marked; the one at place `n` is the file `f n`. -/
def install (T : FdTable D F) (l : List D) (f : ℕ → F) : FdTable D F := fun d =>
  if d ∈ l then some (f (l.idxOf d), false) else T d

def redirect (T : FdTable D F) (l : List (D × D)) : FdTable D F :=
  (l.map Prod.fst).foldl close (l.foldl (fun T p => T.dup2 p.1 p.2) T)

theorem dup2_of_ne (hd : d ≠ n) : T.dup2 o n d = T d := by
  unfold dup2
  cases T o with
  | none => rfl
  | some x =>
    by_cases he : o = n
    · simp [he]
    · simp [he, hd]

theorem dup2_self (ho : T o = some (f, c)) (hne : o ≠ n) : T.dup2 o n n = some (f, false) := by
  simp [dup2, ho, hne]

section Redirect

variable {l : List (D × D)}

theorem dups_of_notMem (hd : d ∉ l.map Prod.snd) :
    l.foldl (fun T p => T.dup2 p.1 p.2) T d = T d := by
  induction l generalizing T with
  | nil => rfl
  | cons p l ih =>
    rw [List.map_cons, List.mem_cons, not_or] at hd
    rw [List.foldl_cons, ih hd.2, dup2_of_ne hd.1]

theorem dups_of_mem (hn : (l.map Prod.snd).Nodup) (hdis : ∀ p ∈ l, ∀ q ∈ l, p.1 ≠ q.2)
    (hmem : (o, n) ∈ l) (ho : T o = some (f, c)) :
    l.foldl (fun T p => T.dup2 p.1 p.2) T n = some (f, false) := by
  induction l generalizing T with
  | nil => cases hmem
  | cons p l ih =>
    rw [List.map_cons, List.nodup_cons] at hn
    rw [List.foldl_cons]
    rcases List.mem_cons.1 hmem with rfl | hmem
    · have hne : o ≠ n := hdis _ List.mem_cons_self _ List.mem_cons_self
      rw [dups_of_notMem hn.1, dup2_self ho hne]
    · refine ih hn.2 (fun p hp q hq => ?_) hmem ?_
      · exact hdis p (List.mem_cons_of_mem _ hp) q (List.mem_cons_of_mem _ hq)
      · have hne : o ≠ p.2 := hdis _ (List.mem_cons_of_mem _ hmem) _ List.mem_cons_self
        rw [dup2_of_ne hne, ho]

theorem closes_apply (l : List D) : l.foldl close T d = if d ∈ l then none else T d := by
  induction l generalizing T with
  | nil => rfl
  | cons a l ih =>
    rw [List.foldl_cons, ih, close, Function.update_apply]
    by_cases hd : d ∈ l
    · rw [if_pos hd, if_pos (List.mem_cons_of_mem _ hd)]
    · by_cases ha : d = a
      · rw [if_neg hd, if_pos ha, if_pos (ha ▸ List.mem_cons_self)]
      · rw [if_neg hd, if_neg ha, if_neg (List.not_mem_cons_of_ne_of_not_mem ha hd)]

theorem redirect_of_mem (hn : (l.map Prod.snd).Nodup) (hdis : ∀ p ∈ l, ∀ q ∈ l, p.1 ≠ q.2)
    (hmem : (o, n) ∈ l) (ho : T o = some (f, c)) : T.redirect l n = some (f, false) := by
  rw [redirect, closes_apply, if_neg, dups_of_mem hn hdis hmem ho]
  intro hold
  obtain ⟨p, hp, rfl⟩ := List.mem_map.1 hold
  exact hdis p hp _ hmem rfl

theorem redirect_of_notMem (hd : d ∉ l.map Prod.snd) :
    T.redirect l d = if d ∈ l.map Prod.fst then none else T d := by
  rw [redirect, closes_apply, dups_of_notMem hd]

end Redirect

end FdTable
end BoardProxy
