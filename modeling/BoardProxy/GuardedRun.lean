import Mathlib.Data.List.Induction

/-!
# Finite runs of a labelled transition relation

`Run next s es t` takes the events `es` from `s` to `t`, oldest event first. A
guard on steps is part of `next`, so that a run whose steps all meet a
condition is a run of the restricted relation. The rules below are the only
inductions over runs that the rest of the development needs.
-/

namespace BoardProxy

variable {σ ε : Type*}

inductive Run (next : σ → ε → σ → Prop) (s : σ) : List ε → σ → Prop
  | nil : Run next s [] s
  | snoc {t u : σ} {es : List ε} {e : ε} :
      Run next s es t → next t e u → Run next s (es ++ [e]) u

namespace Run

variable {next next' : σ → ε → σ → Prop} {s t : σ} {es : List ε}

theorem mono (h : Run next s es t) (hle : ∀ s e t, next s e t → next' s e t) :
    Run next' s es t := by
  induction h with
  | nil => exact .nil
  | snoc _ hs ih => exact .snoc ih (hle _ _ _ hs)

theorem snoc_inv {e : ε} (h : Run next s (es ++ [e]) t) : ∃ u, Run next s es u ∧ next u e t := by
  generalize hfs : es ++ [e] = fs at h
  cases h with
  | nil => simp at hfs
  | snoc hr hs =>
    obtain ⟨rfl, he⟩ := List.append_inj' hfs rfl
    rw [List.singleton_inj.1 he]
    exact ⟨_, hr, hs⟩

theorem nil_inv (h : Run next s [] t) : t = s := by
  generalize hfs : ([] : List ε) = fs at h
  cases h with
  | nil => rfl
  | snoc _ _ => simp at hfs

theorem singleton_inv {e : ε} (h : Run next s [e] t) : next s e t := by
  rw [← List.nil_append [e]] at h
  obtain ⟨u, hu, he⟩ := h.snoc_inv
  rwa [hu.nil_inv] at he

theorem append {u : σ} {fs : List ε} (h : Run next s es t) (h' : Run next t fs u) :
    Run next s (es ++ fs) u := by
  induction h' with
  | nil => rwa [List.append_nil]
  | snoc _ hs ih =>
    rw [← List.append_assoc]
    exact .snoc ih hs

theorem append_inv {fs : List ε} (h : Run next s (es ++ fs) t) :
    ∃ u, Run next s es u ∧ Run next u fs t := by
  induction fs using List.reverseRecOn generalizing t with
  | nil =>
    rw [List.append_nil] at h
    exact ⟨t, h, .nil⟩
  | append_singleton fs f ih =>
    rw [← List.append_assoc] at h
    obtain ⟨v, hv, hf⟩ := h.snoc_inv
    obtain ⟨u, hu, hfs⟩ := ih hv
    exact ⟨u, hu, .snoc hfs hf⟩

theorem of_prefix {fs : List ε} (h : Run next s fs t) (hp : es <+: fs) : ∃ u, Run next s es u := by
  obtain ⟨gs, rfl⟩ := hp
  obtain ⟨u, hu, _⟩ := h.append_inv
  exact ⟨u, hu⟩

theorem unique {u : σ} (hdet : ∀ s e t u, next s e t → next s e u → t = u) (h : Run next s es t)
    (h' : Run next s es u) : t = u := by
  induction h generalizing u with
  | nil => exact h'.nil_inv.symm
  | snoc _ hs ih =>
    obtain ⟨v, hv, hu⟩ := h'.snoc_inv
    rw [← ih hv] at hu
    exact hdet _ _ _ _ hs hu

/-- A property of states and of the events so far that every step extends. -/
theorem history (P : List ε → σ → Prop) (h0 : P [] s)
    (hstep : ∀ es t e u, Run next s es t → P es t → next t e u → P (es ++ [e]) u)
    (h : Run next s es t) : P es t := by
  induction h with
  | nil => exact h0
  | snoc hr hs ih => exact hstep _ _ _ _ hr ih hs

theorem invariant (P : σ → Prop) (h0 : P s) (hstep : ∀ t e u, P t → next t e u → P u)
    (h : Run next s es t) : P t :=
  h.history (fun _ u => P u) h0 fun _ t e u _ ht => hstep t e u ht

section Variant

variable {P : σ → Prop} {μ : σ → ℕ} (hstep : ∀ t e u, P t → next t e u → P u ∧ μ u < μ t)
include hstep

theorem length_add_le (h0 : P s) (h : Run next s es t) : es.length + μ t ≤ μ s := by
  refine (h.history (fun es t => P t ∧ es.length + μ t ≤ μ s) ⟨h0, by simp⟩ ?_).2
  rintro es t e u - ⟨ht, hle⟩ hn
  obtain ⟨hu, hlt⟩ := hstep t e u ht hn
  refine ⟨hu, ?_⟩
  rw [List.length_append, List.length_singleton]
  omega

theorem exists_stuck (h0 : P s) : ∃ es t, Run next s es t ∧ ∀ e u, ¬next t e u := by
  induction hm : μ s using Nat.strongRecOn generalizing s with
  | ind m ih =>
    by_cases hex : ∃ e u, next s e u
    · obtain ⟨e, u, hn⟩ := hex
      obtain ⟨hu, hlt⟩ := hstep s e u h0 hn
      obtain ⟨es, t, hr, ht⟩ := ih (μ u) (hm ▸ hlt) hu rfl
      exact ⟨[e] ++ es, t, (Run.snoc .nil hn).append hr, ht⟩
    · exact ⟨[], s, .nil, fun e u hn => hex ⟨e, u, hn⟩⟩

end Variant

end Run

/-- The events of a run, fed one after the other to a partial step function. -/
def feed (step : σ → ε → Option σ) : σ → List ε → Option σ
  | s, [] => some s
  | s, e :: es => (step s e).bind fun t => feed step t es

theorem feed_append (step : σ → ε → Option σ) (s : σ) (es fs : List ε) :
    feed step s (es ++ fs) = (feed step s es).bind fun t => feed step t fs := by
  induction es generalizing s with
  | nil => rfl
  | cons e es ih =>
    simp only [List.cons_append, feed]
    cases step s e with
    | none => rfl
    | some t => exact ih t

theorem Run.of_feed {step : σ → ε → Option σ} {s t : σ} {es : List ε}
    (h : feed step s es = some t) : Run (fun s e t => step s e = some t) s es t := by
  induction es using List.reverseRecOn generalizing t with
  | nil =>
    obtain rfl : s = t := by simpa [feed] using h
    exact .nil
  | append_singleton es e ih =>
    rw [feed_append] at h
    cases hf : feed step s es with
    | none => simp [hf] at h
    | some u =>
      refine .snoc (ih hf) ?_
      cases hs : step u e with
      | none => simp [hf, feed, hs] at h
      | some v => simpa [hf, feed, hs] using h

theorem exists_run {α : Type*} {step : σ → ε → Option σ} {s : σ} {es : List ε} (f : σ → α) {a : α}
    (h : (feed step s es).map f = some a) :
    ∃ t, Run (fun s e t => step s e = some t) s es t ∧ f t = a := by
  obtain ⟨t, ht, ha⟩ := Option.map_eq_some_iff.1 h
  exact ⟨t, Run.of_feed ht, ha⟩

theorem exists_run_step {α β : Type*} {step : σ → ε → Option σ} {s : σ} {es : List ε} {e : ε}
    (f : σ → α) (g : σ → β) {a : α} {b : β}
    (h : ((feed step s es).bind fun t => (step t e).map fun u => (f t, g u)) = some (a, b)) :
    ∃ t u, (Run (fun s e t => step s e = some t) s es t ∧ step t e = some u) ∧
      f t = a ∧ g u = b := by
  obtain ⟨t, ht, hu⟩ := Option.bind_eq_some_iff.1 h
  obtain ⟨u, hu, hab⟩ := Option.map_eq_some_iff.1 hu
  obtain ⟨ha, hb⟩ := Prod.mk.inj hab
  exact ⟨t, u, ⟨Run.of_feed ht, hu⟩, ha, hb⟩

theorem exists_guarded_run {α : Type*} {step : σ → ε → Option σ} {P : σ → ε → Prop}
    [∀ s e, Decidable (P s e)] {s : σ} {es : List ε} (f : σ → α) {a : α}
    (h : (feed (fun s e => if P s e then step s e else none) s es).map f = some a) :
    ∃ t, Run (fun s e t => step s e = some t ∧ P s e) s es t ∧ f t = a := by
  obtain ⟨t, hr, ha⟩ := exists_run f h
  refine ⟨t, hr.mono ?_, ha⟩
  intro s e t hst
  by_cases hP : P s e
  · rw [if_pos hP] at hst
    exact ⟨hst, hP⟩
  · rw [if_neg hP] at hst
    cases hst

end BoardProxy
