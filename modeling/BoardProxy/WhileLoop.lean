import Mathlib.Data.Nat.Init

/-!
# Loops with an early exit

`Loop stop body s r`: the loop runs its body until `stop` holds or the body leaves it
with an error, and ends with `r`. There is no bound on the number of rounds, so that a
loop which has no result does not terminate.
-/

namespace BoardProxy

variable {σ ε : Type*}

inductive Loop (stop : σ → Bool) (body : σ → Except ε σ) : σ → Except ε σ → Prop
  | done {s : σ} : stop s = true → Loop stop body s (.ok s)
  | exit {s : σ} {e : ε} : stop s = false → body s = .error e → Loop stop body s (.error e)
  | next {s t : σ} {r : Except ε σ} :
      stop s = false → body s = .ok t → Loop stop body t r → Loop stop body s r

namespace Loop

variable {stop : σ → Bool} {body : σ → Except ε σ}

theorem total (m : σ → ℕ) (hm : ∀ s t, stop s = false → body s = .ok t → m t < m s) (s : σ) :
    ∃ r, Loop stop body s r := by
  induction hk : m s using Nat.strongRecOn generalizing s with
  | ind k ih =>
    cases hs : stop s with
    | true => exact ⟨_, .done hs⟩
    | false =>
      cases hb : body s with
      | error e => exact ⟨_, .exit hs hb⟩
      | ok t =>
        obtain ⟨r, hr⟩ := ih (m t) (hk ▸ hm s t hs hb) t rfl
        exact ⟨r, .next hs hb hr⟩

end Loop
end BoardProxy
