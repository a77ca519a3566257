import Mathlib.Data.Nat.Basic

/-!
# Costs over a run

Each step of a machine has a cost and a credit that are read off the state before it.
If the change of some potential pays for the difference at every step, then a run costs
no more than its credits and the potential of the state it starts from
(`total_le_of_potential`).
-/

namespace Foundation

variable {σ ε : Type*} {step : σ → ε → σ} {cost cost' credit : σ → ε → ℕ}

/-- The sum of a quantity over the steps of a run. -/
def total (step : σ → ε → σ) (cost : σ → ε → ℕ) : σ → List ε → ℕ
  | _, [] => 0
  | s, e :: run => cost s e + total step cost (step s e) run

theorem total_add (s : σ) (run : List ε) :
    total step (fun s e => cost s e + cost' s e) s run =
      total step cost s run + total step cost' s run := by
  induction run generalizing s with
  | nil => rfl
  | cons e run ih =>
      rw [total, total, total, ih]
      omega

theorem total_le_of_potential (potential : σ → ℕ)
    (h : ∀ s e, cost s e + potential (step s e) ≤ credit s e + potential s)
    (s : σ) (run : List ε) :
    total step cost s run + potential (run.foldl step s) ≤
      total step credit s run + potential s := by
  induction run generalizing s with
  | nil => exact Nat.le_refl _
  | cons e run ih =>
      have hstep := h s e
      have hrest := ih (step s e)
      rw [List.foldl_cons, total, total]
      omega

end Foundation
