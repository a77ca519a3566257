import Mathlib.Algebra.Order.Ring.Basic
import Mathlib.Data.List.Induction
import Netsim.Foundation.Holt

/-!
# Holt's method forgets

On the difference of two states a reading acts as a linear map, whatever is read. The area
that a difference spans with its image is a quadratic form, and a linear map multiplies such
areas by its determinant, here `1 - alpha`: with every reading the gap between two pasts
shrinks by that factor, exactly (`gap_foldl`). The forecasts differ by no more than the gap
allows (`sq_forecast_le`).
-/

namespace Foundation

section Field

variable {K : Type*} [Field K] {alpha beta : K} {s s' : K × K}

/-- The area that the difference of two states spans with the difference a reading later. -/
def gap (alpha beta : K) (s s' : K × K) : K :=
  alpha * beta * (s.1 - s'.1) ^ 2 - alpha * (1 - beta) * (s.1 - s'.1) * (s.2 - s'.2) +
    (1 - alpha) * (s.2 - s'.2) ^ 2

/-- **One reading.** -/
theorem gap_holt (y : K) : gap alpha beta (holt alpha beta y s) (holt alpha beta y s') =
    (1 - alpha) * gap alpha beta s s' := by
  unfold gap holt
  ring

theorem gap_foldl (alpha beta : K) (ys : List K) (s s' : K × K) :
    gap alpha beta (ys.foldl (fun s y => holt alpha beta y s) s)
        (ys.foldl (fun s y => holt alpha beta y s) s') =
      (1 - alpha) ^ ys.length * gap alpha beta s s' := by
  induction ys using List.reverseRecOn with
  | nil => simp
  | append_singleton ys y ih =>
      simp only [List.foldl_append, List.foldl_cons, List.foldl_nil]
      rw [gap_holt, ih, List.length_append, List.length_singleton, pow_succ]
      ring

end Field

/-- Forecasts `m` readings ahead, from two states. The two sides differ by a square. -/
theorem sq_forecast_le {K : Type*} [Field K] [LinearOrder K] [IsStrictOrderedRing K]
    (alpha beta m : K) (s s' : K × K) :
    (4 * (alpha * beta) * (1 - alpha) - (alpha * (1 - beta)) ^ 2) *
        (s.1 + m * s.2 - (s'.1 + m * s'.2)) ^ 2 ≤
      4 * (1 - alpha + alpha * (1 - beta) * m + alpha * beta * m ^ 2) * gap alpha beta s s' := by
  have hsquare := sq_nonneg ((2 * (alpha * beta) * m + alpha * (1 - beta)) * (s.1 - s'.1) -
    (alpha * (1 - beta) * m + 2 * (1 - alpha)) * (s.2 - s'.2))
  apply sub_nonneg.mp
  refine le_of_le_of_eq hsquare ?_
  unfold gap
  ring

end Foundation
