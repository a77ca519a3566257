import Mathlib.Tactic.Linarith
import Mathlib.Tactic.Positivity
import Netsim.AiService.ServiceRuns
import Netsim.Foundation.HoltMemory

/-!
# How fast the predictor forgets

With the default factors every reading divides the gap between two pasts of a link by five,
in exact arithmetic: whatever came before, the forecasts after the same readings are close
soon (`run_forgets`). The late start of `analyze` is one such past.
-/

namespace Netsim.AiService

open Foundation

namespace TelemetryPredictor

theorem smoothed_append {F : Type*} [PyFloat F] (p : TelemetryPredictor F) {before : List F}
    (h : 3 ≤ before.length) (common : List F) : p.smoothed (before ++ common) =
      (p.smoothed before).map fun s => common.foldl (fun s y => holtStep p y s) s := by
  induction common using List.reverseRecOn with
  | nil => simp
  | append_singleton common y ih =>
      have hlength : 3 ≤ (before ++ common).length := by
        rw [List.length_append]
        omega
      rw [← List.append_assoc, smoothed_concat p hlength, ih, Option.map_map]
      simp [Function.comp_def]

end TelemetryPredictor

namespace Service

open TelemetryPredictor

variable {before : List ℚ} {key : String}

/-- The method over more readings, with the default factors. -/
theorem exists_smoothed (sqrt : ℚ → Except PyException ℚ) (fixed1 : ℚ → String)
    (h : 3 ≤ before.length) (common : List ℚ) :
    letI := PyFloat.exact sqrt fixed1
    ∃ s, (TelemetryPredictor.fresh : TelemetryPredictor ℚ).smoothed before = some s ∧
      (TelemetryPredictor.fresh : TelemetryPredictor ℚ).smoothed (before ++ common) =
        some (common.foldl (fun s y => holt 0.8 0.5 y s) s) := by
  let := PyFloat.exact sqrt fixed1
  cases hstate : (TelemetryPredictor.fresh : TelemetryPredictor ℚ).smoothed before with
  | none => exact absurd ((smoothed_eq_none_iff _).mp hstate) (Nat.not_lt.mpr h)
  | some s =>
      refine ⟨s, rfl, ?_⟩
      rw [smoothed_append _ h, hstate]
      rfl

/-- The forecasts of two states are no further apart than the gap allows. -/
theorem sq_forecastLatency_le (sqrt : ℚ → Except PyException ℚ) (fixed1 : ℚ → String)
    (s s' : ℚ × ℚ) :
    letI := PyFloat.exact sqrt fixed1
    (forecastLatency s - forecastLatency s') ^ 2 ≤ 125 * gap 0.8 0.5 s s' := by
  have hle := sq_forecast_le (0.8 : ℚ) 0.5 (m : ℤ) s s'
  have hleft : 4 * ((0.8 : ℚ) * 0.5) * (1 - 0.8) - (0.8 * (1 - 0.5)) ^ 2 = 4 / 25 := by norm_num
  have hright : 4 * (1 - (0.8 : ℚ) + 0.8 * (1 - 0.5) * (m : ℤ) + 0.8 * 0.5 * (m : ℤ) ^ 2) = 20 := by
    norm_num [m]
  rw [hleft, hright] at hle
  show (s.1 + ((m : ℤ) : ℚ) * s.2 - (s'.1 + ((m : ℤ) : ℚ) * s'.2)) ^ 2 ≤ _
  linarith

/-- **The past fades.** Two histories of a link, its readings the same at the end: the gap
between what the method makes of them has shrunk to a fifth with each reading in common,
and with it the square of what separates the forecasts. -/
theorem run_forgets (sqrt : ℚ → Except PyException ℚ) (fixed1 : ℚ → String)
    (samples samples' : List (TelemetryData ℚ)) (key key' : String)
    {before before' common : List ℚ} (h : readings samples key = before ++ common)
    (h' : readings samples' key' = before' ++ common) (hlength : 3 ≤ before.length)
    (hlength' : 3 ≤ before'.length) :
    letI := PyFloat.exact sqrt fixed1
    ∃ s₀ s₀' s s' : ℚ × ℚ,
      (TelemetryPredictor.fresh).smoothed before = some s₀ ∧
      (TelemetryPredictor.fresh).smoothed before' = some s₀' ∧
      (run fresh samples).predictor.holtStates.find key = some s ∧
      (run fresh samples').predictor.holtStates.find key' = some s' ∧
      gap 0.8 0.5 s s' * 5 ^ common.length = gap 0.8 0.5 s₀ s₀' ∧
      (forecastLatency s - forecastLatency s') ^ 2 * 5 ^ common.length ≤
        125 * gap 0.8 0.5 s₀ s₀' := by
  let := PyFloat.exact sqrt fixed1
  obtain ⟨s₀, hs₀, hs⟩ := exists_smoothed sqrt fixed1 hlength common
  obtain ⟨s₀', hs₀', hs'⟩ := exists_smoothed sqrt fixed1 hlength' common
  rw [← h, ← holtStates_run] at hs
  rw [← h', ← holtStates_run] at hs'
  refine ⟨s₀, s₀', _, _, hs₀, hs₀', hs, hs', ?_⟩
  have hpower : (1 - 0.8 : ℚ) ^ common.length * 5 ^ common.length = 1 := by
    rw [← mul_pow]
    norm_num
  have hgap : gap 0.8 0.5 (common.foldl (fun s y => holt 0.8 0.5 y s) s₀)
      (common.foldl (fun s y => holt 0.8 0.5 y s) s₀') * 5 ^ common.length =
        gap 0.8 0.5 s₀ s₀' := by
    rw [gap_foldl, mul_right_comm, hpower, one_mul]
  refine ⟨hgap, ?_⟩
  rw [← hgap, ← mul_assoc]
  exact mul_le_mul_of_nonneg_right (sq_forecastLatency_le sqrt fixed1 _ _) (by positivity)

end Service

end Netsim.AiService
