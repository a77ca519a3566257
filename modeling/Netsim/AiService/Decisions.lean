import Netsim.AiService.ServiceRuns
import Netsim.Foundation.Binary64Range

/-!
# What makes the service fail, and what makes it warn

With the floats of Python the only operation of `analyze` that can raise is the square: the
divisors are positive where they divide, and so is the radicand. A request fails just when
the square of a deviation overflows, which takes readings beyond `2^500`. A prediction is an
anomaly just when two of the three signs agree: the sums of two of the weights, rounded, are
above the threshold, and no single one is (`run_decides`). How the squares and the sums are
rounded is left to the interpreter.
-/

namespace Netsim.AiService

open Foundation

/-- Computations that return, one after the other. -/
theorem mapM_eq_ok {α β ε : Type*} {f : α → Except ε β} {g : α → β} :
    ∀ {l : List α}, (∀ x ∈ l, f x = .ok (g x)) → l.mapM f = .ok (l.map g) := by
  intro l
  induction l with
  | nil => exact fun _ => rfl
  | cons x l ih =>
      intro h
      rw [List.mapM_cons, h x List.mem_cons_self, ih fun y hy => h y (List.mem_cons_of_mem _ hy)]
      rfl

/-- The first of them that raises, when all raise the same. -/
theorem mapM_eq_error {α β ε : Type*} {f : α → Except ε β} {e : ε} :
    ∀ {l : List α}, (∀ x ∈ l, f x = .error e ∨ ∃ y, f x = .ok y) →
      (∃ x ∈ l, f x = .error e) → l.mapM f = .error e := by
  intro l
  induction l with
  | nil => simp
  | cons x l ih =>
      intro hall hsome
      rw [List.mapM_cons]
      rcases hall x List.mem_cons_self with hx | ⟨y, hx⟩
      · rw [hx]
        rfl
      · obtain ⟨z, hz, hraises⟩ := hsome
        have hmem : z ∈ l := by
          rcases List.mem_cons.mp hz with rfl | hmem
          · rw [hx] at hraises
            cases hraises
          · exact hmem
        rw [hx, ih (fun z hz => hall z (List.mem_cons_of_mem _ hz)) ⟨z, hmem, hraises⟩]
        rfl

namespace TelemetryPredictor

/-! ### The threshold -/

/-- The probability of each combination of the signs, between 0 and 1. -/
def weigh (score latency drops : Bool) : Binary64 :=
  let prob : Binary64 := .ofRat 0
  let prob := if score then prob.add (.ofRat 0.4) else prob
  let prob := if latency then prob.add (.ofRat 0.3) else prob
  let prob := if drops then prob.add (.ofRat 0.3) else prob
  let prob := if prob.lt (.ofRat 0) then .ofRat 0 else prob
  if Binary64.lt (.ofRat 1) prob then .ofRat 1 else prob

/-- Two of the weights reach the threshold, and none does alone. -/
theorem le_weigh : ∀ score latency drops, Binary64.le (.ofRat 0.5) (weigh score latency drops) =
    decide (2 ≤ score.toNat + latency.toNat + drops.toNat) := by
  decide +kernel

variable [CPython]

/-! ### The statistics of a window -/

def meanLatency (window : List Binary64) : Binary64 :=
  Binary64.div (PyFloat.sum window) (.ofInt window.length)

def deviation (window : List Binary64) (x : Binary64) : Binary64 :=
  Binary64.sub x (meanLatency window)

def squaredDeviation (window : List Binary64) (x : Binary64) : Binary64 :=
  CPython.squared (deviation window x)

/-- `(x - mean_latency) ** 2` raises. -/
def Overflows (window : List Binary64) (x : Binary64) : Prop :=
  (squaredDeviation window x).isInfinite = true ∧ (deviation window x).isFinite = true

instance (window : List Binary64) (x : Binary64) : Decidable (Overflows window x) :=
  inferInstanceAs (Decidable (_ ∧ _))

def variance (window : List Binary64) : Binary64 :=
  Binary64.div (PyFloat.sum (window.map (squaredDeviation window))) (.ofInt window.length)

def stdDev (window : List Binary64) : Binary64 :=
  if Binary64.lt (.ofRat 0) (variance window) then (variance window).sqrt else .ofRat 1

def zScoreForecast (window : List Binary64) (forecast : Binary64) : Binary64 :=
  if Binary64.lt (.ofInt 0) (stdDev window) then
    Binary64.div (Binary64.sub forecast (meanLatency window)) (stdDev window)
  else .ofRat 0

/-- How many of the signs of an anomaly hold. -/
def signs (window : List Binary64) (forecast : Binary64) (droppedPackets : ℤ) : ℕ :=
  (Binary64.lt (.ofRat 2) (zScoreForecast window forecast)).toNat +
    (Binary64.lt (.ofRat 300) forecast).toNat + (decide (droppedPackets > 0)).toNat

variable {window : List Binary64} {data : TelemetryData Binary64} {key : String}
  {state : Binary64 × Binary64}

theorem div_length (hne : window ≠ []) (hlength : window.length ≤ 2 ^ 53) (x : Binary64) :
    PyFloat.div x (PyFloat.ofInt window.length) =
      .ok (Binary64.div x (.ofInt window.length)) := by
  rw [PyFloat.div_binary64, PyFloat.ofInt_binary64,
    Binary64.isZero_ofInt (List.length_pos_iff.mpr hne) hlength, if_neg Bool.false_ne_true]

theorem square_deviation (window : List Binary64) (x : Binary64) :
    PyFloat.square (PyFloat.sub x (meanLatency window)) =
      if Overflows window x then .error .overflowError else .ok (squaredDeviation window x) := by
  rw [PyFloat.square_binary64, PyFloat.sub_binary64]
  exact if_congr (Bool.and_eq_true _ _).to_iff rfl rfl

theorem stdDev_eq_ok (window : List Binary64) :
    (if PyFloat.lt (PyFloat.literal 0) (variance window) then PyFloat.sqrt (variance window)
      else .ok (PyFloat.literal 1)) = .ok (stdDev window) := by
  rw [PyFloat.lt_binary64, PyFloat.literal_binary64, PyFloat.literal_binary64,
    PyFloat.sqrt_binary64, stdDev]
  split_ifs with hlt hnegative
  · rw [Binary64.ofRat_zero] at hlt
    rw [(Binary64.pos_of_lt hlt).1] at hnegative
    exact absurd hnegative Bool.false_ne_true
  · rfl
  · rfl

theorem zScore_eq_ok (window : List Binary64) (forecast : Binary64) :
    (if PyFloat.lt (PyFloat.ofInt 0) (stdDev window) then
        PyFloat.div (PyFloat.sub forecast (meanLatency window)) (stdDev window)
      else .ok (PyFloat.literal 0)) = .ok (zScoreForecast window forecast) := by
  rw [PyFloat.lt_binary64, PyFloat.ofInt_binary64, PyFloat.literal_binary64,
    PyFloat.div_binary64, PyFloat.sub_binary64, zScoreForecast]
  split_ifs with hlt hzero
  · rw [(Binary64.pos_of_lt hlt).2] at hzero
    exact absurd hzero Bool.false_ne_true
  · rfl
  · rfl

/-- The squares of a window, unless one of them overflows. -/
theorem mapM_squares (window : List Binary64) :
    window.mapM (fun x => PyFloat.square (PyFloat.sub x (meanLatency window))) =
      if ∃ x ∈ window, Overflows window x then .error .overflowError
      else .ok (window.map (squaredDeviation window)) := by
  split_ifs with hoverflow
  · obtain ⟨x, hx, hover⟩ := hoverflow
    apply mapM_eq_error
    · intro y _
      rw [square_deviation]
      split_ifs
      · exact Or.inl rfl
      · exact Or.inr ⟨_, rfl⟩
    · exact ⟨x, hx, by rw [square_deviation, if_pos hover]⟩
  · apply mapM_eq_ok
    intro x hx
    rw [square_deviation, if_neg fun hover => hoverflow ⟨x, hx, hover⟩]

/-- **What `analyze` makes of a window.** It raises just when a square overflows. -/
theorem assess_binary64 (data : TelemetryData Binary64) (key : String)
    (state : Binary64 × Binary64) (hne : window ≠ []) (hlength : window.length ≤ 2 ^ 53) :
    assess data key window state =
      if ∃ x ∈ window, Overflows window x then .error .overflowError
      else .ok (prescribe data key (forecastLatency state)
        (anomalyProbability (zScoreForecast window (forecastLatency state))
          (forecastLatency state) data.droppedPackets)) := by
  have hmean : PyFloat.div (PyFloat.sum window) (PyFloat.ofInt window.length) =
      .ok (meanLatency window) := div_length hne hlength _
  have hvariance : PyFloat.div (PyFloat.sum (window.map (squaredDeviation window)))
      (PyFloat.ofInt window.length) = .ok (variance window) := div_length hne hlength _
  rw [assess_eq, hmean, PyException.ok_bind, mapM_squares]
  split_ifs with hoverflow
  · rfl
  · rw [PyException.ok_bind, hvariance, PyException.ok_bind, stdDev_eq_ok, PyException.ok_bind,
      zScore_eq_ok, PyException.ok_bind]
    rfl

/-! ### The signs -/

theorem anomalyProbability_eq (z forecast : Binary64) (droppedPackets : ℤ) :
    anomalyProbability z forecast droppedPackets =
      weigh (Binary64.lt (.ofRat 2) z) (Binary64.lt (.ofRat 300) forecast)
        (decide (droppedPackets > 0)) := by
  unfold anomalyProbability weigh
  simp only [PyFloat.lt_binary64, PyFloat.literal_binary64, decide_eq_true_eq]
  rfl

theorem isAnomaly_prescribe (data : TelemetryData Binary64) (key : String)
    (forecast prob : Binary64) : (prescribe data key forecast prob).isAnomaly =
      Binary64.le (.ofRat 0.5) prob := by
  unfold prescribe
  dsimp only
  rw [apply_ite AnomalyPrediction.isAnomaly, ite_self, PyFloat.le_binary64,
    PyFloat.literal_binary64]

theorem isAnomaly_iff (data : TelemetryData Binary64) (key : String) (window : List Binary64)
    (forecast : Binary64) :
    (prescribe data key forecast (anomalyProbability (zScoreForecast window forecast) forecast
      data.droppedPackets)).isAnomaly = true ↔ 2 ≤ signs window forecast data.droppedPackets := by
  rw [isAnomaly_prescribe, anomalyProbability_eq, le_weigh, decide_eq_true_iff, signs]

/-! ### Readings that cannot fail -/

/-- No square of a deviation overflows in a window of readings within `2^500`. -/
theorem not_overflows (hpython : CPython.Documented) (hne : window ≠ [])
    (hlength : window.length ≤ 10) (hwithin : ∀ x ∈ window, Binary64.Within 500 x) :
    ¬∃ x ∈ window, Overflows window x := by
  rintro ⟨x, hx, hinfinite, -⟩
  have hsum : Binary64.Within 510 (PyFloat.sum window) :=
    (hpython.within_sum 500 window hwithin (by omega)).mono (by omega)
  have hmean : Binary64.Within 510 (meanLatency window) :=
    hsum.div_ofInt (List.length_pos_iff.mpr hne) (by omega) (by decide)
  have hdeviation : Binary64.Within 511 (deviation window x) :=
    ((hwithin x hx).mono (by decide)).sub hmean (by decide)
  have hfinite := hpython.finite_squared hdeviation (by decide)
  rw [squaredDeviation, hfinite] at hinfinite
  exact Bool.false_ne_true hinfinite

end TelemetryPredictor

namespace Service

open TelemetryPredictor

variable [CPython]

/-- What the service makes of a sample that comes in after the readings `own` of its link. -/
structure Decided (own : List Binary64) (data : TelemetryData Binary64)
    (answer : Except HttpException (AnomalyPrediction Binary64)) : Prop where
  failure_iff : (∃ e, answer = .error e) ↔ 3 ≤ (own ++ [data.latencyNs]).length ∧
    ∃ x ∈ latest 10 (own ++ [data.latencyNs]), Overflows (latest 10 (own ++ [data.latencyNs])) x
  answered : CPython.Documented →
    (∀ x ∈ latest 10 (own ++ [data.latencyNs]), Binary64.Within 500 x) → ∃ a, answer = .ok a
  anomaly_iff : ∀ a, answer = .ok a → (a.isAnomaly = true ↔ ∃ state,
    (TelemetryPredictor.fresh).smoothed (own ++ [data.latencyNs]) = some state ∧
      2 ≤ signs (latest 10 (own ++ [data.latencyNs])) (forecastLatency state)
        data.droppedPackets)

theorem decided_forecast (own : List Binary64) (data : TelemetryData Binary64) :
    Decided own data
      ((TelemetryPredictor.forecast own data).mapError fun _ => predictionFailure) := by
  unfold TelemetryPredictor.forecast
  cases hstate : (TelemetryPredictor.fresh : TelemetryPredictor Binary64).smoothed
      (own ++ [data.latencyNs]) with
  | none =>
      have hshort := (smoothed_eq_none_iff _).mp hstate
      refine ⟨?_, fun _ _ => ⟨baseline, rfl⟩, ?_⟩
      · refine iff_of_false ?_ fun h => Nat.not_lt_of_le h.1 hshort
        rintro ⟨e, he⟩
        cases he
      · rintro a h
        obtain rfl := Except.ok.inj h
        rw [hstate]
        refine iff_of_false Bool.false_ne_true ?_
        rintro ⟨state, h, -⟩
        cases h
  | some state =>
      have hthree : 3 ≤ (own ++ [data.latencyNs]).length := by
        by_contra hlt
        rw [(smoothed_eq_none_iff _).mpr (Nat.not_le.mp hlt)] at hstate
        cases hstate
      have hlength : (latest 10 (own ++ [data.latencyNs])).length ≤ 10 := length_latest_le 10 _
      have hne : latest 10 (own ++ [data.latencyNs]) ≠ [] := by
        rw [← List.length_pos_iff, latest, List.length_drop]
        omega
      dsimp only
      rw [assess_binary64 data data.key state hne (by omega)]
      split_ifs with hoverflow
      · refine ⟨iff_of_true ⟨_, rfl⟩ ⟨hthree, hoverflow⟩, fun hpython hwithin => ?_,
          fun a h => by cases h⟩
        exact absurd hoverflow (not_overflows hpython hne hlength hwithin)
      · refine ⟨?_, fun _ _ => ⟨_, rfl⟩, ?_⟩
        · refine iff_of_false ?_ fun h => hoverflow h.2
          rintro ⟨e, he⟩
          cases he
        · rintro a h
          obtain rfl := Except.ok.inj h
          rw [isAnomaly_iff, hstate]
          constructor
          · exact fun hsigns => ⟨state, rfl, hsigns⟩
          · rintro ⟨state', h', hsigns⟩
            obtain rfl := Option.some.inj h'
            exact hsigns

/-- **What is failed and what is warned of.** On any interpreter and after any requests, the
next one fails just when the square of a deviation in the last ten readings of its link
overflows, which with documented powers and sums needs one beyond `2^500`; and an answer is a
warning just when two of the three signs hold. -/
theorem run_decides (samples : List (TelemetryData Binary64)) (data : TelemetryData Binary64) :
    Decided (readings samples data.key) data (streamTelemetry (run fresh samples) data).1 := by
  rw [answer_run]
  exact decided_forecast _ data

omit [CPython] in
/-- Readings of zero are within every bound, so the fourth of them is answered. -/
theorem run_decides_quiet :
    letI := CPython.nearest
    ∃ a, (streamTelemetry (run fresh quiet) (sampleOf 0)).1 = .ok a := by
  let := CPython.nearest
  apply (run_decides quiet (sampleOf 0)).answered CPython.documented_nearest
  have hreadings : latest 10 (readings quiet (sampleOf 0).key ++ [(sampleOf 0).latencyNs]) =
      List.replicate 4 (.ofInt 0) := by decide +kernel
  intro x hx
  rw [hreadings] at hx
  rw [List.eq_of_mem_replicate hx]
  exact CPython.within_zero 500

end Service

end Netsim.AiService
