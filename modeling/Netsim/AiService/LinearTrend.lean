import Mathlib.Data.List.Induction
import Mathlib.Tactic.NormNum
import Netsim.AiService.Predictor
import Netsim.Foundation.Holt

/-!
# Forecasts of a linear trend

The readings of one link move one Holt state, and in every arithmetic that state is
Holt's method run over the readings from the third on (`run_tracks`). It starts from the
first reading and the difference of the first two: level and trend of the second point
are those of the first, so the method lags by one reading, which a constant series does
not show.
-/

namespace Netsim.AiService

open Foundation

namespace TelemetryPredictor

variable {F : Type*} [PyFloat F]

/-- `TelemetryPredictor(window_size, alpha, beta)`. -/
def ofParameters {F : Type*} (windowSize : ℕ) (alpha beta : F) : TelemetryPredictor F :=
  ⟨windowSize, alpha, beta, ∅, ∅⟩

/-- The predictor after a sequence of samples. -/
def run (p : TelemetryPredictor F) (samples : List (TelemetryData F)) : TelemetryPredictor F :=
  samples.foldl (fun p data => (p.analyze data).2) p

/-- The forecast that `assess` makes of level and trend. -/
def forecastLatency (state : F × F) : F :=
  PyFloat.add state.1 (PyFloat.mul (PyFloat.ofInt m) state.2)

/-- Holt's method over the readings from the third on. -/
def smoothed (p : TelemetryPredictor F) : List F → Option (F × F)
  | first :: second :: third :: rest =>
      some ((third :: rest).foldl (fun s y => holtStep p y s) (first, PyFloat.sub second first))
  | _ => none

/-- What the predictor keeps of one link, after these readings of it. -/
structure Tracks (p₀ p : TelemetryPredictor F) (key : String) (readings : List F) : Prop where
  windowSize_eq : p.windowSize = p₀.windowSize
  alpha_eq : p.alpha = p₀.alpha
  beta_eq : p.beta = p₀.beta
  early : readings.length < 3 → (p.latencyHistory.find key).getD [] = readings
  late : 3 ≤ readings.length → 3 ≤ ((p.latencyHistory.find key).getD []).length
  state_eq : p.holtStates.find key = p₀.smoothed readings

variable {p p₀ : TelemetryPredictor F} {key : String} {readings : List F} {y : F}
  {data : TelemetryData F}

theorem assess_eq (data : TelemetryData F) (key : String) (history : List F) (state : F × F) :
    assess data key history state = (do
      let meanLatency ← PyFloat.div (PyFloat.sum history) (PyFloat.ofInt history.length)
      let squares ← history.mapM (fun x => PyFloat.square (PyFloat.sub x meanLatency))
      let variance ← PyFloat.div (PyFloat.sum squares) (PyFloat.ofInt history.length)
      let stdDev ← (if PyFloat.lt (PyFloat.literal 0) variance then PyFloat.sqrt variance
        else .ok (PyFloat.literal 1))
      let zScoreForecast ← (if PyFloat.lt (PyFloat.ofInt 0) stdDev then
          PyFloat.div (PyFloat.sub (forecastLatency state) meanLatency) stdDev
        else .ok (PyFloat.literal 0))
      return prescribe data key (forecastLatency state)
        (anomalyProbability zScoreForecast (forecastLatency state) data.droppedPackets)) := rfl

theorem holtStep_congr (halpha : p.alpha = p₀.alpha) (hbeta : p.beta = p₀.beta) (y : F)
    (s : F × F) : holtStep p y s = holtStep p₀ y s := by
  unfold holtStep
  rw [halpha, hbeta]

/-- One more reading is one more step of the method, from the fourth on. -/
theorem smoothed_concat (p : TelemetryPredictor F) (h : 3 ≤ readings.length) (y : F) :
    p.smoothed (readings ++ [y]) = (p.smoothed readings).map (holtStep p y) := by
  match readings, h with
  | first :: second :: third :: rest, _ => simp [smoothed]

theorem alpha_analyze (p : TelemetryPredictor F) (data : TelemetryData F) :
    (p.analyze data).2.alpha = p.alpha ∧ (p.analyze data).2.beta = p.beta := by
  by_cases h : (windowAfter p data).length < 3
  · rw [analyze_of_lt p h]
    exact ⟨rfl, rfl⟩
  · rw [analyze_of_not_lt p h]
    exact ⟨rfl, rfl⟩

theorem tracks_ofParameters (windowSize : ℕ) (alpha beta : F) (key : String) :
    Tracks (ofParameters windowSize alpha beta) (ofParameters windowSize alpha beta) key [] where
  windowSize_eq := rfl
  alpha_eq := rfl
  beta_eq := rfl
  early := fun _ => by simp [ofParameters]
  late := fun h => absurd h (by simp)
  state_eq := by simp [ofParameters, smoothed]

/-- The window with the next reading in it. -/
theorem Tracks.windowAfter (I : Tracks p₀ p data.key readings) (hwindow : 3 ≤ p₀.windowSize) :
    (readings.length < 3 → p.windowAfter data = readings ++ [data.latencyNs]) ∧
      (3 ≤ readings.length → 3 ≤ (p.windowAfter data).length) := by
  unfold TelemetryPredictor.windowAfter appendBounded
  rw [I.windowSize_eq]
  refine ⟨fun h => ?_, fun h => ?_⟩
  · rw [I.early h, if_neg]
    rw [List.length_append, List.length_singleton]
    omega
  · have hlate := I.late h
    split_ifs
    · rw [List.length_tail, List.length_append, List.length_singleton, Nat.add_sub_cancel]
      exact hlate
    · rw [List.length_append]
      exact Nat.le_add_right_of_le hlate

/-- The state after a sample of which the window is full enough. -/
theorem holtStates_analyze (h : ¬(p.windowAfter data).length < 3) {s : F × F}
    (hprevious : p.previousState data.key (p.windowAfter data) h = s) :
    (p.analyze data).2.holtStates.find data.key = some (holtStep p data.latencyNs s) := by
  rw [analyze_of_not_lt p h, UnorderedMap.find_set_self, stateAfter, hprevious]

theorem previousState_stored {history : List F} (h : ¬history.length < 3) {s : F × F}
    (hfind : p.holtStates.find key = some s) : p.previousState key history h = s := by
  unfold previousState
  rw [hfind]

theorem previousState_first {history : List F} (h : ¬history.length < 3) {first second : F}
    (hfind : p.holtStates.find key = none) (hhistory : history = [first, second, y]) :
    p.previousState key history h = (first, PyFloat.sub second first) := by
  subst hhistory
  unfold previousState
  rw [hfind]
  rfl

/-- Level and trend after one more sample. -/
theorem Tracks.holtStates (I : Tracks p₀ p data.key readings) (hwindow : 3 ≤ p₀.windowSize) :
    (p.analyze data).2.holtStates.find data.key = p₀.smoothed (readings ++ [data.latencyNs]) := by
  obtain ⟨hearly, hlate⟩ := I.windowAfter hwindow
  have hstep := holtStep_congr I.alpha_eq I.beta_eq data.latencyNs
  match readings, I, hearly, hlate with
  | [], I, hearly, _ =>
      have hlt : (p.windowAfter data).length < 3 := by
        rw [hearly (by simp)]
        simp
      rw [analyze_of_lt p hlt]
      exact I.state_eq
  | [_], I, hearly, _ =>
      have hlt : (p.windowAfter data).length < 3 := by
        rw [hearly (by simp)]
        simp
      rw [analyze_of_lt p hlt]
      exact I.state_eq
  | [first, second], I, hearly, _ =>
      -- the window is full enough for the first time
      have hthree : p.windowAfter data = [first, second, data.latencyNs] := hearly (by simp)
      have hlt : ¬(p.windowAfter data).length < 3 := by
        rw [hthree]
        simp
      rw [holtStates_analyze hlt (previousState_first hlt I.state_eq hthree), hstep]
      rfl
  | first :: second :: third :: rest, I, _, hlate =>
      have hlength : 3 ≤ (first :: second :: third :: rest).length := by simp
      have hlt : ¬(p.windowAfter data).length < 3 := Nat.not_lt.mpr (hlate hlength)
      rw [smoothed_concat p₀ hlength, holtStates_analyze hlt (previousState_stored hlt I.state_eq),
        hstep]
      rfl

/-- **One sample.** -/
theorem Tracks.analyze (I : Tracks p₀ p data.key readings) (hwindow : 3 ≤ p₀.windowSize) :
    Tracks p₀ (p.analyze data).2 data.key (readings ++ [data.latencyNs]) := by
  obtain ⟨hearly, hlate⟩ := I.windowAfter hwindow
  have hhistory : ((p.analyze data).2.latencyHistory.find data.key).getD [] =
      p.windowAfter data := by
    rw [latencyHistory_analyze, UnorderedMap.find_set_self, Option.getD_some]
  refine ⟨?_, ?_, ?_, fun h => ?_, fun h => ?_, ?_⟩
  · rw [windowSize_analyze, I.windowSize_eq]
  · rw [(alpha_analyze p data).1, I.alpha_eq]
  · rw [(alpha_analyze p data).2, I.beta_eq]
  · rw [List.length_append, List.length_singleton] at h
    rw [hhistory, hearly (Nat.lt_of_succ_lt h)]
  · rw [hhistory]
    rcases Nat.lt_or_ge readings.length 3 with hlt | hge
    · rw [hearly hlt]
      exact h
    · exact hlate hge
  · exact I.holtStates hwindow

/-- **A run over one link** keeps Holt's state of its readings. -/
theorem run_tracks {windowSize : ℕ} (hwindow : 3 ≤ windowSize) (alpha beta : F)
    {samples : List (TelemetryData F)} (hkey : ∀ data ∈ samples, data.key = key) :
    Tracks (ofParameters windowSize alpha beta) (run (ofParameters windowSize alpha beta) samples)
      key (samples.map TelemetryData.latencyNs) := by
  induction samples using List.reverseRecOn with
  | nil => exact tracks_ofParameters windowSize alpha beta key
  | append_singleton samples data ih =>
      obtain rfl := hkey data (by simp)
      have I := ih fun data' hdata => hkey data' (List.mem_append_left _ hdata)
      rw [List.map_append, List.map_singleton]
      unfold run at I ⊢
      rw [List.foldl_append]
      exact I.analyze hwindow

/-! ### Readings of a line -/

/-- `a + c * 1` to `a + c * n`. -/
def lineReadings (a c : ℚ) (n : ℕ) : List ℚ := (List.range n).map fun i => linePoint a c (i + 1)

variable {a c : ℚ} {sqrt : ℚ → Except PyException ℚ} {fixed1 : ℚ → String}

theorem lineReadings_succ (a c : ℚ) (n : ℕ) :
    lineReadings a c (n + 1) = lineReadings a c n ++ [linePoint a c (n + 1)] := by
  unfold lineReadings
  rw [List.range_succ, List.map_append, List.map_singleton]

/-- Level and trend start one reading late. -/
theorem smoothed_lineReadings (windowSize : ℕ) (alpha beta : ℚ) (k : ℕ) :
    letI := PyFloat.exact sqrt fixed1
    (ofParameters windowSize alpha beta).smoothed (lineReadings a c (k + 3)) =
      some (followLine alpha beta a c 2 (linePoint a c 1, c) (k + 1)) := by
  let := PyFloat.exact sqrt fixed1
  induction k with
  | zero =>
      have htrend : linePoint a c 2 - linePoint a c 1 = c := by
        rw [linePoint_succ a c 1, add_sub_cancel_left]
      have hfirst : (ofParameters windowSize alpha beta).smoothed (lineReadings a c 3) =
          some (holt alpha beta (linePoint a c 3)
            (linePoint a c 1, linePoint a c 2 - linePoint a c 1)) := rfl
      rw [hfirst, htrend]
      rfl
  | succ k ih =>
      have hlength : 3 ≤ (lineReadings a c (k + 3)).length := by simp [lineReadings]
      have hindex : k + 3 + 1 = 2 + (k + 1) + 1 := by ring
      rw [Nat.add_right_comm k 1 3, lineReadings_succ, smoothed_concat _ hlength, ih, hindex]
      rfl

/-- **When the forecast of a line is exact.** In exact arithmetic the readings of a line
leave its level and trend, and with them the forecast on it, if and only if the line is
level, or nothing is smoothed and a fourth reading has corrected the start. -/
theorem run_line_iff (sqrt : ℚ → Except PyException ℚ) (fixed1 : ℚ → String) {windowSize : ℕ}
    (hwindow : 3 ≤ windowSize) {alpha beta : ℚ} (halpha : alpha ≠ 0) (hbeta : beta ≠ 0)
    (a c : ℚ) (link : String × String) (samples : List (TelemetryData ℚ))
    (hlink : ∀ data ∈ samples, data.link = link)
    (hline : samples.map TelemetryData.latencyNs =
      (List.range samples.length).map fun i => a + c * (i + 1 : ℕ))
    (hlength : 3 ≤ samples.length) :
    letI := PyFloat.exact sqrt fixed1
    ∃ state, (run (ofParameters windowSize alpha beta) samples).holtStates.find (nodePair link) =
        some state ∧
      (state = (a + c * samples.length, c) ∧
          forecastLatency state = a + c * (samples.length + 3) ↔
        c = 0 ∨ alpha = 1 ∧ beta = 1 ∧ 4 ≤ samples.length) := by
  let := PyFloat.exact sqrt fixed1
  obtain ⟨k, hk⟩ := Nat.exists_eq_add_of_le' hlength
  have hkey : ∀ data ∈ samples, data.key = nodePair link := fun data hdata =>
    congrArg nodePair (hlink data hdata)
  have hstate := (run_tracks hwindow alpha beta hkey).state_eq
  have hreadings : samples.map TelemetryData.latencyNs = lineReadings a c (k + 3) := by
    rw [hline, hk]
    rfl
  rw [hreadings, smoothed_lineReadings] at hstate
  refine ⟨_, hstate, ?_⟩
  have hiff := followLine_onLine_iff (a := a) (c := c) (n := 1) halpha hbeta k
  have hindex : 1 + 1 + k + 1 = k + 3 := by ring
  have hfour : 4 ≤ k + 3 ↔ k ≠ 0 := by omega
  rw [hindex] at hiff
  rw [hk, hfour, ← hiff]
  refine ⟨fun h => h.1, fun h => ⟨h, ?_⟩⟩
  rw [h]
  show linePoint a c (k + 3) + ((m : ℤ) : ℚ) * c = a + c * ((k + 3 : ℕ) + 3)
  unfold linePoint m
  push_cast
  ring

/-- A square root of a rational, to the precision of a double. -/
def nearSqrt (x : ℚ) : Except PyException ℚ :=
  if x < 0 then .error .valueError else .ok (Binary64.ofRat x).sqrt.toRat

def nearFixed1 (x : ℚ) : String := (Binary64.ofRat x).fixed1

/-- Latencies of 10, 20 and 30 on one link. -/
def ramp : List (TelemetryData ℚ) :=
  [10, 20, 30].map fun latencyNs => ⟨0, "RouterA", "RouterB", 512, latencyNs, 0, 100⟩

theorem run_line_iff_ramp :
    letI := PyFloat.exact nearSqrt nearFixed1
    ∃ state, (run (ofParameters 10 (4 / 5) (1 / 2)) ramp).holtStates.find
        (nodePair ("RouterA", "RouterB")) = some state ∧
      (state = (0 + 10 * (ramp.length : ℚ), 10) ∧
          forecastLatency state = 0 + 10 * ((ramp.length : ℚ) + 3) ↔
        (10 : ℚ) = 0 ∨ (4 / 5 : ℚ) = 1 ∧ (1 / 2 : ℚ) = 1 ∧ 4 ≤ ramp.length) :=
  run_line_iff nearSqrt nearFixed1 (by decide) (by norm_num) (by norm_num) 0 10 _ ramp
    (by simp [ramp, TelemetryData.link]) (by simp [ramp, List.range_succ]; norm_num) (by decide)

/-- The ramp leaves the level 28 and the trend 14, where the line has 30 and 10. -/
theorem not_run_line :
    letI := PyFloat.exact nearSqrt nearFixed1
    (run (ofParameters 10 (4 / 5) (1 / 2)) ramp).holtStates.find
        (nodePair ("RouterA", "RouterB")) = some (28, 14) ∧
      ¬ ((28, 14) = ((0 : ℚ) + 10 * ramp.length, (10 : ℚ)) ∧
        forecastLatency (28, 14) = (0 : ℚ) + 10 * (ramp.length + 3)) := by
  let := PyFloat.exact nearSqrt nearFixed1
  have hkey : ∀ data ∈ ramp, data.key = nodePair ("RouterA", "RouterB") := by
    simp [ramp, TelemetryData.key, TelemetryData.link]
  constructor
  · rw [(run_tracks (by decide) (4 / 5) (1 / 2) hkey).state_eq]
    have hvalue : holt (4 / 5 : ℚ) (1 / 2) 30 (10, 20 - 10) = (28, 14) := by
      norm_num [holt]
    exact congrArg some hvalue
  · norm_num

end TelemetryPredictor

end Netsim.AiService
