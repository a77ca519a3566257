import Netsim.Foundation.PyFloat
import Netsim.Foundation.UnorderedMap

/-!
# The telemetry predictor

`models/schemas.py` and `models/predictor.py`: for each link a window of the latest
latencies and the level and trend of Holt's method, kept in dictionaries under the key
`source->dest`. `analyze` first updates both entries and then assesses the sample; an
operation that raises in the assessment does not take the updates back, so the result
comes with the predictor in every case.
-/

namespace Netsim.AiService

open Foundation

structure TelemetryData (F : Type*) where
  timestampUs : ℤ
  sourceNode : String
  destNode : String
  packetSize : ℤ
  latencyNs : F
  droppedPackets : ℤ
  throughputKbps : F
deriving DecidableEq

structure AnomalyPrediction (F : Type*) where
  isAnomaly : Bool
  anomalyProbability : F
  predictedBottleneckNode : Option String
  alertMessage : String
  recommendedAction : String
deriving DecidableEq

/-- `f"{source_node}->{dest_node}"` -/
def nodePair (link : String × String) : String := link.1 ++ "->" ++ link.2

/-- The link a sample is about. -/
def TelemetryData.link {F : Type*} (data : TelemetryData F) : String × String :=
  (data.sourceNode, data.destNode)

/-- The key of its link. -/
def TelemetryData.key {F : Type*} (data : TelemetryData F) : String := nodePair data.link

/-- `append`, and `pop(0)` when the list has outgrown its limit. -/
def appendBounded {α : Type*} (limit : ℕ) (l : List α) (x : α) : List α :=
  if (l ++ [x]).length > limit then (l ++ [x]).tail else l ++ [x]

structure TelemetryPredictor (F : Type*) where
  windowSize : ℕ
  alpha : F
  beta : F
  latencyHistory : UnorderedMap String (List F)
  holtStates : UnorderedMap String (F × F)

namespace TelemetryPredictor

variable {F : Type*} [PyFloat F]

/-- `TelemetryPredictor()`, with the default parameters. -/
def fresh : TelemetryPredictor F where
  windowSize := 10
  alpha := PyFloat.literal 0.8
  beta := PyFloat.literal 0.5
  latencyHistory := ∅
  holtStates := ∅

/-- The answer until there are three readings. -/
def baseline : AnomalyPrediction F where
  isAnomaly := false
  anomalyProbability := PyFloat.literal 0
  predictedBottleneckNode := none
  alertMessage := "Collecting initial telemetry baseline..."
  recommendedAction := "Maintain current OSPF routing metrics."

/-- Level and trend before the sample: the stored ones, or those of the first two
readings. -/
def previousState (p : TelemetryPredictor F) (key : String) (history : List F)
    (h : ¬history.length < 3) : F × F :=
  match p.holtStates.find key with
  | some state => state
  | none => (history[0], PyFloat.sub history[1] history[0])

/-- Holt's equations. -/
def holtStep (p : TelemetryPredictor F) (yT : F) (state : F × F) : F × F :=
  let (lPrev, bPrev) := state
  let lT := PyFloat.add (PyFloat.mul p.alpha yT)
    (PyFloat.mul (PyFloat.sub (PyFloat.literal 1) p.alpha) (PyFloat.add lPrev bPrev))
  let bT := PyFloat.add (PyFloat.mul p.beta (PyFloat.sub lT lPrev))
    (PyFloat.mul (PyFloat.sub (PyFloat.literal 1) p.beta) bPrev)
  (lT, bT)

/-- The probability from the forecast, its score and the drops. -/
def anomalyProbability (zScoreForecast forecastLatency : F) (droppedPackets : ℤ) : F :=
  let prob : F := PyFloat.literal 0
  let prob := if PyFloat.lt (PyFloat.literal 2) zScoreForecast then
    PyFloat.add prob (PyFloat.literal 0.4) else prob
  let prob := if PyFloat.lt (PyFloat.literal 300) forecastLatency then
    PyFloat.add prob (PyFloat.literal 0.3) else prob
  let prob := if droppedPackets > 0 then PyFloat.add prob (PyFloat.literal 0.3) else prob
  PyFloat.min (PyFloat.max prob (PyFloat.literal 0)) (PyFloat.literal 1)

/-- The intervals ahead that are forecast. -/
def m : ℤ := 3

/-- What `analyze` answers. -/
def prescribe (data : TelemetryData F) (key : String) (forecastLatency anomalyProb : F) :
    AnomalyPrediction F :=
  let isAnomaly := PyFloat.le (PyFloat.literal 0.5) anomalyProb
  if isAnomaly then
    { isAnomaly := isAnomaly
      anomalyProbability := anomalyProb
      predictedBottleneckNode := some data.destNode
      alertMessage := "Predicted latency anomaly (" ++ PyFloat.fixed1 forecastLatency ++
        " ns) on link " ++ key ++ " within the next " ++ toString m ++ " intervals."
      recommendedAction := "Congestion imminent. Set Link Cost for " ++ key ++
        " to 999999 to trigger dynamic Dijkstra routing bypass." }
  else
    { isAnomaly := isAnomaly
      anomalyProbability := anomalyProb
      predictedBottleneckNode := none
      alertMessage := "Link stability within normal operating parameters."
      recommendedAction := "Maintain current routing table configuration." }

/-- The part of `analyze` after the updates. -/
def assess (data : TelemetryData F) (key : String) (history : List F) (state : F × F) :
    Except PyException (AnomalyPrediction F) := do
  let (lT, bT) := state
  let forecastLatency := PyFloat.add lT (PyFloat.mul (PyFloat.ofInt m) bT)
  let meanLatency ← PyFloat.div (PyFloat.sum history) (PyFloat.ofInt history.length)
  let squares ← history.mapM (fun x => PyFloat.square (PyFloat.sub x meanLatency))
  let variance ← PyFloat.div (PyFloat.sum squares) (PyFloat.ofInt history.length)
  let stdDev ← (if PyFloat.lt (PyFloat.literal 0) variance then PyFloat.sqrt variance
    else .ok (PyFloat.literal 1))
  let zScoreForecast ← (if PyFloat.lt (PyFloat.ofInt 0) stdDev then
      PyFloat.div (PyFloat.sub forecastLatency meanLatency) stdDev
    else .ok (PyFloat.literal 0))
  let anomalyProb := anomalyProbability zScoreForecast forecastLatency data.droppedPackets
  return prescribe data key forecastLatency anomalyProb

/-- The link's window with the sample in it. -/
def windowAfter (p : TelemetryPredictor F) (data : TelemetryData F) : List F :=
  appendBounded p.windowSize ((p.latencyHistory.find data.key).getD []) data.latencyNs

def analyze (p : TelemetryPredictor F) (data : TelemetryData F) :
    Except PyException (AnomalyPrediction F) × TelemetryPredictor F :=
  let key := data.key
  let history := windowAfter p data
  let p := { p with latencyHistory := p.latencyHistory.set key history }
  if h : history.length < 3 then (.ok baseline, p)
  else
    let state := holtStep p data.latencyNs (previousState p key history h)
    let p := { p with holtStates := p.holtStates.set key state }
    (assess data key history state, p)

/-! ### What a call of `analyze` does -/

theorem analyze_of_lt (p : TelemetryPredictor F) {data : TelemetryData F}
    (h : (windowAfter p data).length < 3) :
    p.analyze data = (.ok baseline, { p with
      latencyHistory := p.latencyHistory.set data.key (windowAfter p data) }) := by
  rw [analyze]
  exact dif_pos h

/-- Level and trend once the sample is in the window. -/
def stateAfter (p : TelemetryPredictor F) (data : TelemetryData F)
    (h : ¬(windowAfter p data).length < 3) : F × F :=
  holtStep p data.latencyNs (previousState p data.key (windowAfter p data) h)

theorem analyze_of_not_lt (p : TelemetryPredictor F) {data : TelemetryData F}
    (h : ¬(windowAfter p data).length < 3) :
    p.analyze data =
      (assess data data.key (windowAfter p data) (stateAfter p data h),
        { p with
          latencyHistory := p.latencyHistory.set data.key (windowAfter p data)
          holtStates := p.holtStates.set data.key (stateAfter p data h) }) := by
  rw [analyze]
  exact dif_neg h

theorem latencyHistory_analyze (p : TelemetryPredictor F) (data : TelemetryData F) :
    (p.analyze data).2.latencyHistory = p.latencyHistory.set data.key (windowAfter p data) := by
  by_cases h : (windowAfter p data).length < 3
  · rw [analyze_of_lt p h]
  · rw [analyze_of_not_lt p h]

theorem windowSize_analyze (p : TelemetryPredictor F) (data : TelemetryData F) :
    (p.analyze data).2.windowSize = p.windowSize := by
  by_cases h : (windowAfter p data).length < 3
  · rw [analyze_of_lt p h]
  · rw [analyze_of_not_lt p h]

/-- The message tells a prediction from the baseline. -/
theorem prescribe_ne_baseline (data : TelemetryData F) (key : String) (forecast prob : F) :
    prescribe data key forecast prob ≠ baseline := by
  have hstart (rest : String) :
      "Predicted latency anomaly (" ++ rest ≠ "Collecting initial telemetry baseline..." := by
    intro h
    have hlist := congrArg String.toList h
    rw [String.toList_append] at hlist
    exact absurd (congrArg List.head? hlist) (by simp)
  intro h
  have hmessage := congrArg AnomalyPrediction.alertMessage h
  unfold prescribe at hmessage
  dsimp only at hmessage
  split at hmessage
  · simp only [String.append_assoc] at hmessage
    exact hstart _ hmessage
  · have hstable : "Link stability within normal operating parameters." =
        "Collecting initial telemetry baseline..." := hmessage
    exact absurd hstable (by decide)

theorem assess_ne_baseline (data : TelemetryData F) (key : String) (history : List F)
    (state : F × F) : assess data key history state ≠ .ok baseline := by
  intro h
  obtain ⟨mean, -, h⟩ := PyException.of_bind_eq_ok h
  obtain ⟨squares, -, h⟩ := PyException.of_bind_eq_ok h
  obtain ⟨variance, -, h⟩ := PyException.of_bind_eq_ok h
  obtain ⟨stdDev, -, h⟩ := PyException.of_bind_eq_ok h
  obtain ⟨zScoreForecast, -, h⟩ := PyException.of_bind_eq_ok h
  exact prescribe_ne_baseline _ _ _ _ (Except.ok.inj h)

end TelemetryPredictor

end Netsim.AiService
