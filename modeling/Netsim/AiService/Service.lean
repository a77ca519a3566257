import Netsim.AiService.Predictor

/-!
# The telemetry service

`main.py`: a request stores its sample, asks the predictor, and caches the answer. An
exception of the predictor becomes a response with status 500. The sample has been
stored by then, in the database and in the predictor, and stays.
-/

namespace Netsim.AiService

open Foundation

structure HttpException where
  statusCode : ℕ
  detail : String
deriving DecidableEq, Repr

/-- The two caches of the module and its predictor. -/
structure Service (F : Type*) where
  telemetryDb : UnorderedMap String (List (TelemetryData F))
  analysisCache : UnorderedMap String (AnomalyPrediction F)
  predictor : TelemetryPredictor F

namespace Service

variable {F : Type*} [PyFloat F]

def fresh : Service F := ⟨∅, ∅, TelemetryPredictor.fresh⟩

/-- The link's stored samples with the new one. -/
def eventsAfter (s : Service F) (data : TelemetryData F) : List (TelemetryData F) :=
  appendBounded 100 ((s.telemetryDb.find data.key).getD []) data

def predictionFailure : HttpException := ⟨500, "Predictive calculation failure"⟩

/-- `POST /telemetry/stream` -/
def streamTelemetry (s : Service F) (data : TelemetryData F) :
    Except HttpException (AnomalyPrediction F) × Service F :=
  let key := data.key
  -- the sample is stored before the analysis can fail
  let s := { s with telemetryDb := s.telemetryDb.set key (eventsAfter s data) }
  match s.predictor.analyze data with
  | (.ok prediction, predictor) =>
      (.ok prediction, { s with
        predictor := predictor
        analysisCache := s.analysisCache.set key prediction })
  | (.error _, predictor) => (.error predictionFailure, { s with predictor := predictor })

/-- The service after a sequence of requests. -/
def run (s : Service F) (samples : List (TelemetryData F)) : Service F :=
  samples.foldl (fun s data => (streamTelemetry s data).2) s

/-! ### What a request does -/

theorem streamTelemetry_of_error {s : Service F} {data : TelemetryData F} {e : PyException}
    (h : (s.predictor.analyze data).1 = .error e) :
    streamTelemetry s data = (.error predictionFailure, { s with
      telemetryDb := s.telemetryDb.set data.key (eventsAfter s data)
      predictor := (s.predictor.analyze data).2 }) := by
  rcases hp : s.predictor.analyze data with ⟨answer, predictor⟩
  rw [hp] at h
  obtain rfl : answer = .error e := h
  simp only [streamTelemetry, hp]

theorem streamTelemetry_of_ok {s : Service F} {data : TelemetryData F}
    {prediction : AnomalyPrediction F} (h : (s.predictor.analyze data).1 = .ok prediction) :
    streamTelemetry s data = (.ok prediction, { s with
      telemetryDb := s.telemetryDb.set data.key (eventsAfter s data)
      predictor := (s.predictor.analyze data).2
      analysisCache := s.analysisCache.set data.key prediction }) := by
  rcases hp : s.predictor.analyze data with ⟨answer, predictor⟩
  rw [hp] at h
  obtain rfl : answer = .ok prediction := h
  simp only [streamTelemetry, hp]

theorem predictor_streamTelemetry (s : Service F) (data : TelemetryData F) :
    (streamTelemetry s data).2.predictor = (s.predictor.analyze data).2 := by
  cases h : (s.predictor.analyze data).1 with
  | ok prediction => rw [streamTelemetry_of_ok h]
  | error e => rw [streamTelemetry_of_error h]

/-- A sample of a fixed link. -/
def sampleOf (latency : ℚ) : TelemetryData Binary64 where
  timestampUs := 0
  sourceNode := "RouterA"
  destNode := "RouterB"
  packetSize := 1000
  latencyNs := .ofRat latency
  droppedPackets := 0
  throughputKbps := .ofRat 0

theorem link_sampleOf (latency : ℚ) : (sampleOf latency).link = ("RouterA", "RouterB") := rfl

/-- Three samples of a quiet link. -/
def quiet : List (TelemetryData Binary64) := [sampleOf 0, sampleOf 0, sampleOf 0]

end Service

end Netsim.AiService
