import Netsim.AiService.LinearTrend
import Netsim.AiService.LinkIsolation

/-!
# What the service answers

The service is three dictionaries and a loop of requests. What it amounts to is a function
of the samples that came in under a key: the database keeps the last hundred of them, the
answer to the next is a forecast from the last ten readings and from Holt's method over all
readings, and the analysis that the dashboard polls is the latest answer that was not a
failure (`run_serves`).
-/

namespace Netsim.AiService

open Foundation

variable {α F : Type*}

/-- The last `n` elements. -/
def latest (n : ℕ) (l : List α) : List α := l.drop (l.length - n)

theorem length_latest_le (n : ℕ) (l : List α) : (latest n l).length ≤ n := by
  rw [latest, List.length_drop]
  omega

theorem appendBounded_latest (n : ℕ) (l : List α) (x : α) :
    appendBounded n (latest n l) x = latest n (l ++ [x]) := by
  have hlength : (latest n l ++ [x]).length = min n l.length + 1 := by
    rw [List.length_append, latest, List.length_drop, List.length_singleton]
    omega
  unfold appendBounded
  rw [hlength, latest, latest, List.length_append, List.length_singleton]
  split_ifs with hfull
  · have hle : l.length - n ≤ l.length := Nat.sub_le _ _
    rw [← List.drop_one, ← List.drop_append_of_le_length hle, List.drop_drop]
    congr 1
    omega
  · rw [← List.drop_append_of_le_length (Nat.sub_le _ _)]
    congr 1
    omega

namespace TelemetryPredictor

variable [PyFloat F] {p : TelemetryPredictor F} {key : String} {readings : List F}
  {data : TelemetryData F}

/-- The forecast for a sample, from the readings of its link before it. -/
def forecast (readings : List F) (data : TelemetryData F) :
    Except PyException (AnomalyPrediction F) :=
  match (fresh : TelemetryPredictor F).smoothed (readings ++ [data.latencyNs]) with
  | none => .ok baseline
  | some state => assess data data.key (latest 10 (readings ++ [data.latencyNs])) state

theorem three_le_windowSize : 3 ≤ (fresh : TelemetryPredictor F).windowSize :=
  show 3 ≤ 10 by decide

theorem smoothed_of_lt (p : TelemetryPredictor F) (h : readings.length < 3) :
    p.smoothed readings = none := by
  match readings, h with
  | [], _ => rfl
  | [_], _ => rfl
  | [_, _], _ => rfl

theorem smoothed_eq_none_iff (p : TelemetryPredictor F) :
    p.smoothed readings = none ↔ readings.length < 3 := by
  constructor
  · intro h
    match readings, h with
    | [], _ => exact Nat.zero_lt_succ 2
    | [_], _ => exact Nat.one_lt_succ_succ 1
    | [_, _], _ => exact Nat.lt_succ_self 2
  · exact smoothed_of_lt p

/-- What the predictor keeps of one link. -/
structure Remembers (p : TelemetryPredictor F) (key : String) (readings : List F) : Prop where
  tracks : Tracks fresh p key readings
  history : (p.latencyHistory.find key).getD [] = latest 10 readings

theorem remembers_fresh (key : String) : Remembers (fresh : TelemetryPredictor F) key [] :=
  ⟨tracks_ofParameters 10 _ _ key, by simp [fresh, latest]⟩

theorem Remembers.windowAfter (R : Remembers p data.key readings) :
    p.windowAfter data = latest 10 (readings ++ [data.latencyNs]) := by
  unfold TelemetryPredictor.windowAfter
  rw [R.history, R.tracks.windowSize_eq]
  exact appendBounded_latest 10 readings data.latencyNs

theorem Remembers.analyze (R : Remembers p data.key readings) :
    Remembers (p.analyze data).2 data.key (readings ++ [data.latencyNs]) := by
  refine ⟨R.tracks.analyze three_le_windowSize, ?_⟩
  rw [latencyHistory_analyze, UnorderedMap.find_set_self, Option.getD_some]
  exact R.windowAfter

theorem Remembers.answer (R : Remembers p data.key readings) :
    (p.analyze data).1 = forecast readings data := by
  have hwindow := R.windowAfter
  unfold forecast
  by_cases hlt : (p.windowAfter data).length < 3
  · have hshort : (readings ++ [data.latencyNs]).length < 3 := by
      rw [hwindow, latest, List.length_drop] at hlt
      omega
    rw [smoothed_of_lt fresh hshort, analyze_of_lt p hlt]
  · have hstate := R.tracks.holtStates three_le_windowSize
    rw [analyze_of_not_lt p hlt, UnorderedMap.find_set_self] at hstate
    rw [← hstate, ← hwindow, analyze_of_not_lt p hlt]

end TelemetryPredictor

namespace Service

/-- The readings that came in under a key. -/
def readings (samples : List (TelemetryData F)) (key : String) : List F :=
  (samples.filter fun data => data.key = key).map TelemetryData.latencyNs

theorem key_of_mem_filter {samples : List (TelemetryData F)} {key : String} :
    ∀ data ∈ samples.filter (fun data => data.key = key), data.key = key :=
  fun _ hdata => of_decide_eq_true (List.mem_filter.mp hdata).2

variable [PyFloat F] {s : Service F} {key : String} {own samples : List (TelemetryData F)}
  {data : TelemetryData F} {a : AnomalyPrediction F}

/-- The forecast for a sample, from the samples of its link before it. -/
def forecast (own : List (TelemetryData F)) (data : TelemetryData F) :
    Except PyException (AnomalyPrediction F) :=
  TelemetryPredictor.forecast (own.map TelemetryData.latencyNs) data

/-- The latest answer that was not a failure. -/
def IsLatestAnswer (own : List (TelemetryData F)) (a : AnomalyPrediction F) : Prop :=
  ∃ before data after, own = before ++ data :: after ∧ forecast before data = .ok a ∧
    ∀ mid later rest, after = mid ++ later :: rest →
      ∃ e, forecast (before ++ data :: mid) later = .error e

/-- What the service holds under a key, and says, once the samples `own` have come in
under it. -/
structure Serves (key : String) (own : List (TelemetryData F)) (s : Service F) : Prop where
  telemetryDb : s.telemetryDb.find key = if own = [] then none else some (latest 100 own)
  analysisCache : ∀ a, s.analysisCache.find key = some a ↔ IsLatestAnswer own a
  nextAnswer : ∀ data, data.key = key →
    (streamTelemetry s data).1 = (forecast own data).mapError fun _ => predictionFailure

/-- Where an element stands in a list with one more at the end. -/
theorem append_singleton_eq_iff {l before after : List α} {x y : α} :
    l ++ [y] = before ++ x :: after ↔
      (before = l ∧ x = y ∧ after = []) ∨
        ∃ rest, after = rest ++ [y] ∧ l = before ++ x :: rest := by
  constructor
  · intro h
    rcases List.eq_nil_or_concat after with rfl | ⟨rest, z, rfl⟩
    · obtain ⟨hl, hy⟩ := List.append_inj' h rfl
      exact Or.inl ⟨hl.symm, (List.singleton_inj.mp hy).symm, rfl⟩
    · rw [List.concat_eq_append, ← List.cons_append, ← List.append_assoc] at h
      obtain ⟨hl, hy⟩ := List.append_inj' h rfl
      obtain rfl := List.singleton_inj.mp hy
      exact Or.inr ⟨rest, by rw [List.concat_eq_append], hl⟩
  · rintro (⟨rfl, rfl, rfl⟩ | ⟨rest, rfl, rfl⟩)
    · rfl
    · rw [List.append_assoc, List.cons_append]

theorem isLatestAnswer_append_ok (h : forecast own data = .ok a) (b : AnomalyPrediction F) :
    IsLatestAnswer (own ++ [data]) b ↔ b = a := by
  constructor
  · rintro ⟨before, x, after, heq, hok, hlater⟩
    rcases append_singleton_eq_iff.mp heq with ⟨rfl, rfl, -⟩ | ⟨rest, rfl, rfl⟩
    · exact Except.ok.inj (hok.symm.trans h)
    · obtain ⟨e, he⟩ := hlater rest data [] rfl
      rw [h] at he
      cases he
  · rintro rfl
    exact ⟨own, data, [], rfl, h, fun mid later rest hnil => by simp at hnil⟩

theorem isLatestAnswer_append_error {e : PyException} (h : forecast own data = .error e)
    (b : AnomalyPrediction F) : IsLatestAnswer (own ++ [data]) b ↔ IsLatestAnswer own b := by
  constructor
  · rintro ⟨before, x, after, heq, hok, hlater⟩
    rcases append_singleton_eq_iff.mp heq with ⟨rfl, rfl, -⟩ | ⟨rest, rfl, rfl⟩
    · rw [h] at hok
      cases hok
    · refine ⟨before, x, rest, rfl, hok, fun mid later tail htail => ?_⟩
      exact hlater mid later (tail ++ [data]) (by rw [htail, List.append_assoc, List.cons_append])
  · rintro ⟨before, x, after, rfl, hok, hlater⟩
    refine ⟨before, x, after ++ [data], by rw [List.append_assoc, List.cons_append], hok,
      fun mid later rest heq => ?_⟩
    rcases append_singleton_eq_iff.mp heq with ⟨rfl, rfl, -⟩ | ⟨rest, -, rfl⟩
    · exact ⟨e, h⟩
    · exact hlater mid later rest rfl

/-- What a service that has only ever seen one link holds of it. -/
structure Holds (key : String) (own : List (TelemetryData F)) (s : Service F) : Prop where
  telemetryDb : s.telemetryDb.find key = if own = [] then none else some (latest 100 own)
  analysisCache : ∀ a, s.analysisCache.find key = some a ↔ IsLatestAnswer own a
  predictor : s.predictor.Remembers key (own.map TelemetryData.latencyNs)

theorem Holds.serves (H : Holds key own s) : Serves key own s where
  telemetryDb := H.telemetryDb
  analysisCache := H.analysisCache
  nextAnswer := by
    rintro data rfl
    have hanswer : (s.predictor.analyze data).1 = forecast own data := H.predictor.answer
    cases h : forecast own data with
    | ok prediction => rw [streamTelemetry_of_ok (hanswer.trans h)]; rfl
    | error e => rw [streamTelemetry_of_error (hanswer.trans h)]; rfl

theorem holds_fresh (key : String) : Holds key [] (fresh : Service F) where
  telemetryDb := UnorderedMap.find_empty key
  analysisCache := by
    intro a
    have hnone : (fresh : Service F).analysisCache.find key = none := UnorderedMap.find_empty key
    rw [hnone]
    refine iff_of_false (by simp) ?_
    rintro ⟨before, data, after, h, -⟩
    simp at h
  predictor := TelemetryPredictor.remembers_fresh key

/-- **One request.** -/
theorem Holds.step (H : Holds data.key own s) :
    Holds data.key (own ++ [data]) (streamTelemetry s data).2 := by
  have hanswer : (s.predictor.analyze data).1 = forecast own data := H.predictor.answer
  have hpredictor : (s.predictor.analyze data).2.Remembers data.key
      ((own ++ [data]).map TelemetryData.latencyNs) := by
    rw [List.map_append]
    exact H.predictor.analyze
  have hevents : s.eventsAfter data = latest 100 (own ++ [data]) := by
    unfold eventsAfter
    rw [H.telemetryDb, ← appendBounded_latest]
    split_ifs with hnil
    · rw [hnil]
      rfl
    · rfl
  have hdb : (s.telemetryDb.set data.key (s.eventsAfter data)).find data.key =
      if own ++ [data] = [] then none else some (latest 100 (own ++ [data])) := by
    rw [UnorderedMap.find_set_self, if_neg (by simp), hevents]
  cases h : forecast own data with
  | ok prediction =>
      rw [streamTelemetry_of_ok (hanswer.trans h)]
      refine ⟨hdb, fun a => ?_, hpredictor⟩
      rw [UnorderedMap.find_set_self, isLatestAnswer_append_ok h, Option.some.injEq, eq_comm]
  | error e =>
      rw [streamTelemetry_of_error (hanswer.trans h)]
      refine ⟨hdb, fun a => ?_, hpredictor⟩
      rw [isLatestAnswer_append_error h]
      exact H.analysisCache a

theorem run_holds (hkey : ∀ data ∈ own, data.key = key) : Holds key own (run fresh own) := by
  induction own using List.reverseRecOn with
  | nil => exact holds_fresh key
  | append_singleton own data ih =>
      obtain rfl := hkey data (by simp)
      unfold run at ih ⊢
      rw [List.foldl_append]
      exact (ih fun data' hdata => hkey data' (List.mem_append_left _ hdata)).step

/-- Under a key the service is as if only the samples under this key had come in. -/
theorem entries_run (samples : List (TelemetryData F)) (key : String) :
    (run fresh samples).entries key =
      (run fresh (samples.filter fun data => data.key = key)).entries key :=
  streamTelemetry_keyed.view_filter (fun _ _ hkey => decide_eq_true hkey)
    (rfl : (fresh : Service F).entries key = _)

theorem answer_run (samples : List (TelemetryData F)) (data : TelemetryData F) :
    (streamTelemetry (run fresh samples) data).1 =
      (forecast (samples.filter fun earlier => earlier.key = data.key) data).mapError
        fun _ => predictionFailure := by
  rw [streamTelemetry_keyed.answer (entries_run samples data.key)]
  exact (run_holds key_of_mem_filter).serves.nextAnswer data rfl

/-- Level and trend of a link. -/
theorem holtStates_run (samples : List (TelemetryData F)) (key : String) :
    (run fresh samples).predictor.holtStates.find key =
      TelemetryPredictor.fresh.smoothed (readings samples key) := by
  have hview := congrArg (fun entries => entries.predictor.holtStates) (entries_run samples key)
  have H : Holds key _ (run fresh (samples.filter fun data => data.key = key)) :=
    run_holds key_of_mem_filter
  exact hview.trans H.predictor.tracks.state_eq

/-- **The service as a function of what came in.** After any requests, and for any key, the
database, the cached analysis and the answer to the next sample are determined by the
samples under that key: the last hundred, the latest forecast that did not fail, and the
forecast from all of them. -/
theorem run_serves (F : Type*) [PyFloat F] (samples : List (TelemetryData F)) (key : String) :
    Serves key (samples.filter fun data => data.key = key) (run fresh samples) := by
  have H : Holds key _ (run fresh (samples.filter fun data => data.key = key)) :=
    run_holds key_of_mem_filter
  obtain ⟨hdb, hcache, -⟩ := Entries.mk.inj (entries_run samples key)
  refine ⟨hdb.trans H.telemetryDb, fun a => ?_, ?_⟩
  · rw [hcache]
    exact H.analysisCache a
  · rintro data rfl
    exact answer_run samples data

end Service

end Netsim.AiService
