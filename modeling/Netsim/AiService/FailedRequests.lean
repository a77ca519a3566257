import Netsim.AiService.ServiceRuns

/-!
# Requests whose prediction fails

A sample is stored before the prediction that may fail, and nothing takes it back. So a
request that is answered with status 500 leaves its sample in the database, its reading in
the window and in level and trend, and every later prediction of the link is made as if it
had succeeded (`failed_request_stores`).
-/

namespace Netsim.AiService

open Foundation

variable {α F : Type*}

theorem appendBounded_eq_latest {n : ℕ} {l : List α} (h : l.length ≤ n) (x : α) :
    appendBounded n l x = latest n (l ++ [x]) := by
  have hall : latest n l = l := by
    rw [latest, Nat.sub_eq_zero_of_le h, List.drop_zero]
  rw [← appendBounded_latest, hall]

/-- An element with fewer than `n` behind it is among the last `n`. -/
theorem mem_latest_append {n : ℕ} (l : List α) {l' : List α} (x : α) (h : l'.length < n) :
    x ∈ latest n (l ++ x :: l') := by
  have hle : (l ++ x :: l').length - n ≤ l.length := by
    rw [List.length_append, List.length_cons]
    omega
  rw [latest, List.drop_append_of_le_length hle]
  exact List.mem_append_right _ List.mem_cons_self

namespace Service

theorem readings_append (samples more : List (TelemetryData F)) (key : String) :
    readings (samples ++ more) key = readings samples key ++ readings more key := by
  unfold readings
  rw [List.filter_append, List.map_append]

theorem readings_cons_self (data : TelemetryData F) (more : List (TelemetryData F)) :
    readings (data :: more) data.key = data.latencyNs :: readings more data.key := by
  unfold readings
  rw [List.filter_cons_of_pos (by simp), List.map_cons]

variable [PyFloat F]

theorem run_append (s : Service F) (samples more : List (TelemetryData F)) :
    run s (samples ++ more) = run (run s samples) more := List.foldl_append

/-! ### The entries of a link -/

theorem remembers_run (samples : List (TelemetryData F)) (key : String) :
    (run fresh (samples.filter fun data => data.key = key)).predictor.Remembers key
      (readings samples key) := by
  have H : Holds key _ (run fresh (samples.filter fun data => data.key = key)) :=
    run_holds key_of_mem_filter
  exact H.predictor

theorem predictor_entries_run (samples : List (TelemetryData F)) (key : String) :
    (run fresh samples).predictor.entries key =
      (run fresh (samples.filter fun data => data.key = key)).predictor.entries key :=
  congrArg Entries.predictor (entries_run samples key)

/-- The window that the next sample is assessed in. -/
theorem windowAfter_run (samples : List (TelemetryData F)) (data : TelemetryData F) :
    (run fresh samples).predictor.windowAfter data =
      latest 10 (readings samples data.key ++ [data.latencyNs]) := by
  rw [TelemetryPredictor.windowAfter_congr (predictor_entries_run samples data.key)]
  exact (remembers_run samples data.key).windowAfter

/-- The database never holds more than a hundred samples of a link. -/
theorem length_telemetryDb_le (samples : List (TelemetryData F)) (key : String) :
    (((run fresh samples).telemetryDb.find key).getD []).length ≤ 100 := by
  have H := (run_serves F samples key).telemetryDb
  rw [H]
  split_ifs
  · exact Nat.zero_le _
  · exact length_latest_le 100 _

/-- A window never outgrows its size. -/
theorem length_latencyHistory_le (samples : List (TelemetryData F)) (key : String) :
    (((run fresh samples).predictor.latencyHistory.find key).getD []).length ≤
      (run fresh samples).predictor.windowSize := by
  obtain ⟨hhistory, -, hsize, -, -⟩ :=
    TelemetryPredictor.Entries.mk.inj (predictor_entries_run samples key)
  have R := remembers_run samples key
  rw [hhistory, hsize, R.history, R.tracks.windowSize_eq]
  exact length_latest_le 10 _

/-! ### A request whose prediction fails -/

/-- The link's entries in the three dictionaries are as before. -/
structure Untouched (s s' : Service F) (key : String) : Prop where
  telemetryDb : s'.telemetryDb.find key = s.telemetryDb.find key
  latencyHistory : s'.predictor.latencyHistory.find key = s.predictor.latencyHistory.find key
  holtStates : s'.predictor.holtStates.find key = s.predictor.holtStates.find key

/-- The request leaves no trace on its link, not in the entries and not in the success of
a later prediction. -/
structure NoTrace (s : Service F) (data : TelemetryData F) : Prop where
  untouched : Untouched s (streamTelemetry s data).2 data.key
  stillSucceeds (later : TelemetryData F) : later.link = data.link →
    (s.predictor.analyze later).1.isOk →
      ((streamTelemetry s data).2.predictor.analyze later).1.isOk

/-- Level and trend of a link before a reading: the stored ones or, the first time, those of
the first two readings in the window. -/
def StartsFrom (s s' : Service F) (key : String) (lPrev bPrev : F) : Prop :=
  s.predictor.holtStates.find key = some (lPrev, bPrev) ∨
    s.predictor.holtStates.find key = none ∧ ∃ first second rest,
      s'.predictor.latencyHistory.find key = some (first :: second :: rest) ∧
        lPrev = first ∧ bPrev = PyFloat.sub second first

/-- The sample is stored, and no answer is cached. -/
structure SampleStored (s s' : Service F) (data : TelemetryData F) : Prop where
  telemetryDb : s'.telemetryDb.find data.key =
    some (latest 100 ((s.telemetryDb.find data.key).getD [] ++ [data]))
  latencyHistory : s'.predictor.latencyHistory.find data.key =
    some (latest s.predictor.windowSize
      ((s.predictor.latencyHistory.find data.key).getD [] ++ [data.latencyNs]))
  /-- Holt's equations. -/
  holtStates : ∃ lPrev bPrev lT bT, StartsFrom s s' data.key lPrev bPrev ∧
    lT = PyFloat.add (PyFloat.mul s.predictor.alpha data.latencyNs)
      (PyFloat.mul (PyFloat.sub (PyFloat.literal 1) s.predictor.alpha)
        (PyFloat.add lPrev bPrev)) ∧
    bT = PyFloat.add (PyFloat.mul s.predictor.beta (PyFloat.sub lT lPrev))
      (PyFloat.mul (PyFloat.sub (PyFloat.literal 1) s.predictor.beta) bPrev) ∧
    s'.predictor.holtStates.find data.key = some (lT, bT)
  analysisCache : s'.analysisCache = s.analysisCache
  otherLinks (key : String) : key ≠ data.key → Untouched s s' key

/-- What the later predictions of the link are made from, once the requests `before` and
then `data` have come in. -/
structure CountsLater (before : List (TelemetryData F)) (data : TelemetryData F)
    (s' : Service F) : Prop where
  /-- The window of a later sample. -/
  window (more : List (TelemetryData F)) (next : TelemetryData F) : next.key = data.key →
    (run s' more).predictor.windowAfter next =
      latest 10 (readings (before ++ data :: more) data.key ++ [next.latencyNs])
  /-- For the next nine samples of the link the reading is in the window. -/
  stays (more : List (TelemetryData F)) (next : TelemetryData F) : next.key = data.key →
    (readings more data.key).length < 9 →
      data.latencyNs ∈ (run s' more).predictor.windowAfter next
  /-- Level and trend never forget it. -/
  levelTrend (more : List (TelemetryData F)) :
    (run s' more).predictor.holtStates.find data.key =
      TelemetryPredictor.fresh.smoothed (readings (before ++ data :: more) data.key)
  answers (more : List (TelemetryData F)) (next : TelemetryData F) : next.key = data.key →
    (streamTelemetry (run s' more) next).1 =
      (TelemetryPredictor.forecast (readings (before ++ data :: more) data.key) next).mapError
        fun _ => predictionFailure

theorem startsFrom_previousState {s s' : Service F} {key : String} {history : List F}
    (h : ¬history.length < 3)
    (hhistory : s'.predictor.latencyHistory.find key = some history) :
    StartsFrom s s' key (s.predictor.previousState key history h).1
      (s.predictor.previousState key history h).2 := by
  unfold TelemetryPredictor.previousState
  cases hstate : s.predictor.holtStates.find key with
  | some state => exact Or.inl hstate
  | none =>
      rcases history with _ | ⟨first, _ | ⟨second, rest⟩⟩
      · simp at h
      · simp at h
      · exact Or.inr ⟨hstate, first, second, rest, hhistory, rfl, rfl⟩

theorem sampleStored_of_error {s : Service F} {data : TelemetryData F} {e : PyException}
    (hdb : ((s.telemetryDb.find data.key).getD []).length ≤ 100)
    (hwindow : ((s.predictor.latencyHistory.find data.key).getD []).length ≤
      s.predictor.windowSize)
    (h : (s.predictor.analyze data).1 = .error e) :
    SampleStored s (streamTelemetry s data).2 data := by
  rw [streamTelemetry_of_error h]
  by_cases hlt : (s.predictor.windowAfter data).length < 3
  · rw [TelemetryPredictor.analyze_of_lt s.predictor hlt] at h
    cases h
  · rw [TelemetryPredictor.analyze_of_not_lt s.predictor hlt]
    have hhistory : s.predictor.windowAfter data = latest s.predictor.windowSize
        ((s.predictor.latencyHistory.find data.key).getD [] ++ [data.latencyNs]) :=
      appendBounded_eq_latest hwindow _
    refine ⟨?_, ?_, ?_, rfl, fun key hkey => ?_⟩
    · rw [UnorderedMap.find_set_self, eventsAfter, appendBounded_eq_latest hdb]
    · rw [UnorderedMap.find_set_self, hhistory]
    · exact ⟨_, _, _, _, startsFrom_previousState hlt (UnorderedMap.find_set_self ..), rfl, rfl,
        UnorderedMap.find_set_self ..⟩
    · exact ⟨UnorderedMap.find_set_ne _ hkey _, UnorderedMap.find_set_ne _ hkey _,
        UnorderedMap.find_set_ne _ hkey _⟩

theorem countsLater (before : List (TelemetryData F)) (data : TelemetryData F) :
    CountsLater before data (streamTelemetry (run fresh before) data).2 := by
  have hrun (more : List (TelemetryData F)) :
      run (streamTelemetry (run fresh before) data).2 more =
        run fresh (before ++ data :: more) := by
    rw [List.append_cons, run_append, run_append]
    rfl
  have hwindow (more : List (TelemetryData F)) (next : TelemetryData F)
      (hkey : next.key = data.key) :
      (run (streamTelemetry (run fresh before) data).2 more).predictor.windowAfter next =
        latest 10 (readings (before ++ data :: more) data.key ++ [next.latencyNs]) := by
    rw [hrun, windowAfter_run, hkey]
  refine ⟨hwindow, fun more next hkey hfew => ?_, fun more => ?_, fun more next hkey => ?_⟩
  · rw [hwindow more next hkey, readings_append, readings_cons_self, List.append_assoc,
      List.cons_append]
    apply mem_latest_append
    rw [List.length_append, List.length_singleton]
    exact Nat.succ_lt_succ hfew
  · rw [hrun, holtStates_run]
  · rw [hrun, answer_run, hkey]
    rfl

/-- **A failed prediction leaves its sample.** After any requests, a request whose prediction
raises is answered with status 500. Its sample stays in the database, in the window and in
level and trend, and counts in every later prediction of the link; the cached answers and
the entries of the other links are as before. -/
theorem failed_request_stores (before : List (TelemetryData F)) (data : TelemetryData F)
    (e : PyException) (h : ((run fresh before).predictor.analyze data).1 = .error e) :
    (streamTelemetry (run fresh before) data).1 = .error predictionFailure ∧
      SampleStored (run fresh before) (streamTelemetry (run fresh before) data).2 data ∧
      CountsLater before data (streamTelemetry (run fresh before) data).2 := by
  refine ⟨by rw [streamTelemetry_of_error h], ?_, countsLater before data⟩
  exact sampleStored_of_error (length_telemetryDb_le before data.key)
    (length_latencyHistory_le before data.key) h

theorem failed_request_stores_overflow :
    letI := CPython.nearest
    (streamTelemetry (run fresh quiet) (sampleOf (2 ^ 600))).1 = .error predictionFailure ∧
      SampleStored (run fresh quiet) (streamTelemetry (run fresh quiet) (sampleOf (2 ^ 600))).2
        (sampleOf (2 ^ 600)) ∧
      CountsLater quiet (sampleOf (2 ^ 600))
        (streamTelemetry (run fresh quiet) (sampleOf (2 ^ 600))).2 :=
  let := CPython.nearest
  failed_request_stores quiet (sampleOf (2 ^ 600)) .overflowError (by decide +kernel)

/-- The square of the deviation overflows, and again for the next quiet sample. -/
theorem not_noTrace :
    letI := CPython.nearest
    ¬∀ (before : List (TelemetryData Binary64)) (data : TelemetryData Binary64) (e : PyException),
      ((run fresh before).predictor.analyze data).1 = .error e →
        NoTrace (run fresh before) data := by
  let := CPython.nearest
  intro h
  have hnone := h quiet (sampleOf (2 ^ 600)) .overflowError (by decide +kernel)
  have hlink : (sampleOf 0).link = (sampleOf (2 ^ 600)).link := by
    rw [link_sampleOf, link_sampleOf]
  exact absurd (hnone.stillSucceeds (sampleOf 0) hlink (by decide +kernel)) (by decide +kernel)

end Service

end Netsim.AiService
