import Mathlib.Data.Set.Function
import Netsim.AiService.Service
import Netsim.Foundation.KeyedMachine

/-!
# Links that share a key

The dictionaries of the service are keyed by one string per link, `source->dest`. A
request reads and writes the entries under its own key only (`streamTelemetry_keyed`), so
links with different keys never notice each other. But names may contain the arrow, and
then two links can have one key: the samples of both go into one window and move one
Holt state. Links whose source names have no arrow are safe (`isolated_of_noArrow`).
-/

namespace Netsim.AiService

open Foundation

variable {F : Type*}

/-! ### The predictor is keyed -/

namespace TelemetryPredictor

/-- What the predictor keeps under a key, and its parameters. -/
structure Entries (F : Type*) where
  latencyHistory : Option (List F)
  holtStates : Option (F × F)
  windowSize : ℕ
  alpha : F
  beta : F

def entries (p : TelemetryPredictor F) (key : String) : Entries F where
  latencyHistory := p.latencyHistory.find key
  holtStates := p.holtStates.find key
  windowSize := p.windowSize
  alpha := p.alpha
  beta := p.beta

theorem windowAfter_congr {p p' : TelemetryPredictor F} {data : TelemetryData F}
    (h : p.entries data.key = p'.entries data.key) : p.windowAfter data = p'.windowAfter data := by
  obtain ⟨hhistory, -, hsize, -, -⟩ := Entries.mk.inj h
  rw [windowAfter, windowAfter, hsize]
  exact congrArg (fun history => appendBounded _ (history.getD []) _) hhistory

variable [PyFloat F]

theorem stateAfter_congr {p p' : TelemetryPredictor F} {data : TelemetryData F}
    (h : p.entries data.key = p'.entries data.key) (hlt : ¬(p.windowAfter data).length < 3)
    (hlt' : ¬(p'.windowAfter data).length < 3) :
    p.stateAfter data hlt = p'.stateAfter data hlt' := by
  obtain ⟨-, hholt, -, halpha, hbeta⟩ := Entries.mk.inj h
  have hprevious (history : List F) (hlen : ¬history.length < 3) :
      p.previousState data.key history hlen = p'.previousState data.key history hlen := by
    rw [previousState, previousState, hholt]
  simp only [stateAfter, holtStep, halpha, hbeta, windowAfter_congr h, hprevious]

theorem analyze_keyed :
    Keyed (analyze : TelemetryPredictor F → _) TelemetryData.key entries where
  frame p data key hkey := by
    by_cases hlt : (p.windowAfter data).length < 3
    · simp only [analyze_of_lt p hlt, entries, UnorderedMap.find_set_ne _ hkey]
    · simp only [analyze_of_not_lt p hlt, entries, UnorderedMap.find_set_ne _ hkey]
  answer {p p' data} h := by
    have hwindow := windowAfter_congr h
    by_cases hlt : (p.windowAfter data).length < 3
    · have hlt' : (p'.windowAfter data).length < 3 := by rwa [← hwindow]
      rw [analyze_of_lt p hlt, analyze_of_lt p' hlt']
    · have hlt' : ¬(p'.windowAfter data).length < 3 := by rwa [← hwindow]
      rw [analyze_of_not_lt p hlt, analyze_of_not_lt p' hlt']
      dsimp only
      rw [stateAfter_congr h hlt hlt', hwindow]
  update {p p' data} h := by
    have hwindow := windowAfter_congr h
    obtain ⟨-, hholt, hsize, halpha, hbeta⟩ := Entries.mk.inj h
    by_cases hlt : (p.windowAfter data).length < 3
    · have hlt' : (p'.windowAfter data).length < 3 := by rwa [← hwindow]
      rw [analyze_of_lt p hlt, analyze_of_lt p' hlt']
      simp only [entries, UnorderedMap.find_set_self, hholt, hsize, halpha, hbeta, hwindow]
    · have hlt' : ¬(p'.windowAfter data).length < 3 := by rwa [← hwindow]
      rw [analyze_of_not_lt p hlt, analyze_of_not_lt p' hlt']
      simp only [entries, UnorderedMap.find_set_self, hsize, halpha, hbeta, hwindow,
        stateAfter_congr h hlt hlt']

end TelemetryPredictor

/-! ### The service is keyed -/

namespace Service

/-- What the service keeps under a key. -/
structure Entries (F : Type*) where
  telemetryDb : Option (List (TelemetryData F))
  analysisCache : Option (AnomalyPrediction F)
  predictor : TelemetryPredictor.Entries F

def entries (s : Service F) (key : String) : Entries F where
  telemetryDb := s.telemetryDb.find key
  analysisCache := s.analysisCache.find key
  predictor := s.predictor.entries key

variable [PyFloat F]

theorem streamTelemetry_keyed :
    Keyed (streamTelemetry : Service F → _) TelemetryData.key entries where
  frame s data key hkey := by
    cases h : (s.predictor.analyze data).1 with
    | ok prediction =>
        simp only [streamTelemetry_of_ok h, entries, UnorderedMap.find_set_ne _ hkey,
          TelemetryPredictor.analyze_keyed.frame _ _ hkey]
    | error e =>
        simp only [streamTelemetry_of_error h, entries, UnorderedMap.find_set_ne _ hkey,
          TelemetryPredictor.analyze_keyed.frame _ _ hkey]
  answer {s s' data} hentries := by
    obtain ⟨-, -, hpredictor⟩ := Entries.mk.inj hentries
    have hanswer := TelemetryPredictor.analyze_keyed.answer hpredictor
    cases h : (s.predictor.analyze data).1 with
    | ok prediction => rw [streamTelemetry_of_ok h, streamTelemetry_of_ok (hanswer.symm.trans h)]
    | error e => rw [streamTelemetry_of_error h, streamTelemetry_of_error (hanswer.symm.trans h)]
  update {s s' data} hentries := by
    obtain ⟨hdb, hcache, hpredictor⟩ := Entries.mk.inj hentries
    have hanswer := TelemetryPredictor.analyze_keyed.answer hpredictor
    have hupdate := TelemetryPredictor.analyze_keyed.update hpredictor
    have hevents : s.eventsAfter data = s'.eventsAfter data := by
      rw [eventsAfter, eventsAfter, hdb]
    cases h : (s.predictor.analyze data).1 with
    | ok prediction =>
        rw [streamTelemetry_of_ok h, streamTelemetry_of_ok (hanswer.symm.trans h)]
        simp only [entries, UnorderedMap.find_set_self, hevents, hupdate]
    | error e =>
        rw [streamTelemetry_of_error h, streamTelemetry_of_error (hanswer.symm.trans h)]
        simp only [entries, UnorderedMap.find_set_self, hevents, hupdate, hcache]

/-! ### Isolation of the links of a set -/

/-- The samples of one link, in their order. -/
def samplesOf (link : String × String) (samples : List (TelemetryData F)) :
    List (TelemetryData F) :=
  samples.filter (fun data => decide (data.link = link))

/-- Every answer, and what is cached for each link of `L` at the end, are those of a
service that has received only the samples of the link. -/
structure NoInterference (L : Set (String × String)) (samples : List (TelemetryData F)) : Prop where
  answers (before : List (TelemetryData F)) (data : TelemetryData F)
    (after : List (TelemetryData F)) : samples = before ++ data :: after →
      (streamTelemetry (run fresh before) data).1 =
        (streamTelemetry (run fresh (samplesOf data.link before)) data).1
  cached (link : String × String) : link ∈ L →
    (run fresh samples).analysisCache.find (nodePair link) =
      (run fresh (samplesOf link samples)).analysisCache.find (nodePair link)

/-- No run over the links of `L` lets them interfere. -/
def Isolated (F : Type*) [PyFloat F] (L : Set (String × String)) : Prop :=
  ∀ samples : List (TelemetryData F), (∀ data ∈ samples, data.link ∈ L) → NoInterference L samples

theorem noInterference_of_injOn {L : Set (String × String)} (hinj : Set.InjOn nodePair L)
    {samples : List (TelemetryData F)} (hsamples : ∀ data ∈ samples, data.link ∈ L) :
    NoInterference L samples := by
  have hkeep {link : String × String} (hlink : link ∈ L) {l : List (TelemetryData F)}
      (hl : ∀ data ∈ l, data.link ∈ L) :
      ∀ data ∈ l, data.key = nodePair link → decide (data.link = link) = true := by
    intro data hdata hkey
    exact decide_eq_true (hinj (hl data hdata) hlink hkey)
  refine ⟨?_, ?_⟩
  · rintro before data after rfl
    have hbefore : ∀ data ∈ before, data.link ∈ L :=
      fun data hdata => hsamples data (List.mem_append_left _ hdata)
    exact streamTelemetry_keyed.answer_filter fresh
      (hkeep (hsamples data (by simp)) hbefore)
  · intro link hlink
    have hview :=
      streamTelemetry_keyed.view_filter (hkeep hlink hsamples) (rfl : fresh.entries _ = _)
    exact congrArg Entries.analysisCache hview

/-! ### Keys that coincide -/

theorem answer_of_lt {s : Service F} {data : TelemetryData F}
    (h : (s.predictor.windowAfter data).length < 3) :
    (streamTelemetry s data).1 = .ok TelemetryPredictor.baseline := by
  have hanswer : (s.predictor.analyze data).1 = .ok TelemetryPredictor.baseline := by
    rw [TelemetryPredictor.analyze_of_lt s.predictor h]
  rw [streamTelemetry_of_ok hanswer]

theorem answer_of_not_lt {s : Service F} {data : TelemetryData F}
    (h : ¬(s.predictor.windowAfter data).length < 3) :
    (streamTelemetry s data).1 ≠ .ok TelemetryPredictor.baseline := by
  have hanswer : (s.predictor.analyze data).1 ≠ .ok TelemetryPredictor.baseline := by
    rw [TelemetryPredictor.analyze_of_not_lt s.predictor h]
    dsimp only
    exact TelemetryPredictor.assess_ne_baseline data _ _ _
  cases ha : (s.predictor.analyze data).1 with
  | ok prediction =>
      rw [streamTelemetry_of_ok ha]
      exact fun heq => hanswer (ha.trans (congrArg Except.ok (Except.ok.inj heq)))
  | error e =>
      rw [streamTelemetry_of_error ha]
      exact fun heq => absurd heq (by simp)

/-- The first sample finds an empty window, and the third under one key a full enough one. -/
theorem length_first (data : TelemetryData F) :
    (fresh.predictor.windowAfter data).length = 1 := by
  simp [TelemetryPredictor.windowAfter, fresh, TelemetryPredictor.fresh, appendBounded]

theorem length_third {first second third : TelemetryData F}
    (hfirst : first.key = third.key) (hsecond : second.key = third.key) :
    ((run fresh [first, second]).predictor.windowAfter third).length = 3 := by
  simp [run, predictor_streamTelemetry, TelemetryPredictor.windowAfter,
    TelemetryPredictor.latencyHistory_analyze, TelemetryPredictor.windowSize_analyze,
    hfirst, hsecond, fresh, TelemetryPredictor.fresh, appendBounded]

/-- A sample of a link without traffic. -/
def idleSample (link : String × String) : TelemetryData F where
  timestampUs := 0
  sourceNode := link.1
  destNode := link.2
  packetSize := 0
  latencyNs := PyFloat.literal 0
  droppedPackets := 0
  throughputKbps := PyFloat.literal 0

/-- **Isolation of links.** The links of a set never interfere exactly when the service
gives them different keys. -/
theorem isolated_iff_injOn (F : Type*) [PyFloat F] (L : Set (String × String)) :
    Isolated F L ↔ Set.InjOn nodePair L := by
  refine ⟨?_, fun hinj samples => noInterference_of_injOn hinj⟩
  intro hisolated link hlink link' hlink' hkey
  by_contra hne
  have hrun := hisolated [idleSample link, idleSample link, idleSample link'] (by
    intro data hdata
    simp only [List.mem_cons, List.not_mem_nil, or_false] at hdata
    rcases hdata with rfl | rfl | rfl
    · exact hlink
    · exact hlink
    · exact hlink')
  have hanswer := hrun.answers [idleSample link, idleSample link] (idleSample link') [] rfl
  -- the other link has no earlier sample of its own
  have hnone : samplesOf link' [idleSample (F := F) link, idleSample link] = [] := by
    simp [samplesOf, idleSample, TelemetryData.link, hne]
  have hfresh : (streamTelemetry (run fresh (samplesOf link' [idleSample (F := F) link,
      idleSample link])) (idleSample link')).1 = .ok TelemetryPredictor.baseline := by
    rw [hnone]
    exact answer_of_lt (by rw [run, List.foldl_nil, length_first]; decide)
  have hthird : ((run fresh [idleSample (F := F) link, idleSample link]).predictor.windowAfter
      (idleSample link')).length = 3 := length_third hkey hkey
  exact answer_of_not_lt (by rw [hthird]; decide) (hanswer.trans hfresh)

/-- Two links of `a->b->c`: after two samples of the one, the first of the other is
assessed. -/
theorem not_isolated :
    letI := CPython.nearest
    ¬Isolated Binary64 Set.univ := by
  let := CPython.nearest
  intro h
  have hrun := h [idleSample ("a->b", "c"), idleSample ("a->b", "c"), idleSample ("a", "b->c")]
    (fun _ _ => Set.mem_univ _)
  have hanswer := hrun.answers [idleSample ("a->b", "c"), idleSample ("a->b", "c")]
    (idleSample ("a", "b->c")) [] rfl
  exact absurd hanswer (by decide +kernel)

/-! ### Names without an arrow -/

def arrow : List Char := ['-', '>']

theorem toList_nodePair (link : String × String) :
    (nodePair link).toList = link.1.toList ++ arrow ++ link.2.toList := by
  rw [nodePair, String.toList_append, String.toList_append]
  rfl

/-- Two texts split at the same arrow, when neither has one before it. -/
theorem eq_of_append_arrow {a b c d : List Char} (ha : ¬arrow <:+: a) (hc : ¬arrow <:+: c)
    (h : a ++ arrow ++ b = c ++ arrow ++ d) : a = c ∧ b = d := by
  -- one front is the other with a rest, which the arrow would have to start in
  have hrest {front rest back back' : List Char} (hfront : ¬arrow <:+: front ++ rest)
      (heq : arrow ++ back = rest ++ (arrow ++ back')) : rest = [] := by
    rcases rest with _ | ⟨x, _ | ⟨y, rest⟩⟩
    · rfl
    · simp [arrow] at heq
    · simp only [arrow, List.cons_append, List.nil_append, List.cons.injEq] at heq
      obtain ⟨rfl, rfl, -⟩ := heq
      exact absurd ⟨front, rest, by simp [arrow]⟩ hfront
  rw [List.append_assoc, List.append_assoc] at h
  rcases List.append_eq_append_iff.mp h with ⟨rest, rfl, heq⟩ | ⟨rest, rfl, heq⟩
  · obtain rfl := hrest hc heq
    simpa using heq
  · obtain rfl := hrest ha heq
    simpa using heq.symm

/-- Links whose source names have no arrow have different keys. -/
theorem nodePair_injOn : Set.InjOn nodePair {link | ¬arrow <:+: link.1.toList} := by
  rintro ⟨source, dest⟩ hsource ⟨source', dest'⟩ hsource' hkey
  have hlist := congrArg String.toList hkey
  rw [toList_nodePair, toList_nodePair] at hlist
  obtain ⟨h, h'⟩ := eq_of_append_arrow hsource hsource' hlist
  exact Prod.ext (String.toList_inj.mp h) (String.toList_inj.mp h')

theorem isolated_of_noArrow : Isolated F {link | ¬arrow <:+: link.1.toList} :=
  fun _ => noInterference_of_injOn nodePair_injOn

end Service

end Netsim.AiService
