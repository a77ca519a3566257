import Mathlib.Algebra.Order.Ring.Int
import Mathlib.Data.Nat.Cast.Order.Ring
import Netsim.Foundation.LeakyBucket
import Netsim.Network.GcraRateLimiter

/-!
# Sequential calls of the rate limiter

A call that no other call interferes with: it samples the clock, loads the word, and
exchanges it, perhaps after some spurious failures. On words that do not wrap a
sequence of such calls is virtual scheduling, and so the leaky bucket.
-/

namespace Netsim.Network

namespace GcraRateLimiter

open Foundation

/-- An undisturbed `allow()` at time `t`. -/
def serve (limiter : GcraRateLimiter) (t : UInt64) : Bool × GcraRateLimiter :=
  if limiter.tatNs > t ∧ limiter.tatNs - t > limiter.toleranceNs then (false, limiter)
  else (true, { limiter with tatNs :=
    (if t < limiter.tatNs then limiter.tatNs else t) + limiter.emissionIntervalNs })

/-- A call of `allow` by thread `thread`, with the number of its spurious failures. -/
structure Call (ι : Type*) where
  thread : ι
  time : UInt64
  spuriousFailures : ℕ

variable {ι : Type*}

/-- The steps of a call that runs alone. -/
def Call.actions (call : Call ι) : List (Action ι) :=
  .sample call.thread call.time :: .load call.thread ::
    (List.replicate call.spuriousFailures (.exchange call.thread true) ++
      [.exchange call.thread false])

variable {limiter : GcraRateLimiter} {t : UInt64} {s : State ι}

/-- What was loaded is still there: only a spurious failure makes the loop repeat. -/
theorem attempt_loaded (limiter : GcraRateLimiter) (t : UInt64) :
    attempt t limiter.tatNs false limiter =
      (.returned (serve limiter t).1, (serve limiter t).2) := by
  unfold attempt serve
  by_cases hlate : limiter.tatNs > t ∧ limiter.tatNs - t > limiter.toleranceNs
  · rw [if_pos hlate, if_pos hlate]
  · rw [if_neg hlate, if_neg hlate, if_pos ⟨rfl, rfl⟩]

theorem attempt_loaded_spurious (limiter : GcraRateLimiter) (t : UInt64) :
    attempt t limiter.tatNs true limiter = (.retry limiter.tatNs, limiter) ∨
      attempt t limiter.tatNs true limiter =
        (.returned (serve limiter t).1, (serve limiter t).2) := by
  unfold attempt serve
  by_cases hlate : limiter.tatNs > t ∧ limiter.tatNs - t > limiter.toleranceNs
  · rw [if_pos hlate, if_pos hlate]
    exact Or.inr rfl
  · rw [if_neg hlate, if_neg (by simp)]
    exact Or.inl rfl

/-- The state after an undisturbed call at time `t`. -/
def State.after (s : State ι) (t : UInt64) : State ι :=
  { s with limiter := (serve s.limiter t).2,
           returned := s.returned ++ [(t, (serve s.limiter t).1)] }

variable [DecidableEq ι]

/-- A thread that is idle does not exchange. -/
theorem foldl_exchange_idle {i : ι} (hidle : s.allow i = .idle) (flags : List Bool) :
    (flags.map (Action.exchange i)).foldl step s = s := by
  induction flags with
  | nil => rfl
  | cons flag flags ih =>
      have hstep : step s (.exchange i flag) = s := by simp only [step, hidle]
      rw [List.map_cons, List.foldl_cons, hstep, ih]

/-- The loop of a call that loaded the present word. -/
theorem foldl_exchange {i : ι} (hidle : s.allow i = .idle) (t : UInt64) (k : ℕ) :
    (List.replicate k (Action.exchange i true) ++ [Action.exchange i false]).foldl step
        { s with allow := Function.update s.allow i (.loaded t s.limiter.tatNs) } =
      s.after t := by
  have hreset : Function.update (Function.update s.allow i (.loaded t s.limiter.tatNs)) i .idle =
      s.allow := by
    rw [Function.update_idem, ← hidle, Function.update_eq_self]
  have hloaded : Function.update s.allow i (.loaded t s.limiter.tatNs) i =
      .loaded t s.limiter.tatNs := Function.update_self ..
  induction k with
  | zero =>
      simp only [List.replicate_zero, List.nil_append, List.foldl_cons, List.foldl_nil, step,
        hloaded, attempt_loaded, hreset]
      rfl
  | succ k ih =>
      rw [List.replicate_succ, List.cons_append, List.foldl_cons]
      rcases attempt_loaded_spurious s.limiter t with hretry | hreturned
      · simp only [step, hloaded, hretry, Function.update_idem]
        exact ih
      · -- the call was refused at its first attempt
        have hrest : List.replicate k (Action.exchange i true) ++ [Action.exchange i false] =
            (List.replicate k true ++ [false]).map (Action.exchange i) := by simp
        simp only [step, hloaded, hreturned, hreset]
        rw [hrest]
        exact foldl_exchange_idle (s := s.after t) hidle _

/-- **One call** that runs alone is served. -/
theorem foldl_call (call : Call ι) (hidle : s.allow call.thread = .idle) :
    call.actions.foldl step s = s.after call.time := by
  unfold Call.actions
  rw [List.foldl_cons, List.foldl_cons]
  simp only [step, hidle, Function.update_self, Function.update_idem]
  exact foldl_exchange hidle call.time call.spuriousFailures

/-- The returned calls of a sequential run. -/
theorem foldl_calls : ∀ (calls : List (Call ι)) (s : State ι), (∀ i, s.allow i = .idle) →
    ((calls.flatMap Call.actions).foldl step s).returned =
      s.returned ++ (calls.map Call.time).zip
        (decisions serve s.limiter (calls.map Call.time)) := by
  intro calls
  induction calls with
  | nil => exact fun s _ => by simp [decisions]
  | cons call calls ih =>
      intro s hidle
      rw [List.flatMap_cons, List.foldl_append, foldl_call call (hidle _),
        ih (s.after call.time) hidle]
      simp [State.after, decisions]

/-- On words that do not wrap a call is virtual scheduling. -/
theorem serve_schedule (ht : InRange limiter t) :
    (serve limiter t).1 = (schedule (limiter.emissionIntervalNs.toNat : ℤ)
        limiter.toleranceNs.toNat limiter.tatNs.toNat t.toNat).1 ∧
      ((serve limiter t).2.tatNs.toNat : ℤ) =
        (schedule (limiter.emissionIntervalNs.toNat : ℤ)
          limiter.toleranceNs.toNat limiter.tatNs.toNat t.toNat).2 := by
  have hlate : (limiter.tatNs > t ∧ limiter.tatNs - t > limiter.toleranceNs) ↔
      (limiter.toleranceNs.toNat : ℤ) < limiter.tatNs.toNat - t.toNat := by
    constructor
    · rintro ⟨hlt, hdiff⟩
      have hle := UInt64.lt_iff_toNat_lt.mp hdiff
      rw [UInt64.toNat_sub_of_le _ _ (UInt64.le_of_lt hlt)] at hle
      omega
    · intro h
      have hlt : t < limiter.tatNs := UInt64.lt_iff_toNat_lt.mpr (by omega)
      refine ⟨hlt, UInt64.lt_iff_toNat_lt.mpr ?_⟩
      rw [UInt64.toNat_sub_of_le _ _ (UInt64.le_of_lt hlt)]
      omega
  unfold serve schedule
  by_cases h : limiter.tatNs > t ∧ limiter.tatNs - t > limiter.toleranceNs
  · rw [if_pos h, if_pos (hlate.mp h)]
    exact ⟨rfl, rfl⟩
  · rw [if_neg h, if_neg (mt hlate.mpr h)]
    refine ⟨rfl, ?_⟩
    have hwithin := mt hlate.mpr h
    dsimp only
    unfold InRange at ht
    rw [UInt64.toNat_add, toNat_later, Nat.mod_eq_of_lt (by omega)]
    rw [Nat.cast_add, Nat.cast_max]

/-- The word and virtual scheduling agree over a sequence of calls. -/
theorem decisions_serve {ts : List UInt64} (hts : ∀ t ∈ ts, InRange limiter t) :
    decisions serve limiter ts = decisions
      (schedule (limiter.emissionIntervalNs.toNat : ℤ) limiter.toleranceNs.toNat)
      limiter.tatNs.toNat (ts.map fun t => (t.toNat : ℤ)) := by
  induction ts generalizing limiter with
  | nil => rfl
  | cons t ts ih =>
      obtain ⟨hanswer, hnext⟩ := serve_schedule (hts t List.mem_cons_self)
      have hintervals : (serve limiter t).2.emissionIntervalNs = limiter.emissionIntervalNs ∧
          (serve limiter t).2.toleranceNs = limiter.toleranceNs := by
        unfold serve
        split_ifs <;> exact ⟨rfl, rfl⟩
      have hrest : ∀ u ∈ ts, InRange (serve limiter t).2 u := by
        intro u hu
        unfold InRange
        rw [hintervals.1, hintervals.2]
        exact hts u (List.mem_cons_of_mem _ hu)
      have htail := ih hrest
      rw [hintervals.1, hintervals.2, hnext] at htail
      rw [List.map_cons, decisions, decisions, hanswer, htail]

/-- **The limiter is a leaky bucket.** From a new limiter and a bucket that was empty at
some instant no later than the first call, sequential calls at times that do not
decrease, and in range, are answered alike. -/
theorem run_calls_leakyBucket (limiter : GcraRateLimiter) (calls : List (Call ι))
    (start : ℤ) (hnew : limiter.tatNs = 0)
    (hordered : (start :: calls.map fun call => (call.time.toNat : ℤ)).Pairwise (· ≤ ·))
    (hrange : ∀ call ∈ calls, InRange limiter call.time) :
    (run limiter (calls.flatMap Call.actions)).returned =
      (calls.map Call.time).zip (decisions
        (LeakyBucket.arrive (limiter.emissionIntervalNs.toNat : ℤ) limiter.toleranceNs.toNat)
        ⟨0, start⟩ (calls.map fun call => (call.time.toNat : ℤ))) := by
  have hranges : ∀ t ∈ calls.map Call.time, InRange limiter t := by
    intro t ht
    obtain ⟨call, hcall, rfl⟩ := List.mem_map.mp ht
    exact hrange call hcall
  unfold run
  rw [foldl_calls calls (initial limiter) fun _ => rfl]
  dsimp only [initial]
  rw [decisions_serve hranges, List.map_map, List.nil_append, hnew]
  -- the word and the bucket are both empty from there on
  have hempty : LeakyBucket.Agrees (max start 0) (0 : ℤ) ⟨0, start⟩ := by
    unfold LeakyBucket.Agrees
    simp
  refine congrArg _ (LeakyBucket.decisions_schedule_eq (Int.natCast_nonneg _) hempty ?_)
  rw [List.pairwise_cons] at hordered ⊢
  refine ⟨fun t ht => max_le (hordered.1 t ht) ?_, hordered.2⟩
  obtain ⟨call, -, rfl⟩ := List.mem_map.mp ht
  exact Int.natCast_nonneg _

/-- Five packets per burst and one per tenth of a second, as in the pipeline test. -/
def pipelineLimiter : GcraRateLimiter := ⟨100000000, 400000000, 0⟩

/-- The burst, one packet too many, and one after an idle gap. -/
def pipelineCalls : List (Call ℕ) :=
  [⟨0, 7, 0⟩, ⟨1, 7, 2⟩, ⟨0, 7, 0⟩, ⟨1, 8, 0⟩, ⟨1, 9, 1⟩, ⟨0, 9, 1⟩, ⟨1, 200000000, 0⟩]

theorem run_calls_leakyBucket_pipeline :
    (run pipelineLimiter (pipelineCalls.flatMap Call.actions)).returned =
      (pipelineCalls.map Call.time).zip (decisions
        (LeakyBucket.arrive (pipelineLimiter.emissionIntervalNs.toNat : ℤ)
          pipelineLimiter.toleranceNs.toNat)
        ⟨0, 0⟩ (pipelineCalls.map fun call => (call.time.toNat : ℤ))) :=
  run_calls_leakyBucket pipelineLimiter pipelineCalls 0 rfl (by decide +kernel) (by
    unfold InRange
    decide +kernel)

end GcraRateLimiter

end Netsim.Network
