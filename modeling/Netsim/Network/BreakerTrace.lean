import Mathlib.Algebra.Group.Nat.Defs
import Mathlib.Data.List.Basic
import Netsim.Network.CircuitBreaker

/-!
# The trace specification of the circuit breaker

A run is a list of calls, each with the readings of the steady clock that it
makes: `get_state` reads it once for the comparison, and every transition reads it
again. What the run did is a list of events, latest first, that holds the state
before a call, the state its `get_state` left and the state after it. The periods,
the streaks and the time at which Open was entered are defined on that list alone,
and the counters of the breaker are shown to follow them.
-/

namespace Netsim.Network

namespace CircuitBreaker

inductive Call where
  | success
  | failure
  | query
deriving DecidableEq, Repr

/-- What a call does once its `get_state` has returned, and what it returns. -/
def record (now : ℤ) (b : CircuitBreaker) : Call → Option Bool × CircuitBreaker
  | .success => (some (b.countSuccess now).1, (b.countSuccess now).2)
  | .failure => (some (b.countFailure now).1, (b.countFailure now).2)
  | .query => (none, b)

/-- No call changes the configuration. -/
theorem record_config (now : ℤ) (b : CircuitBreaker) (c : Call) :
    (b.record now c).2.failureThreshold = b.failureThreshold ∧
      (b.record now c).2.recoveryTimeoutMs = b.recoveryTimeoutMs := by
  unfold record countSuccess countFailure
  cases c with
  | query => exact ⟨rfl, rfl⟩
  | _ =>
      dsimp only
      split
      · split_ifs <;> exact ⟨rfl, rfl⟩
      · exact ⟨rfl, rfl⟩
      · exact ⟨rfl, rfl⟩

/-! ### Events -/

/-- One call as an observer sees it. -/
structure Event where
  call : Call
  readings : Readings
  before : CircuitState
  mid : CircuitState
  returned : Option Bool
  after : CircuitState
deriving DecidableEq, Repr

namespace Event

def Opens (e : Event) : Prop := e.mid ≠ .Open ∧ e.after = .Open

def Closes (e : Event) : Prop := e.mid ≠ .Closed ∧ e.after = .Closed

end Event

/-- The calls, latest first, that were recorded in `state` since it was last entered. -/
def period (state : CircuitState) : List Event → List Call
  | [] => []
  | e :: earlier =>
      if e.mid = state ∧ e.after = state then
        e.call :: if e.before = state then period state earlier else []
      else []

/-- The calls recorded before `e` in the period that `e` is recorded in. -/
def Event.since (e : Event) (earlier : List Event) : List Call :=
  if e.before = e.mid then period e.mid earlier else []

/-- How many failures the recorded calls end with; a query records nothing. -/
def streak (calls : List Call) : ℕ :=
  ((calls.filter (· ≠ .query)).takeWhile (· = .failure)).length

/-- When Open was last entered. -/
def openedAt : List Event → Option ℤ
  | [] => none
  | e :: earlier =>
      if e.mid ≠ .Open ∧ e.after = .Open then some e.readings.changed else openedAt earlier

/-- The state that the latest event left; a breaker is built Closed. -/
def stateAfter (events : List Event) : CircuitState := (events.head?.map Event.after).getD .Closed

@[simp] theorem streak_failure (calls : List Call) :
    streak (.failure :: calls) = streak calls + 1 := by
  simp [streak]

@[simp] theorem streak_success (calls : List Call) : streak (.success :: calls) = 0 := by
  simp [streak]

@[simp] theorem streak_query (calls : List Call) : streak (.query :: calls) = streak calls := by
  simp [streak]

/-! ### Runs -/

structure Traced where
  breaker : CircuitBreaker
  events : List Event

/-- A whole call: `get_state`, then what the call records. -/
def receive (c : Call × Readings) (b : CircuitBreaker) : Option Bool × CircuitBreaker :=
  (b.getStateAt c.2).record c.2.changed c.1

def eventOf (c : Call × Readings) (b : CircuitBreaker) : Event :=
  ⟨c.1, c.2, b.state, (b.getStateAt c.2).state, (b.receive c).1, (b.receive c).2.state⟩

def step (s : Traced) (c : Call × Readings) : Traced :=
  ⟨(s.breaker.receive c).2, s.breaker.eventOf c :: s.events⟩

def run (threshold : UInt32) (timeout : UInt64) (created : ℤ) (calls : List (Call × Readings)) :
    Traced :=
  calls.foldl step ⟨make threshold timeout created, []⟩

theorem run_concat (threshold : UInt32) (timeout : UInt64) (created : ℤ)
    (calls : List (Call × Readings)) (c : Call × Readings) :
    run threshold timeout created (calls ++ [c]) =
      step (run threshold timeout created calls) c := by
  unfold run
  rw [List.foldl_append]
  rfl

theorem step_breaker (s : Traced) (c : Call × Readings) :
    (step s c).breaker = (s.breaker.receive c).2 := rfl

theorem step_events (s : Traced) (c : Call × Readings) :
    (step s c).events = s.breaker.eventOf c :: s.events := rfl

/-- The readings of a run never go back. -/
def NonDecreasing : ℤ → List (Call × Readings) → Prop
  | _, [] => True
  | last, c :: calls =>
      last ≤ c.2.compared ∧ c.2.compared ≤ c.2.recovered ∧ c.2.recovered ≤ c.2.changed ∧
        NonDecreasing c.2.changed calls

/-! ### The specification -/

/-- What the counters say of the calls recorded in the present period. -/
def Counts (threshold : UInt32) (b : CircuitBreaker) (calls : List Call) : Prop :=
  match b.state with
  | .Closed =>
      b.failureCount.toNat = streak calls ∧ streak calls < max 1 threshold.toNat ∧
        b.successCount = 0
  | .Open => b.failureCount = 0 ∧ b.successCount = 0
  | .HalfOpen =>
      b.failureCount = 0 ∧ b.successCount.toNat = calls.count .success ∧
        calls.count .success < 3 ∧ .failure ∉ calls

/-- The law of one call, given the events before it. -/
structure Lawful (threshold : UInt32) (timeout : UInt64) (earlier : List Event) (e : Event) :
    Prop where
  before_eq : e.before = stateAfter earlier
  /-- Without recording anything, time takes Open to HalfOpen only. -/
  timer : e.mid = e.before ∨ e.before = .Open ∧ e.mid = .HalfOpen
  leaves_iff : e.before = .Open → ∃ t, openedAt earlier = some t ∧
    (e.mid ≠ .Open ↔ t + timeout.toNat * 1000000 ≤ e.readings.compared)
  opens_iff : e.Opens ↔ e.call = .failure ∧
    (e.mid = .HalfOpen ∨
      e.mid = .Closed ∧ streak (e.since earlier) + 1 = max 1 threshold.toNat)
  closes_iff : e.Closes ↔ e.call = .success ∧ e.mid = .HalfOpen ∧
    (e.since earlier).count .success + 1 = 3 ∧ .failure ∉ e.since earlier
  stays : ¬ e.Opens → ¬ e.Closes → e.after = e.mid
  returned_iff : e.returned = some true ↔ e.Opens ∨ e.Closes

/-- A breaker with its history, as the specification wants them. -/
structure FollowsTrace (threshold : UInt32) (timeout : UInt64) (s : Traced) : Prop where
  state_eq : s.breaker.state = stateAfter s.events
  counts : Counts threshold s.breaker (period s.breaker.state s.events)
  lawful : ∀ e earlier, e :: earlier <:+ s.events → Lawful threshold timeout earlier e

/-! ### One call -/

variable {threshold : UInt32} {timeout : UInt64} {b : CircuitBreaker} {calls : List Call}

theorem counts_transitionTo (now : ℤ) (b : CircuitBreaker) (state : CircuitState) :
    Counts threshold (b.transitionTo now state) [] := by
  cases state with
  | Closed => exact ⟨rfl, Nat.lt_of_lt_of_le Nat.one_pos (Nat.le_max_left _ _), rfl⟩
  | Open => exact ⟨rfl, rfl⟩
  | HalfOpen => exact ⟨rfl, rfl, by decide, List.not_mem_nil⟩

/-- What the second half of a call comes to, when `calls` were recorded before it in
the same period. -/
inductive Recorded (threshold : UInt32) (now : ℤ) (b : CircuitBreaker) (calls : List Call)
    (c : Call) (result : Option Bool × CircuitBreaker) : Prop where
  | stays (hreturned : result.1 ≠ some true) (hstate : result.2.state = b.state)
      (htime : result.2.lastStateChangeTime = b.lastStateChangeTime)
      (hcounts : Counts threshold result.2 (c :: calls))
      (hopens : ¬ (c = .failure ∧ (b.state = .HalfOpen ∨
        b.state = .Closed ∧ streak calls + 1 = max 1 threshold.toNat)))
      (hcloses : ¬ (c = .success ∧ b.state = .HalfOpen ∧ calls.count .success + 1 = 3 ∧
        .failure ∉ calls))
  | opens (hreturned : result.1 = some true) (hafter : result.2.state = .Open)
      (htime : result.2.lastStateChangeTime = now) (hcounts : Counts threshold result.2 [])
      (hc : c = .failure) (hstate : b.state = .HalfOpen ∨
        b.state = .Closed ∧ streak calls + 1 = max 1 threshold.toNat)
  | closes (hreturned : result.1 = some true) (hafter : result.2.state = .Closed)
      (htime : result.2.lastStateChangeTime = now)
      (hcounts : Counts threshold result.2 []) (hc : c = .success)
      (hstate : b.state = .HalfOpen) (hcount : calls.count .success + 1 = 3)
      (hfailure : .failure ∉ calls)

theorem record_failure_closed (now : ℤ) (hthreshold : b.failureThreshold = threshold)
    (hstate : b.state = .Closed) (hcounts : Counts threshold b calls) :
    Recorded threshold now b calls .failure (b.record now .failure) := by
  simp only [Counts, hstate] at hcounts
  obtain ⟨hcount, hlt, hsuccess⟩ := hcounts
  -- the counter stays below the threshold, so adding one does not wrap
  have hnext : (b.failureCount + 1).toNat = streak calls + 1 := by
    have hbound := threshold.toNat_lt
    rw [UInt32.toNat_add, hcount]
    apply Nat.mod_eq_of_lt
    show streak calls + 1 < _
    omega
  simp only [record, countFailure, hstate, hthreshold]
  split_ifs with hreached
  · have hle := UInt32.le_iff_toNat_le.mp hreached
    rw [hnext] at hle
    exact .opens rfl rfl rfl (counts_transitionTo _ _ _) rfl (Or.inr ⟨hstate, by omega⟩)
  · have hgt : streak calls + 1 < threshold.toNat := by
      rw [← hnext]
      exact UInt32.lt_iff_toNat_lt.mp (UInt32.not_le.mp hreached)
    refine .stays (by simp) hstate.symm rfl ?_ ?_ ?_
    · simp only [Counts, streak_failure]
      exact ⟨hnext, by omega, hsuccess⟩
    · rintro ⟨-, hhalf | ⟨-, hlast⟩⟩
      · simp [hstate] at hhalf
      · omega
    · simp

theorem record_success_halfOpen (now : ℤ) (hstate : b.state = .HalfOpen)
    (hcounts : Counts threshold b calls) :
    Recorded threshold now b calls .success (b.record now .success) := by
  simp only [Counts, hstate] at hcounts
  obtain ⟨hfailures, hcount, hlt, hmem⟩ := hcounts
  have hnext : (b.successCount + 1).toNat = calls.count .success + 1 := by
    rw [UInt32.toNat_add, hcount]
    apply Nat.mod_eq_of_lt
    show calls.count .success + 1 < _
    omega
  simp only [record, countSuccess, hstate]
  split_ifs with hreached
  · have hle := UInt32.le_iff_toNat_le.mp hreached
    rw [hnext] at hle
    have hthird : calls.count .success + 1 = 3 := Nat.le_antisymm hlt hle
    exact .closes rfl rfl rfl (counts_transitionTo _ _ _) rfl hstate hthird hmem
  · have hgt : calls.count .success + 1 < 3 := by
      rw [← hnext]
      exact UInt32.lt_iff_toNat_lt.mp (UInt32.not_le.mp hreached)
    refine .stays (by simp) hstate.symm rfl ?_ (by simp) ?_
    · simp only [Counts]
      refine ⟨hfailures, ?_, ?_, ?_⟩
      · rw [List.count_cons_self]
        exact hnext
      · rw [List.count_cons_self]
        exact hgt
      · simpa using hmem
    · rintro ⟨-, -, hlast, -⟩
      omega

theorem record_cases (now : ℤ) (hthreshold : b.failureThreshold = threshold)
    (hcounts : Counts threshold b calls) (c : Call) :
    Recorded threshold now b calls c (b.record now c) := by
  cases hstate : b.state with
  | Closed =>
      cases c with
      | failure => exact record_failure_closed now hthreshold hstate hcounts
      | success =>
          simp only [Counts, hstate] at hcounts
          simp only [record, countSuccess, hstate]
          refine .stays (by simp) hstate.symm rfl ?_ (by simp) (by simp [hstate])
          simp only [Counts, streak_success]
          exact ⟨rfl, by omega, hcounts.2.2⟩
      | query =>
          refine .stays (by simp [record]) rfl rfl ?_ (by simp) (by simp)
          simpa only [record, Counts, hstate, streak_query] using hcounts
  | HalfOpen =>
      cases c with
      | success => exact record_success_halfOpen now hstate hcounts
      | failure =>
          simp only [record, countFailure, hstate]
          exact .opens rfl rfl rfl (counts_transitionTo _ _ _) rfl (Or.inl hstate)
      | query =>
          refine .stays (by simp [record]) rfl rfl ?_ (by simp) (by simp)
          simpa [record, Counts, hstate] using hcounts
  | Open =>
      have hsame : (b.record now c).2 = b := by
        cases c <;> simp [record, countSuccess, countFailure, hstate]
      refine .stays (by cases c <;> simp [record, countSuccess, countFailure, hstate])
        (by rw [hsame]) (by rw [hsame]) ?_
        (by simp [hstate]) (by simp [hstate])
      rw [hsame]
      simpa only [Counts, hstate] using hcounts

/-- The timeout is compared in whole milliseconds, which loses nothing when it is one. -/
theorem recoveryDue_iff {now : ℤ} (htimeout : b.recoveryTimeoutMs.toNat < 2 ^ 63)
    (hle : b.lastStateChangeTime ≤ now) :
    b.recoveryDue now = true ↔
      b.lastStateChangeTime + b.recoveryTimeoutMs.toNat * 1000000 ≤ now := by
  have hsigned : b.recoveryTimeoutMs.toInt64.toInt = b.recoveryTimeoutMs.toNat := by
    show b.recoveryTimeoutMs.toBitVec.toInt = _
    rw [BitVec.toInt_eq_toNat_of_lt]
    · rfl
    · show 2 * b.recoveryTimeoutMs.toNat < _
      omega
  unfold recoveryDue elapsedMs
  rw [decide_eq_true_iff, hsigned, Int.tdiv_eq_ediv_of_nonneg (by omega), ge_iff_le,
    Int.le_ediv_iff_mul_le (by decide)]
  omega

theorem period_of_stays {e : Event} {earlier : List Event} (h : e.after = e.mid) :
    period e.after (e :: earlier) = e.call :: e.since earlier := by
  simp [period, Event.since, h]

theorem period_of_changes {e : Event} {earlier : List Event} (h : e.after ≠ e.mid) :
    period e.after (e :: earlier) = [] := by
  simp [period, Ne.symm h]

/-! ### Whole runs -/

/-- What a run keeps between calls: the specification, and what the breaker remembers
of the clock. -/
structure RunInv (threshold : UInt32) (timeout : UInt64) (last : ℤ) (s : Traced) : Prop
    extends FollowsTrace threshold timeout s where
  threshold_eq : s.breaker.failureThreshold = threshold
  timeout_eq : s.breaker.recoveryTimeoutMs = timeout
  opened : s.breaker.state = .Open → openedAt s.events = some s.breaker.lastStateChangeTime
  time_le : s.breaker.lastStateChangeTime ≤ last

theorem runInv_initial (threshold : UInt32) (timeout : UInt64) (created : ℤ) :
    RunInv threshold timeout created ⟨make threshold timeout created, []⟩ where
  state_eq := rfl
  counts := ⟨rfl, Nat.lt_of_lt_of_le Nat.one_pos (Nat.le_max_left _ _), rfl⟩
  lawful := fun _ _ h => by simp at h
  threshold_eq := rfl
  timeout_eq := rfl
  opened := by simp [make]
  time_le := Int.le_refl _

variable {last : ℤ} {s : Traced} {c : Call × Readings}

/-- The period of the state that `get_state` leaves is the present one, or a new one. -/
theorem RunInv.counts_mid (I : RunInv threshold timeout last s) (c : Call × Readings) :
    Counts threshold (s.breaker.getStateAt c.2) ((s.breaker.eventOf c).since s.events) := by
  by_cases h : s.breaker.state = .Open ∧ s.breaker.recoveryDue c.2.compared = true
  · have hsince : (s.breaker.eventOf c).since s.events = [] := by
      simp [Event.since, eventOf, getStateAt_of_recovers h, h.1, transitionTo]
    rw [hsince, getStateAt_of_recovers h]
    exact counts_transitionTo _ _ _
  · have hsince : (s.breaker.eventOf c).since s.events =
        period s.breaker.state s.events := by
      simp [Event.since, eventOf, getStateAt_of_stays h]
    rw [hsince, getStateAt_of_stays h]
    exact I.counts

theorem eventOf_timer (b : CircuitBreaker) (c : Call × Readings) :
    (b.eventOf c).mid = (b.eventOf c).before ∨
      (b.eventOf c).before = .Open ∧ (b.eventOf c).mid = .HalfOpen := by
  by_cases h : b.state = .Open ∧ b.recoveryDue c.2.compared = true
  · exact Or.inr ⟨h.1, congrArg state (getStateAt_of_recovers h)⟩
  · exact Or.inl (congrArg state (getStateAt_of_stays h))

theorem RunInv.leaves_iff (I : RunInv threshold timeout last s)
    (htimeout : timeout.toNat < 2 ^ 63) (hclock : last ≤ c.2.compared)
    (hopen : s.breaker.state = .Open) :
    ∃ t, openedAt s.events = some t ∧ ((s.breaker.getStateAt c.2).state ≠ .Open ↔
      t + timeout.toNat * 1000000 ≤ c.2.compared) := by
  refine ⟨_, I.opened hopen, ?_⟩
  have hdue := recoveryDue_iff (I.timeout_eq.symm ▸ htimeout) (Int.le_trans I.time_le hclock)
  rw [I.timeout_eq] at hdue
  rw [← hdue]
  by_cases h : s.breaker.state = .Open ∧ s.breaker.recoveryDue c.2.compared = true
  · rw [getStateAt_of_recovers h]
    simp [transitionTo, h.2]
  · rw [getStateAt_of_stays h]
    have hnot : s.breaker.recoveryDue c.2.compared = false := by simpa [hopen] using h
    simp [hopen, hnot]

/-- The configuration and the clock after a call's `get_state`. -/
theorem RunInv.mid (I : RunInv threshold timeout last s) (hlast : last ≤ c.2.compared)
    (hrecovered : c.2.compared ≤ c.2.recovered) :
    (s.breaker.getStateAt c.2).failureThreshold = threshold ∧
      (s.breaker.getStateAt c.2).recoveryTimeoutMs = timeout ∧
      (s.breaker.getStateAt c.2).lastStateChangeTime ≤ c.2.recovered ∧
      ((s.breaker.getStateAt c.2).state = .Open →
        openedAt s.events = some (s.breaker.getStateAt c.2).lastStateChangeTime) := by
  have htime := I.time_le
  by_cases h : s.breaker.state = .Open ∧ s.breaker.recoveryDue c.2.compared = true
  · rw [getStateAt_of_recovers h]
    exact ⟨I.threshold_eq, I.timeout_eq, Int.le_refl _, by simp [transitionTo]⟩
  · rw [getStateAt_of_stays h]
    exact ⟨I.threshold_eq, I.timeout_eq, by omega, I.opened⟩

theorem RunInv.lawful_event (I : RunInv threshold timeout last s)
    (htimeout : timeout.toNat < 2 ^ 63) (hlast : last ≤ c.2.compared)
    (hrecovered : c.2.compared ≤ c.2.recovered) :
    Lawful threshold timeout s.events (s.breaker.eventOf c) := by
  have hrecorded := record_cases c.2.changed (I.mid hlast hrecovered).1 (I.counts_mid c) c.1
  have hleaves := I.leaves_iff htimeout hlast
  cases hrecorded with
  | stays hreturned hstate _ _ hopens hcloses =>
      have hafter : (s.breaker.eventOf c).after = (s.breaker.eventOf c).mid := hstate
      have hnotOpens : ¬ (s.breaker.eventOf c).Opens := fun h => h.1 (hafter ▸ h.2)
      have hnotCloses : ¬ (s.breaker.eventOf c).Closes := fun h => h.1 (hafter ▸ h.2)
      exact ⟨I.state_eq, eventOf_timer _ _, hleaves, iff_of_false hnotOpens hopens,
        iff_of_false hnotCloses hcloses, fun _ _ => hafter,
        iff_of_false hreturned (not_or.mpr ⟨hnotOpens, hnotCloses⟩)⟩
  | opens hreturned hafter _ _ hc hstate =>
      have hopens : (s.breaker.eventOf c).Opens := by
        refine ⟨fun hmid => ?_, hafter⟩
        rcases hstate with h | ⟨h, -⟩ <;> exact absurd (h.symm.trans hmid) (by decide)
      have hnotCloses : ¬ (s.breaker.eventOf c).Closes :=
        fun h => absurd (hafter.symm.trans h.2) (by decide)
      refine ⟨I.state_eq, eventOf_timer _ _, hleaves, iff_of_true hopens ⟨hc, hstate⟩,
        iff_of_false hnotCloses fun h => ?_, fun h _ => absurd hopens h,
        iff_of_true hreturned (Or.inl hopens)⟩
      exact absurd (hc.symm.trans h.1) (by decide)
  | closes hreturned hafter _ _ hc hstate hcount hfailure =>
      have hcloses : (s.breaker.eventOf c).Closes :=
        ⟨fun hmid => absurd (hstate.symm.trans hmid) (by decide), hafter⟩
      have hnotOpens : ¬ (s.breaker.eventOf c).Opens :=
        fun h => absurd (hafter.symm.trans h.2) (by decide)
      refine ⟨I.state_eq, eventOf_timer _ _, hleaves, iff_of_false hnotOpens fun h => ?_,
        iff_of_true hcloses ⟨hc, hstate, hcount, hfailure⟩, fun _ h => absurd hcloses h,
        iff_of_true hreturned (Or.inr hcloses)⟩
      exact absurd (hc.symm.trans h.1) (by decide)

/-- The period of the state after a call goes on, or begins after the call. -/
theorem RunInv.counts_step (I : RunInv threshold timeout last s) (hlast : last ≤ c.2.compared)
    (hrecovered : c.2.compared ≤ c.2.recovered) :
    Counts threshold (CircuitBreaker.step s c).breaker
      (period (CircuitBreaker.step s c).breaker.state (CircuitBreaker.step s c).events) := by
  have hstays := @period_of_stays (s.breaker.eventOf c) s.events
  have hchanges := @period_of_changes (s.breaker.eventOf c) s.events
  cases record_cases c.2.changed (I.mid hlast hrecovered).1 (I.counts_mid c) c.1 with
  | stays _ hstate _ hcounts => exact (congrArg (Counts threshold _) (hstays hstate)).mpr hcounts
  | opens _ hafter _ hcounts _ hstate =>
      apply (congrArg (Counts threshold _) (hchanges fun h => ?_)).mpr hcounts
      rcases hstate with hmid | ⟨hmid, -⟩ <;>
        exact absurd ((hafter.symm.trans h).trans hmid) (by decide)
  | closes _ hafter _ hcounts _ hmid =>
      apply (congrArg (Counts threshold _) (hchanges fun h => ?_)).mpr hcounts
      exact absurd ((hafter.symm.trans h).trans hmid) (by decide)

theorem RunInv.opened_step (I : RunInv threshold timeout last s) (hlast : last ≤ c.2.compared)
    (hrecovered : c.2.compared ≤ c.2.recovered)
    (hopen : (CircuitBreaker.step s c).breaker.state = .Open) :
    openedAt (CircuitBreaker.step s c).events =
      some (CircuitBreaker.step s c).breaker.lastStateChangeTime := by
  obtain ⟨hthreshold, -, -, hopened⟩ := I.mid hlast hrecovered
  cases record_cases c.2.changed hthreshold (I.counts_mid c) c.1 with
  | stays _ hstate htime =>
      have hmid := hstate.symm.trans hopen
      have hsame : openedAt (CircuitBreaker.step s c).events = openedAt s.events :=
        if_neg fun h => h.1 hmid
      rw [hsame, hopened hmid]
      exact congrArg some htime.symm
  | opens _ hafter htime _ _ hstate =>
      have hnew : openedAt (CircuitBreaker.step s c).events = some c.2.changed := by
        refine if_pos ⟨fun hmid => ?_, hafter⟩
        rcases hstate with h | ⟨h, -⟩ <;> exact absurd (h.symm.trans hmid) (by decide)
      rw [hnew]
      exact congrArg some htime.symm
  | closes _ hafter => exact absurd (hafter.symm.trans hopen) (by decide)

theorem RunInv.time_step (I : RunInv threshold timeout last s) (hlast : last ≤ c.2.compared)
    (hrecovered : c.2.compared ≤ c.2.recovered) (hchanged : c.2.recovered ≤ c.2.changed) :
    (CircuitBreaker.step s c).breaker.lastStateChangeTime ≤ c.2.changed := by
  obtain ⟨hthreshold, -, hmid, -⟩ := I.mid hlast hrecovered
  cases record_cases c.2.changed hthreshold (I.counts_mid c) c.1 with
  | stays _ _ htime => exact Int.le_trans (Int.le_of_eq htime) (Int.le_trans hmid hchanged)
  | opens _ _ htime => exact Int.le_of_eq htime
  | closes _ _ htime => exact Int.le_of_eq htime

theorem RunInv.step (I : RunInv threshold timeout last s) (htimeout : timeout.toNat < 2 ^ 63)
    (hlast : last ≤ c.2.compared) (hrecovered : c.2.compared ≤ c.2.recovered)
    (hchanged : c.2.recovered ≤ c.2.changed) :
    RunInv threshold timeout c.2.changed (step s c) := by
  obtain ⟨hthreshold, htimeoutEq, -, -⟩ := I.mid hlast hrecovered
  obtain ⟨hsameThreshold, hsameTimeout⟩ :=
    record_config c.2.changed (s.breaker.getStateAt c.2) c.1
  refine ⟨⟨rfl, I.counts_step hlast hrecovered, ?_⟩, hsameThreshold.trans hthreshold,
    hsameTimeout.trans htimeoutEq, I.opened_step hlast hrecovered,
    I.time_step hlast hrecovered hchanged⟩
  intro e earlier hsuffix
  rcases List.suffix_cons_iff.mp hsuffix with heq | hbefore
  · obtain ⟨rfl, rfl⟩ := List.cons.inj heq
    exact I.lawful_event htimeout hlast hrecovered
  · exact I.lawful e earlier hbefore

theorem RunInv.foldl (htimeout : timeout.toNat < 2 ^ 63) (calls : List (Call × Readings)) :
    ∀ {last : ℤ} {s : Traced}, RunInv threshold timeout last s → NonDecreasing last calls →
      FollowsTrace threshold timeout (calls.foldl CircuitBreaker.step s) := by
  induction calls with
  | nil => exact fun I _ => I.toFollowsTrace
  | cons c calls ih =>
      rintro last s I ⟨hlast, hrecovered, hchanged, hcalls⟩
      exact ih (I.step htimeout hlast hrecovered hchanged) hcalls

/-- **The breaker follows its trace.** On every run whose readings never go back, the
counters are those of the recorded calls, and each call of the run opened, left or
closed the breaker exactly when the calls before it say so. -/
theorem breaker_followsTrace (threshold : UInt32) (timeout : UInt64)
    (htimeout : timeout.toNat < 2 ^ 63) (created : ℤ) (calls : List (Call × Readings))
    (hclock : NonDecreasing created calls) :
    FollowsTrace threshold timeout (run threshold timeout created calls) :=
  RunInv.foldl htimeout calls (runInv_initial threshold timeout created) hclock

/-- A failure opens the breaker; the next, late enough, takes it through HalfOpen and
opens it again; three successes after another recovery close it. -/
theorem breaker_followsTrace_reopened :
    FollowsTrace 1 1 (run 1 1 0 [(.failure, ⟨1, 1, 2⟩), (.failure, ⟨1000002, 1000002, 1000003⟩),
      (.success, ⟨2000003, 2000003, 2000004⟩), (.success, ⟨2000004, 2000004, 2000004⟩),
      (.query, ⟨2000004, 2000004, 2000004⟩), (.success, ⟨2000005, 2000005, 2000005⟩)]) :=
  breaker_followsTrace 1 1 (by decide) 0 _ (by simp [NonDecreasing])

example : (run 1 1 0 [(.failure, ⟨1, 1, 2⟩), (.failure, ⟨1000002, 1000002, 1000003⟩),
    (.success, ⟨2000003, 2000003, 2000004⟩), (.success, ⟨2000004, 2000004, 2000004⟩),
    (.success, ⟨2000005, 2000005, 2000005⟩)]).events.map (fun e => (e.mid, e.after)) =
      [(.HalfOpen, .Closed), (.HalfOpen, .HalfOpen), (.HalfOpen, .HalfOpen),
        (.HalfOpen, .Open), (.Closed, .Open)] := by decide

end CircuitBreaker

end Netsim.Network
