import Mathlib.Data.Int.Basic

/-!
# The circuit breaker of a link

`network/circuit_breaker.hpp` and `circuit_breaker.cpp`. The steady clock is a
parameter, in nanoseconds: `getStateAt`, `countSuccess` and `countFailure` take what each
call of `steady_clock::now()` returns, the operations made of them one reading `now` for
all.
-/

namespace Netsim.Network

inductive CircuitState where
  | Closed
  | Open
  | HalfOpen
deriving DecidableEq, Repr

structure CircuitBreaker where
  state : CircuitState
  failureThreshold : UInt32
  recoveryTimeoutMs : UInt64
  failureCount : UInt32
  successCount : UInt32
  lastStateChangeTime : ℤ
deriving DecidableEq, Repr

namespace CircuitBreaker

/-- The two-argument constructor. -/
def make (failureThreshold : UInt32) (recoveryTimeoutMs : UInt64) (now : ℤ) :
    CircuitBreaker :=
  ⟨.Closed, failureThreshold, recoveryTimeoutMs, 0, 0, now⟩

/-- The default constructor. -/
def makeDefault (now : ℤ) : CircuitBreaker := make 3 5000 now

def transitionTo (now : ℤ) (newState : CircuitState) (b : CircuitBreaker) :
    CircuitBreaker :=
  { b with state := newState, failureCount := 0, successCount := 0,
           lastStateChangeTime := now }

/-- `duration_cast<milliseconds>(now - last_state_change_time_).count()`. -/
def elapsedMs (now : ℤ) (b : CircuitBreaker) : ℤ :=
  (now - b.lastStateChangeTime).tdiv 1000000

/-- The comparison of `get_state`, made on the signed cast of the timeout. -/
def recoveryDue (now : ℤ) (b : CircuitBreaker) : Bool :=
  decide (b.elapsedMs now ≥ b.recoveryTimeoutMs.toInt64.toInt)

/-- The readings of one call, in the order in which it can make them. -/
structure Readings where
  compared : ℤ
  recovered : ℤ
  changed : ℤ
deriving DecidableEq, Repr

/-- What `get_state` leaves. -/
def getStateAt (r : Readings) (b : CircuitBreaker) : CircuitBreaker :=
  if b.state = .Open then
    if b.recoveryDue r.compared then b.transitionTo r.recovered .HalfOpen else b
  else b

def getState (now : ℤ) (b : CircuitBreaker) : CircuitState × CircuitBreaker :=
  let b := b.getStateAt ⟨now, now, now⟩
  (b.state, b)

/-- The rest of `record_success` once its `get_state` has returned. -/
def countSuccess (now : ℤ) (b : CircuitBreaker) : Bool × CircuitBreaker :=
  match b.state with
  | .HalfOpen =>
      let prevSuccess := b.successCount
      let b := { b with successCount := prevSuccess + 1 }
      if prevSuccess + 1 ≥ 3 then (true, b.transitionTo now .Closed) else (false, b)
  | .Closed => (false, { b with failureCount := 0 })
  | .Open => (false, b)

def recordSuccess (now : ℤ) (b : CircuitBreaker) : Bool × CircuitBreaker :=
  (b.getState now).2.countSuccess now

/-- The rest of `record_failure` once its `get_state` has returned. -/
def countFailure (now : ℤ) (b : CircuitBreaker) : Bool × CircuitBreaker :=
  match b.state with
  | .Closed =>
      let prevFailures := b.failureCount
      let b := { b with failureCount := prevFailures + 1 }
      if prevFailures + 1 ≥ b.failureThreshold then (true, b.transitionTo now .Open)
      else (false, b)
  | .HalfOpen => (true, b.transitionTo now .Open)
  | .Open => (false, b)

def recordFailure (now : ℤ) (b : CircuitBreaker) : Bool × CircuitBreaker :=
  (b.getState now).2.countFailure now

/-- The state a query at `now` reports. -/
def reported (now : ℤ) (b : CircuitBreaker) : CircuitState := (b.getState now).1

variable {b : CircuitBreaker} {now : ℤ} {r : Readings}

theorem getStateAt_of_stays (h : ¬ (b.state = .Open ∧ b.recoveryDue r.compared = true)) :
    b.getStateAt r = b := by
  unfold getStateAt
  split_ifs with hopen hdue
  · exact absurd ⟨hopen, hdue⟩ h
  · rfl
  · rfl

theorem getStateAt_of_recovers (h : b.state = .Open ∧ b.recoveryDue r.compared = true) :
    b.getStateAt r = b.transitionTo r.recovered .HalfOpen := by
  unfold getStateAt
  rw [if_pos h.1, if_pos h.2]

theorem reported_eq (now : ℤ) (b : CircuitBreaker) :
    b.reported now =
      if b.state = .Open ∧ b.recoveryDue now = true then .HalfOpen else b.state := by
  show (b.getStateAt ⟨now, now, now⟩).state = _
  split_ifs with h
  · rw [getStateAt_of_recovers h]
    rfl
  · rw [getStateAt_of_stays h]

/-- A breaker that is not Open reports its own state. -/
theorem reported_of_ne_open (h : b.state ≠ .Open) : b.reported now = b.state := by
  rw [reported_eq, if_neg (fun hc => h hc.1)]

/-- Asking again at the same reading reports the same state: a breaker that
recovers does so on the first query and then reports HalfOpen. -/
theorem reported_getState (now : ℤ) (b : CircuitBreaker) :
    (b.getState now).2.reported now = b.reported now := by
  show (b.getStateAt ⟨now, now, now⟩).reported now = _
  by_cases h : b.state = .Open ∧ b.recoveryDue now = true
  · rw [getStateAt_of_recovers h, reported_of_ne_open (by simp [transitionTo]), reported_eq,
      if_pos h]
    rfl
  · rw [getStateAt_of_stays h]

end CircuitBreaker

end Netsim.Network
