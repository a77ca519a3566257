import Netsim.Foundation.Linearizability
import Netsim.System.SpscRingBuffer

/-!
# The ring is a linearizable queue

To its two threads the ring looks like a queue of bounded length on which each call is
one indivisible step (`spsc_linearizable`). A push that returns true takes effect when it
stores `tail_`, a pop that returns an item when it stores `head_`. A push that returns
false took effect when it loaded `head_`, and a pop that returns nothing when it loaded
`tail_`: by the time it returns the queue may no longer be full, or empty.
-/

namespace Netsim.System.Spsc

open Foundation

/-- What a thread asks of the queue, and what it is told. -/
inductive Request (α : Type*) where
  | push (item : α)
  | pop

inductive Response (α : Type*) where
  | pushed (accepted : Bool)
  | popped (item : Option α)

variable {w k : ℕ} {α : Type*} {capacity : BitVec w}

/-- What a step shows of the calls. -/
def marks (capacity : BitVec w) (s : State w α) (thread : Thread) :
    List (Mark Thread (Request α) (Response α)) :=
  match thread with
  | .producer =>
      match s.push, s.program with
      | .idle, item :: _ => [.invoke .producer (.push item)]
      | _, _ =>
          match (pushStep capacity s).2 with
          | .pushed _ accepted => [.respond .producer (.pushed accepted)]
          | _ => []
  | .consumer =>
      match s.pop with
      | .idle => [.invoke .consumer .pop]
      | _ =>
          match (popStep capacity s).2 with
          | .popped item => [.respond .consumer (.popped item)]
          | _ => []

/-- What a step does for the calls. A push commits when it stores `tail_`, or when the load
of `head_` refuses it; a pop commits when it stores `head_`, or when the load of `tail_`
finds nothing. -/
def effects (capacity : BitVec w) (s : State w α) (thread : Thread) :
    List (Mark Thread (Request α) (Response α)) :=
  match thread with
  | .producer =>
      match s.push with
      | .loadedTail _ currentTail =>
          if currentTail - s.ring.head ≥ capacity then [.commit .producer] else []
      | .wrote _ _ => .commit .producer :: marks capacity s .producer
      | _ => marks capacity s .producer
  | .consumer =>
      match s.pop with
      | .loadedHead currentHead =>
          if currentHead = s.ring.tail then [.commit .consumer] else []
      | .copied _ _ => .commit .consumer :: marks capacity s .consumer
      | _ => marks capacity s .consumer

/-- How far the push has got, for an observer of the bounded queue. -/
def Push.phase (capacity : BitVec w) : Push w α → Phase (Request α) (Response α)
  | .idle => .idle
  | .loadedTail item _ => .pending (.push item)
  | .loadedHead item currentTail currentHead =>
      if currentTail - currentHead ≥ capacity then .decided (.pushed false)
      else .pending (.push item)
  | .wrote item _ => .pending (.push item)

def Pop.phase : Pop w α → Phase (Request α) (Response α)
  | .idle => .idle
  | .loadedHead _ => .pending .pop
  | .loadedTail currentHead currentTail =>
      if currentHead = currentTail then .decided (.popped none) else .pending .pop
  | .copied _ _ => .pending .pop

/-- The two calls in flight. -/
def phases (capacity : BitVec w) (s : State w α) : Thread → Phase (Request α) (Response α)
  | .producer => s.push.phase capacity
  | .consumer => s.pop.phase

/-- The atomic queue that a state stands for. -/
def atomicOf (capacity : BitVec w) (s : State w α) (o : Observed α) :
    Atomic Thread (Request α) (Response α) (List α) := ⟨phases capacity s, o.queue⟩

variable {s : State w α} {o : Observed α}

theorem filter_effects (capacity : BitVec w) (s : State w α) (thread : Thread) :
    (effects capacity s thread).filter Mark.visible = marks capacity s thread := by
  obtain ⟨ring, push, pop, program⟩ := s
  cases thread with
  | producer =>
      cases push with
      | idle => cases program <;> rfl
      | loadedTail item currentTail =>
          simp only [effects, marks, pushStep]
          split_ifs <;> rfl
      | loadedHead item currentTail currentHead =>
          simp only [effects, marks, pushStep]
          split_ifs <;> rfl
      | wrote item currentTail => rfl
  | consumer =>
      cases pop with
      | idle => rfl
      | loadedHead currentHead =>
          simp only [effects, marks, popStep]
          split_ifs <;> rfl
      | loadedTail currentHead currentTail =>
          simp only [effects, marks, popStep]
          split_ifs <;> rfl
      | copied item currentHead => rfl

end Netsim.System.Spsc
