import Netsim.System.SpscRingBuffer

/-!
# The size of the queue

`push`, `pop` and `size` of `system/event_queue.hpp` as whole calls. A call is what
a thread does that runs alone until it is idle again, so the calls made one after
another are one of the schedules of the two threads (`exists_schedule`) and
`RingInv` holds after them.

`push` subtracts the counters, which is right for any count. `size` compares them
first: it tells how many items are held while `tail_` and `head_` have wrapped
equally often, and zero from the push that wraps `tail_` to the pop that wraps
`head_` (`RingInv.toNat_size`).
-/

namespace Netsim.System.Spsc

open Foundation

namespace SpscRingBuffer

variable {w : ℕ} {α : Type*}

def push (capacity : BitVec w) (item : α) (ring : SpscRingBuffer w α) :
    Bool × SpscRingBuffer w α :=
  if ring.tail - ring.head ≥ capacity then (false, ring)
  else
    (true, { ring with
      buffer := Function.update ring.buffer (ring.tail &&& (capacity - 1)) item
      tail := ring.tail + 1 })

def pop (capacity : BitVec w) (ring : SpscRingBuffer w α) : Option α × SpscRingBuffer w α :=
  if ring.head = ring.tail then (none, ring)
  else (some (ring.buffer (ring.head &&& (capacity - 1))), { ring with head := ring.head + 1 })

/-- The words are compared before they are subtracted. -/
def size (ring : SpscRingBuffer w α) : BitVec w :=
  if ring.tail ≥ ring.head then ring.tail - ring.head else 0

end SpscRingBuffer

inductive Call (α : Type*) where
  | push (item : α)
  | pop
deriving DecidableEq, Repr

/-- The ring after some calls, with the items whose push returned true and the items
popped. -/
structure History (w : ℕ) (α : Type*) where
  ring : SpscRingBuffer w α
  pushed : List α
  popped : List α

section Model

variable {w : ℕ} {α : Type*}

def History.call (capacity : BitVec w) (h : History w α) : Call α → History w α
  | .push item =>
      match h.ring.push capacity item with
      | (true, ring) => { h with ring := ring, pushed := h.pushed ++ [item] }
      | (false, ring) => { h with ring := ring }
  | .pop =>
      match h.ring.pop capacity with
      | (some item, ring) => { h with ring := ring, popped := h.popped ++ [item] }
      | (none, ring) => { h with ring := ring }

section Calls

variable {capacity : BitVec w} {h : History w α} {item : α}

theorem History.call_push_full (hfull : h.ring.tail - h.ring.head ≥ capacity) :
    h.call capacity (.push item) = h := by
  simp only [History.call, SpscRingBuffer.push, if_pos hfull]

theorem History.call_push_room (hfull : ¬ h.ring.tail - h.ring.head ≥ capacity) :
    h.call capacity (.push item) =
      ⟨⟨Function.update h.ring.buffer (h.ring.tail &&& (capacity - 1)) item, h.ring.head,
        h.ring.tail + 1⟩, h.pushed ++ [item], h.popped⟩ := by
  simp only [History.call, SpscRingBuffer.push, if_neg hfull]

theorem History.call_pop_empty (hempty : h.ring.head = h.ring.tail) :
    h.call capacity .pop = h := by
  simp only [History.call, SpscRingBuffer.pop, if_pos hempty]

theorem History.call_pop_item (hempty : ¬ h.ring.head = h.ring.tail) :
    h.call capacity .pop =
      ⟨⟨h.ring.buffer, h.ring.head + 1, h.ring.tail⟩, h.pushed,
        h.popped ++ [h.ring.buffer (h.ring.head &&& (capacity - 1))]⟩ := by
  simp only [History.call, SpscRingBuffer.pop, if_neg hempty]

end Calls

/-- A new queue, with whatever its slots hold, after the given calls. -/
def afterCalls (capacity : BitVec w) (slots : BitVec w → α) (calls : List (Call α)) :
    History w α :=
  calls.foldl (History.call capacity) ⟨⟨slots, 0, 0⟩, [], []⟩

def Call.item? : Call α → Option α
  | .push item => some item
  | .pop => none

/-- `size` returns the number of items pushed less the number popped. -/
def History.SizeExact (h : History w α) : Prop :=
  (h.ring.size.toNat : ℤ) = h.pushed.length - h.popped.length

end Model

variable {w k : ℕ} {α : Type*} {capacity : BitVec w} {s : State w α} {o : Observed α}
  {h : History w α} {item : α} {program : List α}

/-! ### Calls are runs of the threads -/

/-- No call is under way, and the threads have done what the calls did. -/
structure Quiescent (r : State w α × Observed α) (h : History w α) (program : List α) :
    Prop where
  state_eq : r.1 = ⟨h.ring, .idle, .idle, program⟩
  pushed_eq : r.2.pushed = h.pushed
  popped_eq : r.2.popped = h.popped

namespace Quiescent

variable {r : State w α × Observed α}

/-- The producer loads both counters, and then finds the queue full or writes a slot
and `tail_`. -/
theorem push_alone (Q : Quiescent r h (item :: program)) :
    ∃ schedule : List Thread, Quiescent (schedule.foldl (observedStep capacity) r)
      (h.call capacity (.push item)) program := by
  obtain ⟨s, o⟩ := r
  obtain ⟨rfl, hpushed, hpopped⟩ := Q
  have hloaded : [Thread.producer, .producer].foldl (observedStep capacity)
      (⟨h.ring, .idle, .idle, item :: program⟩, o) =
      (⟨h.ring, .loadedHead item h.ring.tail h.ring.head, .idle, program⟩,
        { o with heldAtHeadLoad := o.held }) := rfl
  by_cases hfull : h.ring.tail - h.ring.head ≥ capacity
  · refine ⟨[Thread.producer, .producer] ++ [.producer], ?_⟩
    rw [History.call_push_full hfull, List.foldl_append, hloaded, List.foldl_cons, List.foldl_nil,
      observedStep, step, pushStep_full hfull]
    exact ⟨rfl, hpushed, hpopped⟩
  · refine ⟨[Thread.producer, .producer] ++ [.producer, .producer], ?_⟩
    rw [History.call_push_room hfull, List.foldl_append, hloaded, List.foldl_cons, observedStep,
      step, pushStep_room hfull]
    exact ⟨rfl, congrArg (· ++ [item]) hpushed, hpopped⟩

/-- The consumer loads both counters, and then finds the queue empty or copies an item
and writes `head_`. -/
theorem pop_alone (Q : Quiescent r h program) :
    ∃ schedule : List Thread, Quiescent (schedule.foldl (observedStep capacity) r)
      (h.call capacity .pop) program := by
  obtain ⟨s, o⟩ := r
  obtain ⟨rfl, hpushed, hpopped⟩ := Q
  have hloaded : [Thread.consumer, .consumer].foldl (observedStep capacity)
      (⟨h.ring, .idle, .idle, program⟩, o) =
      (⟨h.ring, .idle, .loadedTail h.ring.head h.ring.tail, program⟩,
        { o with heldAtTailLoad := o.held }) := rfl
  by_cases hempty : h.ring.head = h.ring.tail
  · refine ⟨[Thread.consumer, .consumer] ++ [.consumer], ?_⟩
    rw [History.call_pop_empty hempty, List.foldl_append, hloaded, List.foldl_cons, List.foldl_nil,
      observedStep, step, popStep_empty hempty]
    exact ⟨rfl, hpushed, hpopped⟩
  · refine ⟨[Thread.consumer, .consumer] ++ [.consumer, .consumer], ?_⟩
    rw [History.call_pop_item hempty, List.foldl_append, hloaded, List.foldl_cons, observedStep,
      step, popStep_item hempty]
    exact ⟨rfl, hpushed, congrArg (· ++ [_]) hpopped⟩

end Quiescent

theorem afterCalls_concat (slots : BitVec w → α) (calls : List (Call α)) (call : Call α) :
    afterCalls capacity slots (calls ++ [call]) =
      (afterCalls capacity slots calls).call capacity call := by
  rw [afterCalls, List.foldl_append]
  rfl

/-- **Every sequence of calls is a schedule of the two threads.** -/
theorem exists_schedule (capacity : BitVec w) (slots : BitVec w → α) (calls : List (Call α))
    (program : List α) :
    ∃ schedule, Quiescent (run capacity slots (calls.filterMap Call.item? ++ program) schedule)
      (afterCalls capacity slots calls) program := by
  -- the pushes still to come stand in `program`, so it varies in the induction
  induction calls using List.reverseRecOn generalizing program with
  | nil => exact ⟨[], rfl, rfl, rfl⟩
  | append_singleton calls call ih =>
      rw [afterCalls_concat, List.filterMap_append, List.append_assoc]
      cases call with
      | push item =>
          obtain ⟨before, Q⟩ := ih (item :: program)
          obtain ⟨schedule, Q'⟩ := Q.push_alone
          refine ⟨before ++ schedule, ?_⟩
          rw [run, List.foldl_append]
          exact Q'
      | pop =>
          obtain ⟨before, Q⟩ := ih program
          obtain ⟨schedule, Q'⟩ := Q.pop_alone
          refine ⟨before ++ schedule, ?_⟩
          rw [run, List.foldl_append]
          exact Q'

theorem ringInv_afterCalls (hcap : capacity.toNat = 2 ^ k) (slots : BitVec w → α)
    (calls : List (Call α)) :
    ∃ o : Observed α, o.pushed = (afterCalls capacity slots calls).pushed ∧
      o.popped = (afterCalls capacity slots calls).popped ∧
      RingInv k capacity ⟨(afterCalls capacity slots calls).ring, .idle, .idle, []⟩ o := by
  obtain ⟨schedule, Q⟩ := exists_schedule capacity slots calls []
  have I := RingInv.of_run hcap slots (calls.filterMap Call.item? ++ []) schedule
  rw [Q.state_eq] at I
  exact ⟨_, Q.pushed_eq, Q.popped_eq, I⟩

/-! ### What `size` returns -/

namespace RingInv

/-- A whole `push` makes its comparison on the true counts. -/
theorem push_full_iff (I : RingInv k capacity s o) (hcap : capacity.toNat = 2 ^ k) :
    s.ring.tail - s.ring.head ≥ capacity ↔ o.held = 2 ^ k := by
  have hle := I.popped_prefix.length_le
  rw [I.tail_eq, I.head_eq, ge_iff_le, capacity_le_counter_sub_iff hcap hle I.held_le,
    Observed.held]
  have hslots := Nat.two_pow_pos k
  omega

theorem pop_empty_iff (I : RingInv k capacity s o) (hcap : capacity.toNat = 2 ^ k) :
    s.ring.head = s.ring.tail ↔ o.held = 0 := by
  have hle := I.popped_prefix.length_le
  have hpow := two_pow_lt hcap
  have hheld := I.held_le
  rw [I.tail_eq, I.head_eq, counter_inj hle (by omega), Observed.held]
  omega

/-- At any moment of any run, also with calls under way. -/
theorem toNat_size (I : RingInv k capacity s o) (hcap : capacity.toNat = 2 ^ k) :
    s.ring.size.toNat =
      if o.pushed.length / 2 ^ w = o.popped.length / 2 ^ w then o.held else 0 := by
  have hle := I.popped_prefix.length_le
  have hpow := two_pow_lt hcap
  have hheld := I.held_le
  have hlt : o.pushed.length - o.popped.length < 2 ^ w := by omega
  rw [SpscRingBuffer.size, I.tail_eq, I.head_eq]
  by_cases hwraps : o.pushed.length / 2 ^ w = o.popped.length / 2 ^ w
  · rw [if_pos hwraps, if_pos ((counter_le_iff hle hlt).mpr hwraps.symm)]
    exact toNat_counter_sub hle hlt
  · rw [if_neg hwraps, if_neg]
    · exact BitVec.toNat_zero
    · rw [ge_iff_le, counter_le_iff hle hlt]
      exact fun h => hwraps h.symm

theorem size_eq_held_iff (I : RingInv k capacity s o) (hcap : capacity.toNat = 2 ^ k) :
    s.ring.size.toNat = o.held ↔ o.pushed.length / 2 ^ w = o.popped.length / 2 ^ w := by
  rw [I.toNat_size hcap]
  by_cases hwraps : o.pushed.length / 2 ^ w = o.popped.length / 2 ^ w
  · rw [if_pos hwraps]
    exact iff_of_true rfl hwraps
  · rw [if_neg hwraps]
    refine iff_of_false ?_ hwraps
    -- zero would be right for an empty queue, whose counters have wrapped equally often
    intro hzero
    have hle := I.popped_prefix.length_le
    have heq : o.pushed.length = o.popped.length := by
      rw [Observed.held] at hzero
      omega
    exact hwraps (by rw [heq])

theorem size_eq_held_of_lt (I : RingInv k capacity s o) (hcap : capacity.toNat = 2 ^ k)
    (hlt : o.pushed.length < 2 ^ w) : s.ring.size.toNat = o.held := by
  have hle := I.popped_prefix.length_le
  rw [I.size_eq_held_iff hcap, Nat.div_eq_of_lt hlt, Nat.div_eq_of_lt (hle.trans_lt hlt)]

end RingInv

/-- **The size after any sequence of calls.** It is exact just while both counts have
passed the same multiples of `2^w`. -/
theorem size_exact_iff (capacity : BitVec w) (hcap : capacity.toNat = 2 ^ k)
    (slots : BitVec w → α) (calls : List (Call α)) :
    (afterCalls capacity slots calls).SizeExact ↔
      (afterCalls capacity slots calls).pushed.length / 2 ^ w =
        (afterCalls capacity slots calls).popped.length / 2 ^ w := by
  obtain ⟨o, hpushed, hpopped, I⟩ := ringInv_afterCalls hcap slots calls
  have hle := I.popped_prefix.length_le
  have hiff : (afterCalls capacity slots calls).ring.size.toNat = o.held ↔ _ :=
    I.size_eq_held_iff hcap
  rw [History.SizeExact, ← hpushed, ← hpopped, ← hiff, Observed.held]
  omega

/-- A 64-bit ring of two slots that has refused a push. -/
theorem size_exact_iff_two :
    (afterCalls (2 : BitVec 64) (fun _ => 0) [.push 5, .push 6, .push 7, .pop]).SizeExact ↔
      (afterCalls (2 : BitVec 64) (fun _ => 0) [.push 5, .push 6, .push 7, .pop]).pushed.length /
          2 ^ 64 =
        (afterCalls (2 : BitVec 64) (fun _ => 0) [.push 5, .push 6, .push 7, .pop]).popped.length /
          2 ^ 64 :=
  size_exact_iff (k := 1) (2 : BitVec 64) (by decide) (fun _ => 0) [.push 5, .push 6, .push 7, .pop]

/-! ### A queue that is used for long enough -/

/-- Push and pop in turn. -/
def turns (n : ℕ) (item : α) : List (Call α) :=
  (List.replicate n [Call.push item, .pop]).flatten

/-- Push and pop in turn up to the push that wraps `tail_`. -/
def untilWrap (w : ℕ) (item : α) : List (Call α) := turns (2 ^ w - 1) item ++ [.push item]

theorem turns_succ (n : ℕ) (item : α) :
    turns (n + 1) item = turns n item ++ [.push item, .pop] := by
  rw [turns, List.replicate_succ', List.flatten_append, List.flatten_singleton]
  rfl

section Turns

variable (hcap : capacity.toNat = 2 ^ k) (slots : BitVec w → α) (calls : List (Call α))
include hcap

theorem push_of_room (item : α)
    (hroom : (afterCalls capacity slots calls).pushed.length <
      (afterCalls capacity slots calls).popped.length + 2 ^ k) :
    (afterCalls capacity slots (calls ++ [.push item])).pushed =
        (afterCalls capacity slots calls).pushed ++ [item] ∧
      (afterCalls capacity slots (calls ++ [.push item])).popped =
        (afterCalls capacity slots calls).popped := by
  obtain ⟨o, hpushed, hpopped, I⟩ := ringInv_afterCalls hcap slots calls
  rw [← hpushed, ← hpopped] at hroom
  have hle := I.popped_prefix.length_le
  have hfull : ¬ (afterCalls capacity slots calls).ring.tail -
      (afterCalls capacity slots calls).ring.head ≥ capacity := by
    rw [I.push_full_iff hcap, Observed.held]
    omega
  rw [afterCalls_concat, History.call_push_room hfull]
  exact ⟨rfl, rfl⟩

theorem pop_of_held
    (hheld : (afterCalls capacity slots calls).popped.length <
      (afterCalls capacity slots calls).pushed.length) :
    (afterCalls capacity slots (calls ++ [.pop])).pushed =
        (afterCalls capacity slots calls).pushed ∧
      (afterCalls capacity slots (calls ++ [.pop])).popped.length =
        (afterCalls capacity slots calls).popped.length + 1 := by
  obtain ⟨o, hpushed, hpopped, I⟩ := ringInv_afterCalls hcap slots calls
  rw [← hpushed, ← hpopped] at hheld
  have hempty : ¬ (afterCalls capacity slots calls).ring.head =
      (afterCalls capacity slots calls).ring.tail := by
    rw [I.pop_empty_iff hcap, Observed.held]
    omega
  rw [afterCalls_concat, History.call_pop_item hempty]
  exact ⟨rfl, List.length_append⟩

/-- Every push and every pop of the turns succeeds. -/
theorem afterCalls_turns (n : ℕ) (item : α) :
    (afterCalls capacity slots (turns n item)).pushed.length = n ∧
      (afterCalls capacity slots (turns n item)).popped.length = n := by
  induction n with
  | zero => exact ⟨rfl, rfl⟩
  | succ n ih =>
      obtain ⟨hpushed, hpopped⟩ := ih
      have hslots := Nat.two_pow_pos k
      have hpush := push_of_room hcap slots (turns n item) item (by omega)
      have hone : (afterCalls capacity slots (turns n item ++ [.push item])).pushed.length =
          n + 1 := by
        rw [hpush.1, List.length_append, hpushed]
        rfl
      have hpop := pop_of_held hcap slots (turns n item ++ [.push item]) (by
        rw [hone, hpush.2, hpopped]
        exact Nat.lt_succ_self n)
      rw [List.append_assoc] at hpop
      rw [turns_succ]
      constructor
      · exact (congrArg List.length hpop.1).trans hone
      · rw [hpush.2, hpopped] at hpop
        exact hpop.2

/-- The push that wraps `tail_` leaves one item, and a size of zero. -/
theorem size_untilWrap (item : α) :
    (afterCalls capacity slots (untilWrap w item)).ring.size = 0 ∧
      (afterCalls capacity slots (untilWrap w item)).pushed.length =
        (afterCalls capacity slots (untilWrap w item)).popped.length + 1 := by
  obtain ⟨hturns, hturns'⟩ := afterCalls_turns hcap slots (2 ^ w - 1) item
  have hslots := Nat.two_pow_pos k
  have hword := Nat.two_pow_pos w
  have hpush := push_of_room hcap slots (turns (2 ^ w - 1) item) item (by omega)
  obtain ⟨o, hpushed, hpopped, I⟩ := ringInv_afterCalls hcap slots (untilWrap w item)
  have htail : o.pushed.length = 2 ^ w := by
    rw [hpushed, untilWrap, hpush.1, List.length_append, hturns]
    exact Nat.sub_add_cancel hword
  have hhead : o.popped.length = 2 ^ w - 1 := by
    rw [hpopped, untilWrap, hpush.2, hturns']
  constructor
  · have hsize := I.toNat_size hcap
    rw [htail, hhead, Nat.div_self hword, Nat.div_eq_of_lt (by omega), if_neg one_ne_zero] at hsize
    exact BitVec.eq_of_toNat_eq hsize
  · rw [← hpushed, ← hpopped, htail, hhead]
    omega

theorem not_sizeExact_untilWrap (item : α) :
    ¬ (afterCalls capacity slots (untilWrap w item)).SizeExact := by
  obtain ⟨hsize, hheld⟩ := size_untilWrap hcap slots item
  have hzero : (0 : BitVec w).toNat = 0 := BitVec.toNat_zero
  rw [History.SizeExact, hsize, hheld, hzero]
  omega

end Turns

/-- The queue of the daemon, which has 1024 slots and 64-bit counters. -/
theorem size_not_exact :
    ¬ (afterCalls (1024 : BitVec 64) (fun _ => 0) (untilWrap 64 0)).SizeExact :=
  @not_sizeExact_untilWrap 64 10 ℕ 1024 (by decide) (fun _ => 0) 0

end Netsim.System.Spsc
