import Mathlib.Data.List.Infix
import Netsim.Foundation.RingCounter

/-!
# The lock-free queue between two threads

`system/event_queue.hpp`: one thread pushes, another pops, and they share two
counters and a ring of slots. A step of either thread is one access to shared
memory, with the local computation after it; any interleaving of the steps of
the two threads is a run. `size_t` has `w` bits.

The counts behind the two counters are ghosts (`Observed`). `RingInv` relates
them, the slots and what each thread has loaded so far; from it follows that the
ring is a bounded queue (`spsc_boundedFifo`) and that every call takes effect at
one of its own steps (`step_refines`).
-/

namespace Netsim.System.Spsc

open Foundation

/-- `SpscRingBuffer<T, Capacity>`. -/
structure SpscRingBuffer (w : ℕ) (α : Type*) where
  buffer : BitVec w → α
  head : BitVec w
  tail : BitVec w

/-- How far a call of `push` has got. -/
inductive Push (w : ℕ) (α : Type*) where
  | idle
  | loadedTail (item : α) (currentTail : BitVec w)
  | loadedHead (item : α) (currentTail currentHead : BitVec w)
  | wrote (item : α) (currentTail : BitVec w)

/-- How far a call of `pop` has got. -/
inductive Pop (w : ℕ) (α : Type*) where
  | idle
  | loadedHead (currentHead : BitVec w)
  | loadedTail (currentHead currentTail : BitVec w)
  | copied (item : α) (currentHead : BitVec w)

/-- The ring, the two threads, and the items of the pushes still to come. -/
structure State (w : ℕ) (α : Type*) where
  ring : SpscRingBuffer w α
  push : Push w α
  pop : Pop w α
  program : List α

/-- What a step shows to an observer: the load of the other thread's counter, and
the return of a call. -/
inductive Event (α : Type*) where
  | silent
  | headLoaded
  | tailLoaded
  | pushed (item : α) (accepted : Bool)
  | popped (item : Option α)

inductive Thread where
  | producer
  | consumer
deriving DecidableEq, Repr

section Model

variable {w : ℕ} {α : Type*}

/-- One step of the producer, which starts the next `push` when it is idle. -/
def pushStep (capacity : BitVec w) (s : State w α) : State w α × Event α :=
  match s.push with
  | .idle =>
      match s.program with
      | [] => (s, .silent)
      | item :: program =>
          ({ s with push := .loadedTail item s.ring.tail, program := program }, .silent)
  | .loadedTail item currentTail =>
      ({ s with push := .loadedHead item currentTail s.ring.head }, .headLoaded)
  | .loadedHead item currentTail currentHead =>
      if currentTail - currentHead ≥ capacity then
        ({ s with push := .idle }, .pushed item false)
      else
        ({ s with
            push := .wrote item currentTail
            ring := { s.ring with
              buffer := Function.update s.ring.buffer (currentTail &&& (capacity - 1)) item } },
          .silent)
  | .wrote item currentTail =>
      ({ s with push := .idle, ring := { s.ring with tail := currentTail + 1 } },
        .pushed item true)

/-- One step of the consumer, which starts a `pop` when it is idle. -/
def popStep (capacity : BitVec w) (s : State w α) : State w α × Event α :=
  match s.pop with
  | .idle => ({ s with pop := .loadedHead s.ring.head }, .silent)
  | .loadedHead currentHead =>
      ({ s with pop := .loadedTail currentHead s.ring.tail }, .tailLoaded)
  | .loadedTail currentHead currentTail =>
      if currentHead = currentTail then ({ s with pop := .idle }, .popped none)
      else
        ({ s with
            pop := .copied (s.ring.buffer (currentHead &&& (capacity - 1))) currentHead },
          .silent)
  | .copied item currentHead =>
      ({ s with pop := .idle, ring := { s.ring with head := currentHead + 1 } },
        .popped (some item))

def step (capacity : BitVec w) (s : State w α) : Thread → State w α × Event α
  | .producer => pushStep capacity s
  | .consumer => popStep capacity s

section Steps

variable {capacity : BitVec w} {ring : SpscRingBuffer w α} {push : Push w α} {pop : Pop w α}
  {program : List α} {item : α} {currentTail currentHead : BitVec w}

theorem pushStep_full (hfull : currentTail - currentHead ≥ capacity) :
    pushStep capacity ⟨ring, .loadedHead item currentTail currentHead, pop, program⟩ =
      (⟨ring, .idle, pop, program⟩, .pushed item false) :=
  if_pos hfull

theorem pushStep_room (hfull : ¬ currentTail - currentHead ≥ capacity) :
    pushStep capacity ⟨ring, .loadedHead item currentTail currentHead, pop, program⟩ =
      (⟨⟨Function.update ring.buffer (currentTail &&& (capacity - 1)) item, ring.head, ring.tail⟩,
        .wrote item currentTail, pop, program⟩, .silent) :=
  if_neg hfull

theorem popStep_empty (hempty : currentHead = currentTail) :
    popStep capacity ⟨ring, push, .loadedTail currentHead currentTail, program⟩ =
      (⟨ring, push, .idle, program⟩, .popped none) :=
  if_pos hempty

theorem popStep_item (hempty : ¬ currentHead = currentTail) :
    popStep capacity ⟨ring, push, .loadedTail currentHead currentTail, program⟩ =
      (⟨ring, push, .copied (ring.buffer (currentHead &&& (capacity - 1))) currentHead, program⟩,
        .silent) :=
  if_neg hempty

end Steps

/-- An empty ring, with whatever its slots hold, and two idle threads. -/
def initial (slots : BitVec w → α) (program : List α) : State w α where
  ring := ⟨slots, 0, 0⟩
  push := .idle
  pop := .idle
  program := program

end Model

/-! ### What has been observed -/

/-- The items whose push returned true, the items popped, and how many items were
in the queue when `push` last loaded `head_` and `pop` last loaded `tail_`. -/
structure Observed (α : Type*) where
  pushed : List α
  popped : List α
  heldAtHeadLoad : ℕ
  heldAtTailLoad : ℕ

namespace Observed

variable {α : Type*}

/-- The number of items in the queue. -/
def held (o : Observed α) : ℕ := o.pushed.length - o.popped.length

/-- The items in the queue, oldest first. -/
def queue (o : Observed α) : List α := o.pushed.drop o.popped.length

def observe (o : Observed α) : Event α → Observed α
  | .silent => o
  | .headLoaded => { o with heldAtHeadLoad := o.held }
  | .tailLoaded => { o with heldAtTailLoad := o.held }
  | .pushed item true => { o with pushed := o.pushed ++ [item] }
  | .pushed _ false => o
  | .popped (some item) => { o with popped := o.popped ++ [item] }
  | .popped none => o

end Observed

variable {w k : ℕ} {α : Type*} {capacity : BitVec w}

/-- One step of a run, observed. -/
def observedStep (capacity : BitVec w) (r : State w α × Observed α) (thread : Thread) :
    State w α × Observed α :=
  ((step capacity r.1 thread).1, r.2.observe (step capacity r.1 thread).2)

/-- The run in which the threads take their steps in the given order. -/
def run (capacity : BitVec w) (slots : BitVec w → α) (program : List α)
    (schedule : List Thread) : State w α × Observed α :=
  schedule.foldl (observedStep capacity) (initial slots program, ⟨[], [], 0, 0⟩)

/-- The slot of the item pushed after `n` others. -/
def slotOf (capacity : BitVec w) (n : ℕ) : BitVec w := counter w n &&& (capacity - 1)

/-! ### The invariant -/

/-- What the producer knows. Its copy of `head_` may be out of date: it counts the
`n` items popped when it was loaded. -/
def PushInv (k : ℕ) (capacity : BitVec w) (buffer : BitVec w → α) (o : Observed α) :
    Push w α → Prop
  | .idle => True
  | .loadedTail _ currentTail => currentTail = counter w o.pushed.length
  | .loadedHead _ currentTail currentHead =>
      currentTail = counter w o.pushed.length ∧ ∃ n, n ≤ o.popped.length ∧
        currentHead = counter w n ∧ o.heldAtHeadLoad = o.pushed.length - n ∧
        o.pushed.length ≤ n + 2 ^ k
  | .wrote item currentTail =>
      currentTail = counter w o.pushed.length ∧ o.pushed.length < o.popped.length + 2 ^ k ∧
        buffer (slotOf capacity o.pushed.length) = item

/-- What the consumer knows. Its copy of `tail_` counts the `m` items pushed when it
was loaded. -/
def PopInv (o : Observed α) : Pop w α → Prop
  | .idle => True
  | .loadedHead currentHead => currentHead = counter w o.popped.length
  | .loadedTail currentHead currentTail =>
      currentHead = counter w o.popped.length ∧ ∃ m, o.popped.length ≤ m ∧
        m ≤ o.pushed.length ∧ currentTail = counter w m ∧ o.heldAtTailLoad = m - o.popped.length
  | .copied item currentHead =>
      currentHead = counter w o.popped.length ∧ o.pushed[o.popped.length]? = some item

structure RingInv (k : ℕ) (capacity : BitVec w) (s : State w α) (o : Observed α) : Prop where
  tail_eq : s.ring.tail = counter w o.pushed.length
  head_eq : s.ring.head = counter w o.popped.length
  popped_prefix : o.popped <+: o.pushed
  held_le : o.pushed.length ≤ o.popped.length + 2 ^ k
  unread : ∀ i item, o.popped.length ≤ i → o.pushed[i]? = some item →
    s.ring.buffer (slotOf capacity i) = item
  push_inv : PushInv k capacity s.ring.buffer o s.push
  pop_inv : PopInv o s.pop

variable {s : State w α} {o : Observed α} {item : α}

theorem ringInv_initial (slots : BitVec w → α) (program : List α) :
    RingInv k capacity (initial slots program) ⟨[], [], 0, 0⟩ where
  tail_eq := rfl
  head_eq := rfl
  popped_prefix := List.prefix_refl _
  held_le := Nat.zero_le _
  unread := by simp
  push_inv := trivial
  pop_inv := trivial

/-! ### One step -/

/-- A push that returns true tells the consumer nothing new. -/
theorem PopInv.pushed_append {pop : Pop w α} (h : PopInv o pop) (item : α) :
    PopInv { o with pushed := o.pushed ++ [item] } pop := by
  cases pop with
  | idle => trivial
  | loadedHead currentHead => exact h
  | loadedTail currentHead currentTail =>
      obtain ⟨hhead, m, hle, hm, htail, hheld⟩ := h
      refine ⟨hhead, m, hle, ?_, htail, hheld⟩
      rw [List.length_append]
      exact Nat.le_add_right_of_le hm
  | copied copy currentHead =>
      obtain ⟨hhead, hcopy⟩ := h
      refine ⟨hhead, ?_⟩
      rw [List.getElem?_append_left (List.getElem?_eq_some_iff.mp hcopy).1]
      exact hcopy

/-- A pop that returns leaves the producer's copy of `head_` further behind. -/
theorem PushInv.popped_append {buffer : BitVec w → α} {push : Push w α}
    (h : PushInv k capacity buffer o push) (item : α) :
    PushInv k capacity buffer { o with popped := o.popped ++ [item] } push := by
  cases push with
  | idle => trivial
  | loadedTail pushItem currentTail => exact h
  | loadedHead pushItem currentTail currentHead =>
      obtain ⟨htail, n, hn, hhead, hheld, hle⟩ := h
      refine ⟨htail, n, ?_, hhead, hheld, hle⟩
      rw [List.length_append]
      exact Nat.le_add_right_of_le hn
  | wrote pushItem currentTail =>
      obtain ⟨htail, hlt, hslot⟩ := h
      refine ⟨htail, ?_, hslot⟩
      rw [List.length_append]
      exact Nat.lt_of_lt_of_le hlt (by omega)

namespace RingInv

/-- The producer's comparison is made on the true counts. -/
theorem full_iff (I : RingInv k capacity s o) (hcap : capacity.toNat = 2 ^ k)
    {currentTail currentHead : BitVec w} (hpc : s.push = .loadedHead item currentTail currentHead) :
    currentTail - currentHead ≥ capacity ↔ o.heldAtHeadLoad = 2 ^ k := by
  have hinv := I.push_inv
  rw [hpc] at hinv
  obtain ⟨rfl, n, hn, rfl, hheld, hle⟩ := hinv
  have hlen := I.popped_prefix.length_le
  rw [ge_iff_le, capacity_le_counter_sub_iff hcap (by omega) hle, hheld]
  omega

/-- No unread item lies in the slot that the producer is about to write. -/
theorem slot_free (I : RingInv k capacity s o) (hcap : capacity.toNat = 2 ^ k)
    {currentTail currentHead : BitVec w} (hpc : s.push = .loadedHead item currentTail currentHead)
    (hfull : ¬ currentTail - currentHead ≥ capacity) {i : ℕ} (hi : o.popped.length ≤ i)
    (hlt : i < o.pushed.length) :
    slotOf capacity i ≠ slotOf capacity o.pushed.length := by
  rw [I.full_iff hcap hpc] at hfull
  have hinv := I.push_inv
  rw [hpc] at hinv
  obtain ⟨-, n, hn, -, hheld, hle⟩ := hinv
  exact slot_ne hcap hlt (by omega)

/-- The consumer's comparison is made on the true counts. -/
theorem empty_iff (I : RingInv k capacity s o) (hcap : capacity.toNat = 2 ^ k)
    {currentHead currentTail : BitVec w} (hpc : s.pop = .loadedTail currentHead currentTail) :
    currentHead = currentTail ↔ o.heldAtTailLoad = 0 := by
  have hinv := I.pop_inv
  rw [hpc] at hinv
  obtain ⟨rfl, m, hle, hm, rfl, hheld⟩ := hinv
  have hpow := two_pow_lt hcap
  have hcount := I.held_le
  rw [counter_inj hle (by omega), hheld]
  omega

theorem push_step (I : RingInv k capacity s o) (hcap : capacity.toNat = 2 ^ k) :
    RingInv k capacity (pushStep capacity s).1 (o.observe (pushStep capacity s).2) := by
  obtain ⟨ring, push, pop, program⟩ := s
  cases push with
  | idle =>
      cases program with
      | nil => exact I
      | cons item program => exact { I with push_inv := I.tail_eq }
  | loadedTail item currentTail =>
      refine ⟨I.tail_eq, I.head_eq, I.popped_prefix, I.held_le, I.unread, ?_, ?_⟩
      · exact ⟨I.push_inv, o.popped.length, le_rfl, I.head_eq, rfl, I.held_le⟩
      · -- what `push` loads is no concern of the consumer's
        have hpop := I.pop_inv
        cases pop <;> exact hpop
  | loadedHead item currentTail currentHead =>
      by_cases hfull : currentTail - currentHead ≥ capacity
      · rw [pushStep_full hfull]
        exact { I with push_inv := trivial }
      · rw [pushStep_room hfull]
        have hfree := fun i => I.slot_free hcap rfl hfull (i := i)
        rw [I.full_iff hcap rfl] at hfull
        obtain ⟨rfl, n, hn, -, hheld, hle⟩ := I.push_inv
        refine ⟨I.tail_eq, I.head_eq, I.popped_prefix, I.held_le, ?_, ?_, I.pop_inv⟩
        · intro i other hi hother
          have hlt := (List.getElem?_eq_some_iff.mp hother).1
          show Function.update ring.buffer (slotOf capacity o.pushed.length) item _ = other
          rw [Function.update_of_ne (hfree i hi hlt)]
          exact I.unread i other hi hother
        · have hroom : o.pushed.length < o.popped.length + 2 ^ k := by omega
          exact ⟨rfl, hroom, Function.update_self _ _ _⟩
  | wrote item currentTail =>
      obtain ⟨rfl, hlt, hslot⟩ := I.push_inv
      refine ⟨?_, I.head_eq, I.popped_prefix.trans (List.prefix_append _ _), ?_, ?_, trivial,
        I.pop_inv.pushed_append item⟩
      · show counter w o.pushed.length + 1 = counter w (o.pushed ++ [item]).length
        rw [counter_add_one, List.length_append]
        rfl
      · show (o.pushed ++ [item]).length ≤ _
        rw [List.length_append]
        exact hlt
      · intro i other hi hother
        change (o.pushed ++ [item])[i]? = some other at hother
        rcases Nat.lt_or_ge i o.pushed.length with hold | hnew
        · rw [List.getElem?_append_left hold] at hother
          exact I.unread i other hi hother
        · rw [List.getElem?_append_right hnew, List.getElem?_singleton] at hother
          split_ifs at hother with heq
          obtain rfl := Option.some.inj hother
          rw [show i = o.pushed.length by omega]
          exact hslot

theorem pop_step (I : RingInv k capacity s o) (hcap : capacity.toNat = 2 ^ k) :
    RingInv k capacity (popStep capacity s).1 (o.observe (popStep capacity s).2) := by
  obtain ⟨ring, push, pop, program⟩ := s
  cases pop with
  | idle => exact { I with pop_inv := I.head_eq }
  | loadedHead currentHead =>
      refine ⟨I.tail_eq, I.head_eq, I.popped_prefix, I.held_le, I.unread, ?_, ?_⟩
      · have hpush := I.push_inv
        cases push <;> exact hpush
      · exact ⟨I.pop_inv, o.pushed.length, I.popped_prefix.length_le, le_rfl, I.tail_eq, rfl⟩
  | loadedTail currentHead currentTail =>
      by_cases hempty : currentHead = currentTail
      · rw [popStep_empty hempty]
        exact { I with pop_inv := trivial }
      · rw [popStep_item hempty]
        rw [I.empty_iff hcap rfl] at hempty
        obtain ⟨rfl, m, hle, hm, -, hheld⟩ := I.pop_inv
        have hlt : o.popped.length < o.pushed.length := by omega
        refine { I with pop_inv := ⟨rfl, ?_⟩ }
        have hitem := List.getElem?_eq_getElem hlt
        show o.pushed[o.popped.length]? = some _
        rw [hitem]
        exact congrArg some (I.unread _ _ le_rfl hitem).symm
  | copied item currentHead =>
      obtain ⟨rfl, hitem⟩ := I.pop_inv
      have hlt := (List.getElem?_eq_some_iff.mp hitem).1
      have hheld := I.held_le
      refine ⟨I.tail_eq, ?_, ?_, ?_, ?_, I.push_inv.popped_append item, trivial⟩
      · show counter w o.popped.length + 1 = counter w (o.popped ++ [item]).length
        rw [counter_add_one, List.length_append]
        rfl
      · show o.popped ++ [item] <+: o.pushed
        have htake : o.popped = o.pushed.take o.popped.length :=
          List.prefix_iff_eq_take.mp I.popped_prefix
        have hnext : o.popped ++ [item] = o.pushed.take (o.popped.length + 1) := by
          rw [List.take_add_one, ← htake, hitem]
          rfl
        rw [hnext]
        exact List.take_prefix _ _
      · show o.pushed.length ≤ (o.popped ++ [item]).length + 2 ^ k
        rw [List.length_append]
        omega
      · intro i other hi hother
        change (o.popped ++ [item]).length ≤ i at hi
        rw [List.length_append] at hi
        exact I.unread i other (by omega) hother

theorem of_run (hcap : capacity.toNat = 2 ^ k) (slots : BitVec w → α) (program : List α)
    (schedule : List Thread) :
    RingInv k capacity (run capacity slots program schedule).1
      (run capacity slots program schedule).2 := by
  induction schedule using List.reverseRecOn with
  | nil => exact ringInv_initial slots program
  | append_singleton schedule thread ih =>
      unfold run at ih ⊢
      rw [List.foldl_append, List.foldl_cons, List.foldl_nil]
      cases thread with
      | producer => exact ih.push_step hcap
      | consumer => exact ih.pop_step hcap

end RingInv

/-! ### The ring is a bounded queue -/

/-- What the two threads have seen and what their next steps can do, on a ring of
`capacity` slots. -/
structure BoundedFifo (capacity : BitVec w) (s : State w α) (o : Observed α) : Prop where
  /-- Items come out in the order in which they went in. -/
  popped_prefix : o.popped <+: o.pushed
  held_le : o.held ≤ capacity.toNat
  /-- An item that is not yet popped is in its slot. -/
  unread : ∀ i item, o.popped.length ≤ i → o.pushed[i]? = some item →
    s.ring.buffer (slotOf capacity i) = item
  /-- `push` writes no slot that holds an item not yet popped. -/
  write_free : ∀ item currentTail, (pushStep capacity s).1.push = .wrote item currentTail →
    ∀ i, o.popped.length ≤ i → i < o.pushed.length →
      slotOf capacity i ≠ currentTail &&& (capacity - 1)
  /-- `push` returns false only if the queue was full when it loaded `head_`. -/
  full : ∀ item, (pushStep capacity s).2 = .pushed item false →
    o.heldAtHeadLoad = capacity.toNat
  /-- `pop` returns empty only if the queue was empty when it loaded `tail_`. -/
  empty : (popStep capacity s).2 = .popped none → o.heldAtTailLoad = 0

theorem RingInv.boundedFifo (I : RingInv k capacity s o) (hcap : capacity.toNat = 2 ^ k) :
    BoundedFifo capacity s o := by
  obtain ⟨ring, push, pop, program⟩ := s
  refine ⟨I.popped_prefix, ?_, I.unread, ?_, ?_, ?_⟩
  · have hheld := I.held_le
    rw [hcap, Observed.held]
    omega
  · intro item currentTail hwrote i hi hlt
    cases push with
    | idle => cases program <;> simp [pushStep] at hwrote
    | loadedTail => simp [pushStep] at hwrote
    | loadedHead pushItem tail head =>
        unfold pushStep at hwrote
        dsimp only at hwrote
        split_ifs at hwrote with hfull
        obtain ⟨-, rfl⟩ := Push.wrote.inj hwrote
        rw [I.push_inv.1]
        exact I.slot_free hcap rfl hfull hi hlt
    | wrote => simp [pushStep] at hwrote
  · intro item hreturn
    cases push with
    | idle => cases program <;> simp [pushStep] at hreturn
    | loadedTail => simp [pushStep] at hreturn
    | loadedHead pushItem tail head =>
        unfold pushStep at hreturn
        dsimp only at hreturn
        split_ifs at hreturn with hfull
        rw [hcap]
        exact (I.full_iff hcap rfl).mp hfull
    | wrote => simp [pushStep] at hreturn
  · intro hreturn
    cases pop with
    | idle => simp [popStep] at hreturn
    | loadedHead => simp [popStep] at hreturn
    | loadedTail head tail =>
        unfold popStep at hreturn
        dsimp only at hreturn
        split_ifs at hreturn with hempty
        exact (I.empty_iff hcap rfl).mp hempty
    | copied => simp [popStep] at hreturn

/-- **The ring buffer is a bounded FIFO queue.** For every capacity that is a power
of two, whatever the slots hold at first, for every sequence of pushes and every
interleaving of the steps of the two threads. -/
theorem spsc_boundedFifo (capacity : BitVec w) (hcap : capacity.toNat = 2 ^ k)
    (slots : BitVec w → α) (program : List α) (schedule : List Thread) :
    BoundedFifo capacity (run capacity slots program schedule).1
      (run capacity slots program schedule).2 :=
  (RingInv.of_run hcap slots program schedule).boundedFifo hcap

/-- Two slots and 64-bit counters: a push overlaps with a pop. -/
theorem spsc_boundedFifo_two :
    BoundedFifo (2 : BitVec 64)
      (run (2 : BitVec 64) (fun _ => 0) [7, 8] [.producer, .consumer, .producer, .producer,
        .producer, .consumer, .consumer]).1
      (run (2 : BitVec 64) (fun _ => 0) [7, 8] [.producer, .consumer, .producer, .producer,
        .producer, .consumer, .consumer]).2 :=
  spsc_boundedFifo (k := 1) (2 : BitVec 64) (by decide) (fun _ => 0) [7, 8] _

/-- What a bounded queue does at an event: the return of a push or a pop that
succeeds is the moment at which it takes effect. -/
def FifoStep (bound : ℕ) (queue : List α) : Event α → List α → Prop
  | .pushed item true, queue' => queue.length < bound ∧ queue' = queue ++ [item]
  | .popped (some item), queue' => queue = item :: queue'
  | _, queue' => queue' = queue

/-- **Every step of a run is a step of the bounded queue.** -/
theorem step_refines (I : RingInv k capacity s o)
    (thread : Thread) :
    FifoStep (2 ^ k) o.queue (step capacity s thread).2
      (o.observe (step capacity s thread).2).queue := by
  obtain ⟨ring, push, pop, program⟩ := s
  cases thread with
  | producer =>
      cases push with
      | idle => cases program <;> rfl
      | loadedTail => rfl
      | loadedHead item tail head =>
          show FifoStep _ _ (pushStep capacity _).2 (o.observe (pushStep capacity _).2).queue
          unfold pushStep
          dsimp only
          split_ifs <;> rfl
      | wrote item tail =>
          obtain ⟨-, hlt, -⟩ := I.push_inv
          have hlen := I.popped_prefix.length_le
          refine ⟨?_, List.drop_append_of_le_length hlen⟩
          rw [Observed.queue, List.length_drop]
          omega
  | consumer =>
      cases pop with
      | idle => rfl
      | loadedHead => rfl
      | loadedTail head tail =>
          show FifoStep _ _ (popStep capacity _).2 (o.observe (popStep capacity _).2).queue
          unfold popStep
          dsimp only
          split_ifs <;> rfl
      | copied item head =>
          obtain ⟨-, hitem⟩ := I.pop_inv
          obtain ⟨hlt, rfl⟩ := List.getElem?_eq_some_iff.mp hitem
          show o.queue = _ :: o.pushed.drop (o.popped ++ [_]).length
          rw [Observed.queue, List.drop_eq_getElem_cons hlt, List.length_append]
          rfl

end Netsim.System.Spsc
