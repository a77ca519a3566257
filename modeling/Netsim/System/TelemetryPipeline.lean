import Netsim.System.SpscRingBuffer
import Netsim.System.TelemetryMonitor

/-!
# The queue and its monitor

The main thread pushes events into the ring while the worker of the monitor drains it.
A turn is one access of either thread to shared memory, or one of the other actions of
the worker and its owner, and any order of turns is a run.

No event is lost or counted twice: each one is still to be pushed, refused by a full
queue, in the queue, or popped and counted once. What `get_latest_metrics` returns are
always the figures of some first part of the popped events; when they are published,
that is all of them, and no event was left in the queue when the drain last looked
(`run_snapshot`).
-/

namespace Netsim.System.Pipeline

open Foundation Spsc Telemetry

variable {w k : ℕ} {α : Type*}

structure State (w : ℕ) (α : Type*) where
  queue : Spsc.State w α
  monitor : TelemetryMonitor
  /-- The last pop of the draining loop found nothing. -/
  drainEnded : Bool

inductive Turn where
  | producer
  /-- The worker goes on with `queue_.pop()`. -/
  | consumer
  | control (action : Telemetry.Action)

/-- One turn, `none` where it cannot happen. The monitor reads an event of the queue
through `read`. -/
def step (capacity : BitVec w) (read : α → MetricEvent) (s : State w α) :
    Turn → Option (State w α × Event α)
  | .producer =>
      let (queue, event) := pushStep capacity s.queue
      some ({ s with queue := queue }, event)
  | .consumer =>
      match s.monitor.worker, s.drainEnded with
      | .draining _, false =>
          let (queue, event) := popStep capacity s.queue
          match event with
          | .popped (some item) =>
              some ({ s with queue := queue, monitor := s.monitor.account (read item) }, event)
          | .popped none => some ({ s with queue := queue, drainEnded := true }, event)
          | _ => some ({ s with queue := queue }, event)
      | _, _ => none
  | .control action =>
      match action with
      | .pop _ => none
      | .drained now =>
          if s.drainEnded then
            (s.monitor.step (.drained now)).map fun monitor =>
              ({ s with monitor := monitor, drainEnded := false }, .silent)
          else none
      | _ => (s.monitor.step action).map fun monitor => ({ s with monitor := monitor }, .silent)

def initial (slots : BitVec w → α) (program : List α) : State w α :=
  ⟨Spsc.initial slots program, TelemetryMonitor.initial, false⟩

/-! ### What has been observed -/

/-- The queue's history, the pushes that have returned with their answers, and what had
been pushed when `pop` last loaded `tail_`. -/
structure Trace (α : Type*) where
  observed : Observed α
  returned : List (α × Bool)
  seen : List α

def Trace.observe (t : Trace α) (event : Event α) : Trace α where
  observed := t.observed.observe event
  returned :=
    match event with
    | .pushed item accepted => t.returned ++ [(item, accepted)]
    | _ => t.returned
  seen :=
    match event with
    | .tailLoaded => t.observed.pushed
    | _ => t.seen

def observedStep (capacity : BitVec w) (read : α → MetricEvent) (r : State w α × Trace α)
    (turn : Turn) : Option (State w α × Trace α) :=
  (step capacity read r.1 turn).map fun next => (next.1, r.2.observe next.2)

def run (capacity : BitVec w) (read : α → MetricEvent) (slots : BitVec w → α) (program : List α)
    (turns : List Turn) : Option (State w α × Trace α) :=
  turns.foldlM (observedStep capacity read) (initial slots program, ⟨⟨[], [], 0, 0⟩, [], []⟩)

/-- The item of the push under way. -/
def inFlight : Push w α → List α
  | .idle => []
  | .loadedTail item _ => [item]
  | .loadedHead item _ _ => [item]
  | .wrote item _ => [item]

/-! ### The invariant -/

variable {capacity : BitVec w} {read : α → MetricEvent} {program : List α}
  {s s' : State w α} {t t' : Trace α}

/-- Every push that was due is under way, has returned, or is still to come. -/
structure Offered (program : List α) (queue : Spsc.State w α) (t : Trace α) : Prop where
  program_eq : program = t.returned.map Prod.fst ++ inFlight queue.push ++ queue.program
  pushed_eq : t.observed.pushed = (t.returned.filter Prod.snd).map Prod.fst

/-- What the drain has seen of the queue. -/
structure Seen (s : State w α) (t : Trace α) : Prop where
  loaded : ∀ currentHead currentTail, s.queue.pop = .loadedTail currentHead currentTail →
    t.seen <+: t.observed.pushed ∧ t.observed.popped.length ≤ t.seen.length ∧
      t.observed.heldAtTailLoad = t.seen.length - t.observed.popped.length
  ended : s.drainEnded = true → t.observed.popped = t.seen

/-- The figures published last are those of some first part of the popped events. -/
def Published (read : α → MetricEvent) (stats : AggregatedMetrics) (popped : List α) : Prop :=
  ∃ n, Accounting stats ((popped.take n).map read)

structure Inv (k : ℕ) (capacity : BitVec w) (read : α → MetricEvent) (program : List α)
    (s : State w α) (t : Trace α) : Prop where
  ring : RingInv k capacity s.queue t.observed
  offered : Offered program s.queue t
  seen : Seen s t
  accounts : Accounts s.monitor (t.observed.popped.map read)
  published : Published read s.monitor.stats t.observed.popped

/-! ### One turn -/

/-- **All that one turn can do.** -/
inductive Effect (capacity : BitVec w) (read : α → MetricEvent) (s s' : State w α) :
    Event α → Prop where
  | pushed (hs : s' = { s with queue := (pushStep capacity s.queue).1 }) :
      Effect capacity read s s' (pushStep capacity s.queue).2
  | popped (item : α) (hended : s.drainEnded = false)
      (hpop : popStep capacity s.queue = (s'.queue, .popped (some item)))
      (hmonitor : s'.monitor = s.monitor.account (read item)) (hended' : s'.drainEnded = false) :
      Effect capacity read s s' (.popped (some item))
  | empty (hended : s.drainEnded = false)
      (hpop : popStep capacity s.queue = (s'.queue, .popped none))
      (hmonitor : s'.monitor = s.monitor) : Effect capacity read s s' (.popped none)
  | loaded (event : Event α) (hended : s.drainEnded = false)
      (hpop : popStep capacity s.queue = (s'.queue, event)) (hevent : ∀ item, event ≠ .popped item)
      (hmonitor : s'.monitor = s.monitor) (hended' : s'.drainEnded = false) :
      Effect capacity read s s' event
  | control (action : Telemetry.Action) (hevent : action.event = none)
      (hqueue : s'.queue = s.queue) (hmonitor : s.monitor.step action = some s'.monitor)
      (hended : s'.drainEnded = true → s.drainEnded = true) : Effect capacity read s s' .silent

theorem step_effect {turn : Turn} {event : Event α}
    (h : step capacity read s turn = some (s', event)) : Effect capacity read s s' event := by
  cases turn with
  | producer =>
      obtain ⟨rfl, rfl⟩ := Prod.mk.inj (Option.some.inj h)
      exact .pushed rfl
  | consumer =>
      unfold step at h
      dsimp only at h
      split at h
      · rename_i hworker hended
        split at h
        · rename_i item hevent
          obtain ⟨rfl, rfl⟩ := Prod.mk.inj (Option.some.inj h)
          rw [hevent]
          exact .popped item hended (Prod.ext rfl hevent) rfl hended
        · rename_i hevent
          obtain ⟨rfl, rfl⟩ := Prod.mk.inj (Option.some.inj h)
          rw [hevent]
          exact .empty hended (Prod.ext rfl hevent) rfl
        · rename_i hsome hnone
          obtain ⟨rfl, rfl⟩ := Prod.mk.inj (Option.some.inj h)
          refine .loaded _ hended rfl (fun item => ?_) rfl hended
          cases item with
          | some item => exact hsome item
          | none => exact hnone
      · exact absurd h (by simp)
  | control action =>
      cases action with
      | pop event => exact absurd h (by simp [step])
      | drained now =>
          unfold step at h
          dsimp only at h
          split_ifs at h with hended
          obtain ⟨monitor, hmonitor, heq⟩ := Option.map_eq_some_iff.mp h
          obtain ⟨rfl, rfl⟩ := Prod.mk.inj heq
          exact .control (.drained now) rfl rfl hmonitor (by simp)
      | start =>
          obtain ⟨monitor, hmonitor, heq⟩ := Option.map_eq_some_iff.mp h
          obtain ⟨rfl, rfl⟩ := Prod.mk.inj heq
          exact .control .start rfl rfl hmonitor id
      | stop =>
          obtain ⟨rfl, rfl⟩ := Prod.mk.inj (Option.some.inj h)
          exact .control .stop rfl rfl rfl id
      | begin now =>
          obtain ⟨monitor, hmonitor, heq⟩ := Option.map_eq_some_iff.mp h
          obtain ⟨rfl, rfl⟩ := Prod.mk.inj heq
          exact .control (.begin now) rfl rfl hmonitor id
      | check =>
          obtain ⟨monitor, hmonitor, heq⟩ := Option.map_eq_some_iff.mp h
          obtain ⟨rfl, rfl⟩ := Prod.mk.inj heq
          exact .control .check rfl rfl hmonitor id

/-! ### The parts of the invariant -/

theorem Offered.pushStep (h : Offered program s.queue t) :
    Offered program (pushStep capacity s.queue).1 (t.observe (pushStep capacity s.queue).2) := by
  obtain ⟨⟨ring, push, pop, rest⟩, monitor, ended⟩ := s
  obtain ⟨hprogram, hpushed⟩ := h
  cases push with
  | idle =>
      cases rest with
      | nil => exact ⟨hprogram, hpushed⟩
      | cons item rest =>
          exact ⟨by simpa [inFlight, Trace.observe, Spsc.pushStep] using hprogram, hpushed⟩
  | loadedTail item currentTail => exact ⟨hprogram, hpushed⟩
  | loadedHead item currentTail currentHead =>
      by_cases hfull : currentTail - currentHead ≥ capacity
      · rw [pushStep_full hfull]
        refine ⟨by simpa [inFlight, Trace.observe] using hprogram, ?_⟩
        simpa [Trace.observe, Observed.observe] using hpushed
      · rw [pushStep_room hfull]
        exact ⟨hprogram, hpushed⟩
  | wrote item currentTail =>
      refine ⟨by simpa [inFlight, Trace.observe, Spsc.pushStep] using hprogram, ?_⟩
      simp [Trace.observe, Observed.observe, Spsc.pushStep, hpushed]

/-- A pop changes nothing on the producer's side. -/
theorem popStep_offered {queue : Spsc.State w α} {event : Event α}
    (h : popStep capacity s.queue = (queue, event)) :
    queue.push = s.queue.push ∧ queue.program = s.queue.program ∧
      (t.observe event).returned = t.returned ∧
      (t.observe event).observed.pushed = t.observed.pushed := by
  obtain ⟨⟨ring, push, pop, rest⟩, monitor, ended⟩ := s
  cases pop with
  | idle =>
      obtain ⟨rfl, rfl⟩ := Prod.mk.inj h
      exact ⟨rfl, rfl, rfl, rfl⟩
  | loadedHead currentHead =>
      obtain ⟨rfl, rfl⟩ := Prod.mk.inj h
      exact ⟨rfl, rfl, rfl, rfl⟩
  | loadedTail currentHead currentTail =>
      by_cases hempty : currentHead = currentTail
      · rw [popStep_empty hempty] at h
        obtain ⟨rfl, rfl⟩ := Prod.mk.inj h
        exact ⟨rfl, rfl, rfl, rfl⟩
      · rw [popStep_item hempty] at h
        obtain ⟨rfl, rfl⟩ := Prod.mk.inj h
        exact ⟨rfl, rfl, rfl, rfl⟩
  | copied item currentHead =>
      obtain ⟨rfl, rfl⟩ := Prod.mk.inj h
      exact ⟨rfl, rfl, rfl, rfl⟩

theorem Offered.popStep {queue : Spsc.State w α} {event : Event α} (h : Offered program s.queue t)
    (hpop : Spsc.popStep capacity s.queue = (queue, event)) :
    Offered program queue (t.observe event) := by
  obtain ⟨hpush, hprogram, hreturned, hpushed⟩ := popStep_offered (t := t) hpop
  refine ⟨?_, ?_⟩
  · rw [hreturned, hpush, hprogram]
    exact h.program_eq
  · rw [hreturned, hpushed]
    exact h.pushed_eq

/-- The producer is not seen by the pop under way. -/
theorem Seen.pushStep (h : Seen s t) :
    Seen { s with queue := (pushStep capacity s.queue).1 }
      (t.observe (pushStep capacity s.queue).2) := by
  obtain ⟨⟨ring, push, pop, rest⟩, monitor, ended⟩ := s
  obtain ⟨hloaded, hended⟩ := h
  cases push with
  | idle => cases rest <;> exact ⟨hloaded, hended⟩
  | loadedTail item currentTail => exact ⟨hloaded, hended⟩
  | loadedHead item currentTail currentHead =>
      by_cases hfull : currentTail - currentHead ≥ capacity
      · rw [pushStep_full hfull]
        exact ⟨hloaded, hended⟩
      · rw [pushStep_room hfull]
        exact ⟨hloaded, hended⟩
  | wrote item currentTail =>
      refine ⟨fun currentHead currentTail hpop => ?_, hended⟩
      obtain ⟨hseen, hlength, hheld⟩ := hloaded currentHead currentTail hpop
      exact ⟨hseen.trans (List.prefix_append _ _), hlength, hheld⟩

theorem Seen.popStep (I : RingInv k capacity s.queue t.observed) {event : Event α}
    (h : Seen s t) (hended : s.drainEnded = false)
    (hpop : Spsc.popStep capacity s.queue = (s'.queue, event))
    (hevent : event ≠ .popped none) (hended' : s'.drainEnded = false) :
    Seen s' (t.observe event) := by
  obtain ⟨⟨ring, push, pop, rest⟩, monitor, ended⟩ := s
  obtain ⟨queue', monitor', ended'⟩ := s'
  obtain rfl : ended' = false := hended'
  refine ⟨?_, by simp⟩
  cases pop with
  | idle =>
      obtain ⟨rfl, rfl⟩ := Prod.mk.inj hpop
      exact fun _ _ hload => absurd hload (by simp)
  | loadedHead currentHead =>
      obtain ⟨rfl, rfl⟩ := Prod.mk.inj hpop
      exact fun _ _ _ => ⟨List.prefix_refl _, I.popped_prefix.length_le, rfl⟩
  | loadedTail currentHead currentTail =>
      by_cases hempty : currentHead = currentTail
      · rw [popStep_empty hempty] at hpop
        exact absurd (Prod.mk.inj hpop).2.symm hevent
      · rw [popStep_item hempty] at hpop
        obtain ⟨rfl, rfl⟩ := Prod.mk.inj hpop
        exact fun _ _ hload => absurd hload (by simp)
  | copied item currentHead =>
      obtain ⟨rfl, rfl⟩ := Prod.mk.inj hpop
      exact fun _ _ hload => absurd hload (by simp)

/-- A pop that finds nothing has seen everything popped. -/
theorem Seen.popStep_none (I : RingInv k capacity s.queue t.observed)
    (hcap : capacity.toNat = 2 ^ k) (h : Seen s t)
    (hpop : Spsc.popStep capacity s.queue = (s'.queue, .popped none)) :
    Seen s' (t.observe (.popped none)) := by
  obtain ⟨⟨ring, push, pop, rest⟩, monitor, ended⟩ := s
  obtain ⟨queue', monitor', ended'⟩ := s'
  cases pop with
  | idle => exact absurd (Prod.mk.inj hpop).2 (by simp)
  | loadedHead currentHead => exact absurd (Prod.mk.inj hpop).2 (by simp)
  | copied item currentHead => exact absurd (Prod.mk.inj hpop).2 (by simp)
  | loadedTail currentHead currentTail =>
      by_cases hempty : currentHead = currentTail
      · rw [popStep_empty hempty] at hpop
        obtain ⟨rfl, -⟩ := Prod.mk.inj hpop
        obtain ⟨hseen, hlength, hheld⟩ := h.loaded currentHead currentTail rfl
        have hnone := (I.empty_iff hcap rfl).mp hempty
        refine ⟨fun _ _ hload => absurd hload (by simp), fun _ => ?_⟩
        -- both are first parts of what has been pushed, of one length
        have hle : t.seen.length ≤ t.observed.popped.length := by omega
        exact (List.prefix_of_prefix_length_le I.popped_prefix hseen hlength).eq_of_length
          (Nat.le_antisymm hlength hle)
      · rw [popStep_item hempty] at hpop
        exact absurd (Prod.mk.inj hpop).2 (by simp)

theorem Published.append {stats : AggregatedMetrics} {popped : List α}
    (h : Published read stats popped) (item : α) : Published read stats (popped ++ [item]) := by
  obtain ⟨n, h⟩ := h
  rcases Nat.le_total n popped.length with hle | hle
  · exact ⟨n, by rwa [List.take_append_of_le_length hle]⟩
  · refine ⟨popped.length, ?_⟩
    rw [List.take_of_length_le hle] at h
    rwa [List.take_left]

theorem published_initial (popped : List α) :
    Published read TelemetryMonitor.initial.stats popped := by
  have hword : successfulWord [] = 0 := rfl
  have hzero : averageLatency [] = 0 := by simp [averageLatency, hword]
  unfold TelemetryMonitor.initial
  refine ⟨0, ⟨rfl, rfl, fun _ => UInt64.le_refl _, rfl, ?_, fun _ _ => ?_⟩⟩
  · rw [List.take_zero, List.map_nil, if_pos hword]
  · rw [List.take_zero, List.map_nil, hzero, Binary64.ofRat_zero]

/-- Only the end of an iteration publishes, and then everything popped. -/
theorem Published.control {action : Telemetry.Action} {monitor : TelemetryMonitor}
    {popped : List α} (h : Published read s.monitor.stats popped)
    (haccounts : Accounts s.monitor (popped.map read)) (hevent : action.event = none)
    (hmonitor : s.monitor.step action = some monitor) : Published read monitor.stats popped := by
  rcases TelemetryMonitor.step_cases hmonitor with
    ⟨event, rfl, -⟩ | ⟨lastTime, now, rfl, -, rfl⟩ | ⟨-, running, worker, rfl⟩
  · exact absurd hevent (by simp [Telemetry.Action.event])
  · unfold TelemetryMonitor.endIteration
    dsimp only
    split_ifs
    · refine ⟨popped.length, ?_⟩
      rw [List.take_length]
      exact accounting_publish haccounts _
    · exact h
  · exact h

/-! ### Runs -/

theorem popped_observe {event : Event α} (hevent : ∀ item, event ≠ .popped item) :
    (t.observe event).observed.popped = t.observed.popped := by
  cases event with
  | popped item => exact absurd rfl (hevent item)
  | pushed item accepted => cases accepted <;> rfl
  | _ => rfl

theorem pushStep_ne_popped (s : Spsc.State w α) (item : Option α) :
    (pushStep capacity s).2 ≠ .popped item := by
  obtain ⟨ring, push, pop, program⟩ := s
  cases push with
  | idle => cases program <;> simp [pushStep]
  | loadedHead pushItem currentTail currentHead =>
      by_cases hfull : currentTail - currentHead ≥ capacity
      · simp [pushStep_full hfull]
      · simp [pushStep_room hfull]
  | _ => simp [pushStep]

theorem Inv.step (I : Inv k capacity read program s t) (hcap : capacity.toNat = 2 ^ k)
    {event : Event α} (h : Effect capacity read s s' event) :
    Inv k capacity read program s' (t.observe event) := by
  cases h with
  | pushed hs =>
      subst hs
      have hpopped : (t.observe (Spsc.pushStep capacity s.queue).2).observed.popped =
          t.observed.popped := popped_observe (pushStep_ne_popped s.queue)
      refine ⟨I.ring.push_step hcap, I.offered.pushStep, I.seen.pushStep, ?_, ?_⟩
      · rw [hpopped]
        exact I.accounts
      · rw [hpopped]
        exact I.published
  | popped item hended hpop hmonitor hended' =>
      have hring := I.ring.pop_step hcap
      rw [hpop] at hring
      refine ⟨hring, I.offered.popStep hpop,
        I.seen.popStep I.ring hended hpop (by simp) hended', ?_, ?_⟩
      · rw [hmonitor]
        show Accounts _ ((t.observed.popped ++ [item]).map read)
        rw [List.map_append]
        exact I.accounts.account _
      · have hstats : s'.monitor.stats = s.monitor.stats := by
          rw [hmonitor]
          unfold TelemetryMonitor.account
          dsimp only
          split <;> rfl
        rw [hstats]
        exact I.published.append item
  | empty hended hpop hmonitor =>
      have hring := I.ring.pop_step hcap
      rw [hpop] at hring
      refine ⟨hring, I.offered.popStep hpop, I.seen.popStep_none I.ring hcap hpop, ?_, ?_⟩
      · rw [hmonitor]
        exact I.accounts
      · rw [hmonitor]
        exact I.published
  | loaded event hended hpop hevent hmonitor hended' =>
      have hring := I.ring.pop_step hcap
      rw [hpop] at hring
      have hpopped := popped_observe (t := t) hevent
      refine ⟨hring, I.offered.popStep hpop,
        I.seen.popStep I.ring hended hpop (hevent none) hended', ?_, ?_⟩
      · rw [hmonitor, hpopped]
        exact I.accounts
      · rw [hmonitor, hpopped]
        exact I.published
  | control action hevent hqueue hmonitor hended =>
      refine ⟨hqueue ▸ I.ring, hqueue ▸ I.offered, ⟨hqueue ▸ I.seen.loaded,
        fun h => I.seen.ended (hended h)⟩, ?_, I.published.control I.accounts hevent hmonitor⟩
      have haccounts := I.accounts.step hmonitor
      rw [hevent, Option.toList_none, List.append_nil] at haccounts
      exact haccounts

theorem inv_initial (slots : BitVec w → α) (program : List α) :
    Inv k capacity read program (initial slots program) ⟨⟨[], [], 0, 0⟩, [], []⟩ where
  ring := ringInv_initial slots program
  offered := ⟨rfl, rfl⟩
  seen := ⟨fun _ _ hload => absurd hload (by simp [initial, Spsc.initial]), fun _ => rfl⟩
  accounts := ⟨rfl, rfl, rfl, rfl⟩
  published := published_initial []

theorem inv_run (hcap : capacity.toNat = 2 ^ k) {slots : BitVec w → α} (turns : List Turn) :
    ∀ {s : State w α} {t : Trace α}, run capacity read slots program turns = some (s, t) →
      Inv k capacity read program s t := by
  induction turns using List.reverseRecOn with
  | nil =>
      intro s t h
      obtain ⟨rfl, rfl⟩ := Prod.mk.inj (Option.some.inj h)
      exact inv_initial slots program
  | append_singleton turns turn ih =>
      intro s' t' h
      unfold run at h ih
      rw [List.foldlM_append] at h
      obtain ⟨⟨s, t⟩, hbefore, hlast⟩ := Option.bind_eq_some_iff.mp h
      have hstep : observedStep capacity read (s, t) turn = some (s', t') := by simpa using hlast
      obtain ⟨⟨next, event⟩, hnext, heq⟩ := Option.map_eq_some_iff.mp hstep
      obtain ⟨rfl, rfl⟩ := Prod.mk.inj heq
      exact (ih hbefore).step hcap (step_effect hnext)

/-- What holds after every run, on a ring of `capacity` slots. -/
structure Snapshot (capacity : BitVec w) (read : α → MetricEvent) (program : List α)
    (s : State w α) (t : Trace α) : Prop where
  /-- Every event has been offered once, is being offered, or is still to come. -/
  offered : program = t.returned.map Prod.fst ++ inFlight s.queue.push ++ s.queue.program
  /-- Those that were accepted have been popped, in order, or are in the queue. -/
  accepted : (t.returned.filter Prod.snd).map Prod.fst = t.observed.popped ++ t.observed.queue
  bounded : t.observed.queue.length ≤ capacity.toNat
  /-- Those that were popped have been counted, once each. -/
  counted : Accounts s.monitor (t.observed.popped.map read)
  /-- What `get_latest_metrics` returns. -/
  published : ∃ n, Accounting s.monitor.stats ((t.observed.popped.take n).map read)
  /-- What is published when the drain has ended: all that had been pushed when it last
  looked. -/
  publishes : ∀ now s' event, step capacity read s (.control (.drained now)) = some (s', event) →
    s.monitor.publishesAt now = true →
      t.observed.popped = t.seen ∧ Accounting s'.monitor.stats (t.seen.map read)

theorem Inv.snapshot (I : Inv k capacity read program s t) (hcap : capacity.toNat = 2 ^ k) :
    Snapshot capacity read program s t := by
  have B := I.ring.boundedFifo hcap
  refine ⟨I.offered.program_eq, ?_, ?_, I.accounts, I.published, ?_⟩
  · rw [← I.offered.pushed_eq]
    obtain ⟨rest, hrest⟩ := B.popped_prefix
    rw [Observed.queue, ← hrest, List.drop_left]
  · rw [Observed.queue, List.length_drop]
    exact B.held_le
  · intro now s' event hstep hpublish
    unfold Pipeline.step at hstep
    dsimp only at hstep
    split_ifs at hstep with hended
    obtain ⟨monitor, hmonitor, heq⟩ := Option.map_eq_some_iff.mp hstep
    obtain ⟨rfl, rfl⟩ := Prod.mk.inj heq
    have hseen := I.seen.ended hended
    refine ⟨hseen, ?_⟩
    rw [← hseen]
    obtain ⟨lastTime, hworker, hms⟩ := TelemetryMonitor.publishesAt_iff.mp hpublish
    simp only [TelemetryMonitor.step, hworker, TelemetryMonitor.endIteration, if_pos hms]
      at hmonitor
    rw [← Option.some.inj hmonitor]
    exact accounting_publish I.accounts _

/-- **No event is lost or counted twice**, for every capacity that is a power of two, every
sequence of events and every order of the turns of the two threads and the owner. -/
theorem run_snapshot (capacity : BitVec w) (hcap : capacity.toNat = 2 ^ k)
    (read : α → MetricEvent) (slots : BitVec w → α) (program : List α) (turns : List Turn)
    {s : State w α} {t : Trace α} (h : run capacity read slots program turns = some (s, t)) :
    Snapshot capacity read program s t :=
  (inv_run hcap turns h).snapshot hcap

/-- A packet and a drop; the second is pushed while the first is drained. -/
def overlappingTurns : List Turn :=
  List.replicate 4 .producer ++ [.control .start, .control (.begin 0), .control .check] ++
    List.replicate 2 .producer ++ List.replicate 4 .consumer ++ List.replicate 3 .consumer ++
    List.replicate 2 .producer ++ [.control (.drained 200000000), .control .check]

theorem run_snapshot_overlapping : ∃ s t,
    run (1024 : BitVec 64) id (fun _ => ⟨0, 0, false⟩) [⟨1000, 120, false⟩, ⟨0, 0, true⟩]
      overlappingTurns = some (s, t) ∧
    Snapshot (1024 : BitVec 64) id [⟨1000, 120, false⟩, ⟨0, 0, true⟩] s t :=
  ⟨_, _, rfl, run_snapshot (k := 10) (1024 : BitVec 64) (by decide) id (fun _ => ⟨0, 0, false⟩)
    [⟨1000, 120, false⟩, ⟨0, 0, true⟩] overlappingTurns rfl⟩

end Netsim.System.Pipeline
