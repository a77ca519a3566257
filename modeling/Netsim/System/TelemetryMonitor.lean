import Mathlib.Data.List.Induction
import Netsim.Foundation.Binary64

/-!
# The telemetry monitor

`system/monitor.cpp`: a worker thread pops metric events into four running counters
and, once 100 ms have passed since the last time, publishes what they amount to. Three
counters run on for the life of the monitor. The fourth counts the bytes of one interval
only; what it held is added to the published total. `stop` joins the worker and `start`
spawns another, over the same counters.

A run is any order of the worker's actions and its owner's. `Accounts` relates the
counters to the events popped so far, whichever iterations have published.
-/

namespace Netsim.System.Telemetry

open Foundation

/-- What the monitor reads of an event. -/
structure MetricEvent where
  packetSize : UInt32
  latencyNs : UInt64
  dropped : Bool
deriving DecidableEq, Repr

structure AggregatedMetrics where
  averageLatencyNs : Binary64
  totalPackets : UInt64
  totalBytes : UInt64
  droppedPackets : UInt64
  throughputKbps : Binary64
deriving DecidableEq, Repr

/-- Where the worker thread stands in `monitor_loop`, with its local `last_time` in
nanoseconds. -/
inductive Worker where
  | none
  | spawned
  | loopHead (lastTime : ℤ)
  | draining (lastTime : ℤ)
deriving DecidableEq, Repr

structure TelemetryMonitor where
  running : Bool
  worker : Worker
  stats : AggregatedMetrics
  cumulativeLatencyNs : UInt64
  cumulativePackets : UInt64
  cumulativeBytes : UInt64
  cumulativeDropped : UInt64
deriving DecidableEq, Repr

inductive Action where
  | start
  | stop
  /-- The new thread reads the clock. -/
  | begin (now : ℤ)
  /-- The worker reads `running_` at the head of its loop. -/
  | check
  | pop (event : MetricEvent)
  /-- The queue is empty: the worker reads the clock and ends the iteration. -/
  | drained (now : ℤ)
deriving DecidableEq, Repr

def Action.event : Action → Option MetricEvent
  | .pop event => some event
  | _ => none

/-- The events popped in a run, in order. -/
def popped (actions : List Action) : List MetricEvent := actions.filterMap Action.event

namespace TelemetryMonitor

/-- The monitor as it is constructed. -/
def initial : TelemetryMonitor where
  running := false
  worker := .none
  stats := ⟨Binary64.ofInt 0, 0, 0, 0, Binary64.ofInt 0⟩
  cumulativeLatencyNs := 0
  cumulativePackets := 0
  cumulativeBytes := 0
  cumulativeDropped := 0

/-- The body of the draining loop. -/
def account (m : TelemetryMonitor) (event : MetricEvent) : TelemetryMonitor :=
  let m :=
    if !event.dropped then
      { m with
        cumulativeLatencyNs := m.cumulativeLatencyNs + event.latencyNs
        cumulativeBytes := m.cumulativeBytes + event.packetSize.toUInt64 }
    else { m with cumulativeDropped := m.cumulativeDropped + 1 }
  { m with cumulativePackets := m.cumulativePackets + 1 }

/-- Whole milliseconds between two readings of the clock. -/
def elapsedMs (lastTime now : ℤ) : ℤ := (now - lastTime).tdiv 1000000

/-- The block under `stats_mutex_`. -/
def publish (m : TelemetryMonitor) (elapsed : ℤ) : TelemetryMonitor :=
  let successfulPackets := m.cumulativePackets - m.cumulativeDropped
  let elapsedSec := Binary64.div (.ofInt elapsed) (.ofInt 1000)
  let stats : AggregatedMetrics :=
    { totalPackets := m.cumulativePackets
      droppedPackets := m.cumulativeDropped
      totalBytes := m.stats.totalBytes + m.cumulativeBytes
      averageLatencyNs :=
        if successfulPackets > 0 then
          Binary64.div (.ofUInt64 m.cumulativeLatencyNs) (.ofUInt64 successfulPackets)
        else .ofInt 0
      throughputKbps :=
        if Binary64.lt (.ofInt 0) elapsedSec then
          Binary64.div (.mul (.ofUInt64 m.cumulativeBytes) (.ofInt 8))
            (.mul elapsedSec (.ofInt 1000))
        else .ofInt 0 }
  { m with stats := stats, cumulativeBytes := 0 }

/-- The rest of an iteration, once the queue is empty. -/
def endIteration (m : TelemetryMonitor) (lastTime now : ℤ) : TelemetryMonitor :=
  let elapsed := elapsedMs lastTime now
  if elapsed ≥ 100 then { m.publish elapsed with worker := .loopHead now }
  else { m with worker := .loopHead lastTime }

/-- One action, `none` where it cannot happen. -/
def step (m : TelemetryMonitor) : Action → Option TelemetryMonitor
  | .start =>
      if m.running then some m
      else
        match m.worker with
        | .none => some { m with running := true, worker := .spawned }
        -- the owner is still in the `join` of its `stop`
        | _ => none
  | .stop => some { m with running := false }
  | .begin now =>
      match m.worker with
      | .spawned => some { m with worker := .loopHead now }
      | _ => none
  | .check =>
      match m.worker with
      | .loopHead lastTime =>
          some { m with worker := if m.running then .draining lastTime else .none }
      | _ => none
  | .pop event =>
      match m.worker with
      | .draining _ => some (m.account event)
      | _ => none
  | .drained now =>
      match m.worker with
      | .draining lastTime => some (m.endIteration lastTime now)
      | _ => none

/-- An action pops an event, ends an iteration, or moves only the threads. -/
theorem step_cases {m m' : TelemetryMonitor} {action : Action} (h : m.step action = some m') :
    (∃ event, action = .pop event ∧ m' = m.account event) ∨
    (∃ lastTime now, action = .drained now ∧ m.worker = .draining lastTime ∧
      m' = m.endIteration lastTime now) ∨
    (action.event = none ∧ ∃ running worker,
      m' = { m with running := running, worker := worker }) := by
  cases action with
  | pop event =>
      left
      simp only [step] at h
      split at h
      · exact ⟨event, rfl, (Option.some.inj h).symm⟩
      · exact nomatch h
  | drained now =>
      right; left
      simp only [step] at h
      split at h
      · exact ⟨_, now, rfl, ‹_›, (Option.some.inj h).symm⟩
      · exact nomatch h
  | start =>
      right; right
      simp only [step] at h
      split at h
      · exact ⟨rfl, m.running, m.worker, (Option.some.inj h).symm⟩
      · split at h
        · exact ⟨rfl, true, .spawned, (Option.some.inj h).symm⟩
        · exact nomatch h
  | stop =>
      right; right
      exact ⟨rfl, false, m.worker, (Option.some.inj h).symm⟩
  | begin now =>
      right; right
      simp only [step] at h
      split at h
      · exact ⟨rfl, m.running, .loopHead now, (Option.some.inj h).symm⟩
      · exact nomatch h
  | check =>
      right; right
      simp only [step] at h
      split at h
      · exact ⟨rfl, m.running, _, (Option.some.inj h).symm⟩
      · exact nomatch h

def run (m : TelemetryMonitor) (actions : List Action) : Option TelemetryMonitor :=
  actions.foldlM step m

/-- The iteration that ends at `now` publishes. -/
def publishesAt (m : TelemetryMonitor) (now : ℤ) : Bool :=
  match m.worker with
  | .draining lastTime => decide (elapsedMs lastTime now ≥ 100)
  | _ => false

theorem publishesAt_iff {m : TelemetryMonitor} {now : ℤ} : m.publishesAt now = true ↔
    ∃ lastTime, m.worker = .draining lastTime ∧ elapsedMs lastTime now ≥ 100 := by
  unfold publishesAt
  split
  · rename_i lastTime hworker
    simp [hworker]
  · rename_i hworker
    simpa using fun lastTime h => absurd h (hworker lastTime)

end TelemetryMonitor

open TelemetryMonitor

/-! ### What the figures should be -/

def successful (events : List MetricEvent) : List MetricEvent :=
  events.filter (fun event => !event.dropped)

def droppedCount (events : List MetricEvent) : ℕ := events.countP (fun event => event.dropped)

def latencySum (events : List MetricEvent) : ℕ :=
  ((successful events).map (fun event => event.latencyNs.toNat)).sum

def byteSum (events : List MetricEvent) : ℕ :=
  ((successful events).map (fun event => event.packetSize.toNat)).sum

/-- The sum of the latencies and the number they are divided by, each in one word. -/
def latencyWord (events : List MetricEvent) : ℕ := latencySum events % 2 ^ 64

def successfulWord (events : List MetricEvent) : ℕ := (successful events).length % 2 ^ 64

def averageLatency (events : List MetricEvent) : ℚ :=
  latencyWord events / successfulWord events

/-- The counters, whatever has been published. The bytes of the current interval are
still to be added to the published total. -/
structure Accounts (m : TelemetryMonitor) (events : List MetricEvent) : Prop where
  packets : m.cumulativePackets = UInt64.ofNat events.length
  dropped : m.cumulativeDropped = UInt64.ofNat (droppedCount events)
  latency : m.cumulativeLatencyNs = UInt64.ofNat (latencySum events)
  bytes : m.stats.totalBytes + m.cumulativeBytes = UInt64.ofNat (byteSum events)

/-- The published figures, in words: a mean is the quotient of two doubles. -/
structure Accounting (stats : AggregatedMetrics) (events : List MetricEvent) : Prop where
  totalPackets : stats.totalPackets.toNat = events.length % 2 ^ 64
  droppedPackets : stats.droppedPackets.toNat = droppedCount events % 2 ^ 64
  noUnderflow : events.length < 2 ^ 64 → stats.droppedPackets ≤ stats.totalPackets
  totalBytes : stats.totalBytes.toNat = byteSum events % 2 ^ 64
  average : stats.averageLatencyNs =
    if successfulWord events = 0 then .ofInt 0
    else .div (.ofInt (latencyWord events)) (.ofInt (successfulWord events))
  averageNearest : latencyWord events ≤ 2 ^ 53 → successfulWord events ≤ 2 ^ 53 →
    stats.averageLatencyNs = .ofRat (averageLatency events)

/-- The published figures as exact numbers. -/
structure ExactAccounting (stats : AggregatedMetrics) (events : List MetricEvent) : Prop where
  totalPackets : stats.totalPackets.toNat = events.length
  droppedPackets : stats.droppedPackets.toNat = droppedCount events
  noUnderflow : stats.droppedPackets ≤ stats.totalPackets
  totalBytes : stats.totalBytes.toNat = byteSum events % 2 ^ 64
  average : stats.averageLatencyNs.toRat = averageLatency events

/-! ### The counters along a run -/

theorem length_successful_add (events : List MetricEvent) :
    (successful events).length + droppedCount events = events.length := by
  have h : events.length = events.countP (fun event => event.dropped) +
      events.countP (fun event => ¬event.dropped) :=
    List.length_eq_countP_add_countP _
  simp only [successful, droppedCount, ← List.countP_eq_length_filter]
  simpa [Nat.add_comm] using h.symm

theorem Accounts.account {m : TelemetryMonitor} {events : List MetricEvent}
    (h : Accounts m events) (event : MetricEvent) :
    Accounts (m.account event) (events ++ [event]) := by
  obtain ⟨hpackets, hdropped, hlatency, hbytes⟩ := h
  cases hd : event.dropped with
  | false =>
      refine ⟨?_, ?_, ?_, ?_⟩
      · simp [TelemetryMonitor.account, hd, hpackets, UInt64.ofNat_add]
      · simp [TelemetryMonitor.account, hd, hdropped, droppedCount]
      · simp [TelemetryMonitor.account, hd, hlatency, latencySum, successful, UInt64.ofNat_add]
      · have hsum : byteSum (events ++ [event]) = byteSum events + event.packetSize.toNat := by
          simp [byteSum, successful, hd]
        rw [hsum, UInt64.ofNat_add, ← hbytes, UInt64.add_assoc]
        simp [TelemetryMonitor.account, hd]
  | true =>
      refine ⟨?_, ?_, ?_, ?_⟩
      · simp [TelemetryMonitor.account, hd, hpackets, UInt64.ofNat_add]
      · simp [TelemetryMonitor.account, hd, hdropped, droppedCount, UInt64.ofNat_add]
      · simp [TelemetryMonitor.account, hd, hlatency, latencySum, successful]
      · simp [TelemetryMonitor.account, hd, hbytes, byteSum, successful]

theorem Accounts.publish {m : TelemetryMonitor} {events : List MetricEvent}
    (h : Accounts m events) (elapsed : ℤ) : Accounts (m.publish elapsed) events := by
  refine ⟨h.packets, h.dropped, h.latency, ?_⟩
  simpa [TelemetryMonitor.publish] using h.bytes

theorem Accounts.endIteration {m : TelemetryMonitor} {events : List MetricEvent}
    (h : Accounts m events) (lastTime now : ℤ) :
    Accounts (m.endIteration lastTime now) events := by
  unfold TelemetryMonitor.endIteration
  dsimp only
  split
  · obtain ⟨hpackets, hdropped, hlatency, hbytes⟩ := h.publish (elapsedMs lastTime now)
    exact ⟨hpackets, hdropped, hlatency, hbytes⟩
  · exact ⟨h.packets, h.dropped, h.latency, h.bytes⟩

/-- Only popping changes what the counters account for. -/
theorem Accounts.step {m m' : TelemetryMonitor} {events : List MetricEvent}
    (h : Accounts m events) {action : Action} (hstep : m.step action = some m') :
    Accounts m' (events ++ action.event.toList) := by
  obtain ⟨event, rfl, rfl⟩ | ⟨lastTime, now, rfl, -, rfl⟩ | ⟨hevent, running, worker, rfl⟩ :=
    step_cases hstep
  · exact h.account event
  · rw [show (Action.drained now).event = none from rfl, Option.toList_none, List.append_nil]
    exact h.endIteration lastTime now
  · rw [hevent, Option.toList_none, List.append_nil]
    exact ⟨h.packets, h.dropped, h.latency, h.bytes⟩

theorem accounts_run {actions : List Action} :
    ∀ {m : TelemetryMonitor}, run initial actions = some m → Accounts m (popped actions) := by
  induction actions using List.reverseRecOn with
  | nil =>
      rintro m hrun
      obtain rfl := Option.some.inj hrun
      exact ⟨rfl, rfl, rfl, rfl⟩
  | append_singleton actions action ih =>
      intro m' hrun
      unfold run at hrun
      rw [List.foldlM_append] at hrun
      obtain ⟨m, hm, hstep⟩ := Option.bind_eq_some_iff.mp hrun
      have hpopped : popped (actions ++ [action]) = popped actions ++ action.event.toList := by
        simp only [popped, List.filterMap_append]
        cases action <;> rfl
      rw [hpopped]
      exact (ih hm).step (by simpa using hstep)

/-! ### The published figures -/

theorem averageLatency_publish {m : TelemetryMonitor} {events : List MetricEvent}
    (h : Accounts m events) (elapsed : ℤ) :
    (m.publish elapsed).stats.averageLatencyNs =
      if successfulWord events = 0 then .ofInt 0
      else .div (.ofInt (latencyWord events)) (.ofInt (successfulWord events)) := by
  have hsuccessful : m.cumulativePackets - m.cumulativeDropped =
      UInt64.ofNat (successful events).length := by
    rw [h.packets, h.dropped, ← length_successful_add events, UInt64.ofNat_add,
      UInt64.add_sub_cancel]
  have hpos : UInt64.ofNat (successful events).length > 0 ↔ ¬successfulWord events = 0 := by
    rw [gt_iff_lt, UInt64.lt_iff_toNat_lt, UInt64.toNat_ofNat', UInt64.toNat_zero,
      Nat.pos_iff_ne_zero]
    rfl
  simp only [publish, hsuccessful, hpos, h.latency, Binary64.ofUInt64, UInt64.toNat_ofNat']
  rw [ite_not]
  rfl

theorem accounting_publish {m : TelemetryMonitor} {events : List MetricEvent}
    (h : Accounts m events) (elapsed : ℤ) : Accounting (m.publish elapsed).stats events := by
  have haverage := averageLatency_publish h elapsed
  refine ⟨?_, ?_, ?_, ?_, haverage, ?_⟩
  · show m.cumulativePackets.toNat = _
    rw [h.packets, UInt64.toNat_ofNat']
  · show m.cumulativeDropped.toNat = _
    rw [h.dropped, UInt64.toNat_ofNat']
  · intro hlt
    have hle : droppedCount events ≤ events.length := List.countP_le_length
    show m.cumulativeDropped ≤ m.cumulativePackets
    rw [h.packets, h.dropped, UInt64.le_iff_toNat_le, UInt64.toNat_ofNat', UInt64.toNat_ofNat',
      Nat.mod_eq_of_lt hlt, Nat.mod_eq_of_lt (Nat.lt_of_le_of_lt hle hlt)]
    exact hle
  · show (m.stats.totalBytes + m.cumulativeBytes).toNat = _
    rw [h.bytes, UInt64.toNat_ofNat']
  · intro hlatency hnumber
    rw [haverage, averageLatency]
    split_ifs with hzero
    · have hquotient : (latencyWord events : ℚ) / successfulWord events = 0 := by simp [hzero]
      rw [hquotient, Binary64.ofRat_zero]
    · exact Binary64.div_ofInt hlatency hnumber (Nat.pos_of_ne_zero hzero)

/-- **The account at every publication.** Whatever was popped in whichever iterations,
published or not, and however often the worker was stopped and started. -/
theorem publication_accounting {actions : List Action} {now : ℤ} {m m' : TelemetryMonitor}
    (hrun : run initial actions = some m) (hstep : m.step (.drained now) = some m')
    (hpublish : m.publishesAt now = true) : Accounting m'.stats (popped actions) := by
  obtain ⟨lastTime, hworker, hms⟩ := publishesAt_iff.mp hpublish
  have hm' : m' = { m.publish (elapsedMs lastTime now) with worker := .loopHead now } := by
    simp only [TelemetryMonitor.step, hworker, endIteration, if_pos hms] at hstep
    exact (Option.some.inj hstep).symm
  rw [hm']
  exact accounting_publish (accounts_run hrun) (elapsedMs lastTime now)

/-- Three packets of 1, 0 and 0 ns, popped in two iterations with a restart between. -/
def restartedRun : List Action :=
  [.start, .begin 0, .check, .pop ⟨1000, 1, false⟩, .drained 5000000, .stop, .check,
    .start, .begin 7000000, .check, .pop ⟨1000, 0, false⟩, .pop ⟨1000, 0, false⟩]

theorem publication_accounting_restarted : ∃ m m' : TelemetryMonitor,
    run initial restartedRun = some m ∧ m.step (.drained 107000000) = some m' ∧
      Accounting m'.stats (popped restartedRun) :=
  ⟨_, _, rfl, rfl, @publication_accounting restartedRun _ _ _ rfl rfl rfl⟩

/-- One third is not a double. -/
theorem not_publication_exact :
    ¬∀ (actions : List Action) (now : ℤ) (m m' : TelemetryMonitor),
      run initial actions = some m → m.step (.drained now) = some m' →
        m.publishesAt now = true → ExactAccounting m'.stats (popped actions) := by
  intro h
  have haverage := (h restartedRun 107000000 _ _ rfl rfl rfl).average
  exact absurd haverage (by decide +kernel)

end Netsim.System.Telemetry
