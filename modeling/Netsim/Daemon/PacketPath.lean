import Netsim.Core.MemoryArena
import Netsim.Core.Packet
import Netsim.Network.Node
import Netsim.System.EventLoop
import Netsim.System.TelemetryHttpClient
import Netsim.System.TelemetryMonitor

/-!
# The path of a packet

What the read callback of `main/core_engine.cpp` does with the body of a complete
request: a `Packet` is placed in the arena and deserialized, the host's rate limiter is
asked, and a metric event goes to the queue and, as a sample, to the publisher. The two
readings of the clock are inputs, and log lines are left out.

Over a whole run the arena is always empty again, a malformed body costs no rate and
leaves no event, and every other body leaves one (`run_metrics`).
-/

namespace Netsim.Daemon

open Foundation Netsim.Core Netsim.Network Netsim.Protocols Netsim.System

/-- `MetricEvent`, with what the monitor reads of it apart. -/
structure Metric where
  timestampUs : UInt64
  sourceNode : Bytes
  destNode : Bytes
  event : Telemetry.MetricEvent

/-- The body of a complete request, and what the clock shows to `receive_packet` and to
the event. -/
structure Received where
  cFd : Fd
  body : Bytes
  clock : UInt64
  timestamp : UInt64

/-- `sizeof(Packet)` and its alignment: a packed header, then bytes. -/
def packetLayout : Layout := ⟨headerSize + mtu, 1, by decide, ⟨0, rfl⟩⟩

structure PacketPath where
  arena : MemoryArena
  secureNode : Node
  /-- The events handed to `g_telemetry_queue.push`. -/
  queued : List Metric
  /-- The samples handed to `post_sample`. -/
  samples : List TelemetryHttp.TelemetrySample

/-- The event of a packet. -/
def metricEvent (r : Received) (allowed : Bool) : Metric where
  timestampUs := r.timestamp
  sourceNode := TelemetryHttp.literal "ClientFD_" ++ decimal r.cFd
  destNode := TelemetryHttp.literal "SecureHost"
  event :=
    if allowed then ⟨UInt32.ofNat r.body.length, 120, false⟩
    else ⟨0, 0, true⟩

/-- `throughput_kbps`, the second argument of `publish_metric_event`. -/
def throughputKbps (r : Received) (allowed : Bool) : Binary64 :=
  if allowed then .ofUInt64 (UInt64.ofNat r.body.length * 8) else .ofInt 0

/-- `post_metric_event`: the sample of an event. -/
def Metric.sample (metric : Metric) (throughputKbps : Binary64) :
    TelemetryHttp.TelemetrySample where
  timestampUs := metric.timestampUs
  sourceNode := metric.sourceNode
  destNode := metric.destNode
  packetSize := metric.event.packetSize
  latencyNs := .ofUInt64 metric.event.latencyNs
  droppedPackets := if metric.event.dropped then 1 else 0
  throughputKbps := throughputKbps

namespace PacketPath

/-- The daemon's arena and host, when its loop starts. -/
def started (base : ℕ) : Option PacketPath :=
  (Node.secureNode.enableRateLimiting (.ofInt (5 : ℕ)) (.ofInt (3 : ℕ))).map fun secureNode =>
    ⟨MemoryArena.create base 20480, secureNode, [], []⟩

/-- The `try` block and the two resets, for one body. -/
def handle (e : Endian) (path : PacketPath) (r : Received) : PacketPath :=
  match path.arena.allocate packetLayout true with
  -- `std::bad_alloc` is caught as well
  | (arena, .error _) => { path with arena := arena.reset }
  | (arena, .ok _) =>
      match Packet.deserialize e r.body with
      | .error _ => { path with arena := arena.reset }
      | .ok _ =>
          let (allowed, secureNode) := path.secureNode.receivePacket r.clock
          let metric := metricEvent r allowed
          { arena := arena.reset
            secureNode := secureNode
            queued := path.queued ++ [metric]
            samples := path.samples ++ [metric.sample (throughputKbps r allowed)] }

def run (e : Endian) (path : PacketPath) (packets : List Received) : PacketPath :=
  packets.foldl (handle e) path

end PacketPath

/-- The body is a packet. -/
def Received.wellFormed (e : Endian) (r : Received) : Bool :=
  (Packet.deserialize e r.body).toBool

namespace PacketPath

variable {e : Endian} {path : PacketPath} {r : Received}

/-- An empty arena with room for a packet. -/
structure ArenaReady (arena : MemoryArena) : Prop where
  empty : arena.currentCursor = arena.arenaStart
  room : arena.arenaStart + packetLayout.size ≤ arena.arenaEnd

theorem ArenaReady.allocate {arena : MemoryArena} (h : ArenaReady arena) :
    ∃ arena' address, arena.allocate packetLayout true = (arena', .ok address) ∧
      arena'.reset = arena := by
  have hroom := h.room
  have hcursor : arena.currentCursor ≤ arena.arenaEnd := by
    rw [h.empty]
    omega
  rcases MemoryArena.allocate_cases hcursor packetLayout true with ⟨hnone, -⟩ | ⟨address, -, heq⟩
  · have hfits : arena.Fits packetLayout arena.currentCursor :=
      ⟨Nat.le_refl _, Nat.one_dvd _, h.empty ▸ hroom⟩
    exact absurd hfits (hnone _)
  · refine ⟨_, address, heq, ?_⟩
    obtain ⟨start, finish, cursor⟩ := arena
    obtain rfl : cursor = start := h.empty
    rfl

theorem handle_malformed (h : ArenaReady path.arena) (hbody : r.wellFormed e = false) :
    handle e path r = path := by
  obtain ⟨arena, address, hallocate, hreset⟩ := h.allocate
  unfold Received.wellFormed at hbody
  unfold handle
  rw [hallocate]
  dsimp only
  cases hdeserialize : Packet.deserialize e r.body with
  | error _ => simp only [hreset]
  | ok _ => simp [hdeserialize, Except.toBool] at hbody

theorem handle_wellFormed (h : ArenaReady path.arena) (hbody : r.wellFormed e = true)
    {limiter : GcraRateLimiter} (hlimiter : path.secureNode.rateLimiter = some limiter) :
    handle e path r =
      { arena := path.arena
        secureNode := { path.secureNode with rateLimiter := some (limiter.serve r.clock).2 }
        queued := path.queued ++ [metricEvent r (limiter.serve r.clock).1]
        samples := path.samples ++ [(metricEvent r (limiter.serve r.clock).1).sample
          (throughputKbps r (limiter.serve r.clock).1)] } := by
  obtain ⟨arena, address, hallocate, hreset⟩ := h.allocate
  unfold Received.wellFormed at hbody
  unfold handle
  rw [hallocate]
  dsimp only
  cases hdeserialize : Packet.deserialize e r.body with
  | error _ => simp [hdeserialize, Except.toBool] at hbody
  | ok _ => simp only [Node.receivePacket, hlimiter, hreset]

/-! ### Whole runs -/

/-- The packets of a run with the limiter's answers. -/
def answered (e : Endian) (limiter : GcraRateLimiter) (packets : List Received) :
    List (Received × Bool) :=
  (packets.filter (Received.wellFormed e)).zip
    (decisions GcraRateLimiter.serve limiter
      ((packets.filter (Received.wellFormed e)).map Received.clock))

theorem answered_malformed (limiter : GcraRateLimiter) (packets : List Received)
    (hbody : r.wellFormed e = false) :
    answered e limiter (r :: packets) = answered e limiter packets := by
  unfold answered
  rw [List.filter_cons_of_neg (by simp [hbody])]

theorem answered_wellFormed (limiter : GcraRateLimiter) (packets : List Received)
    (hbody : r.wellFormed e = true) :
    answered e limiter (r :: packets) =
      (r, (limiter.serve r.clock).1) :: answered e (limiter.serve r.clock).2 packets := by
  unfold answered
  rw [List.filter_cons_of_pos hbody]
  rfl

/-- **A run**, in closed form. -/
theorem run_eq (packets : List Received) : ∀ (path : PacketPath) {limiter : GcraRateLimiter},
    ArenaReady path.arena → path.secureNode.rateLimiter = some limiter →
      (run e path packets).arena = path.arena ∧
      (run e path packets).queued =
        path.queued ++ (answered e limiter packets).map (fun a => metricEvent a.1 a.2) ∧
      (run e path packets).samples =
        path.samples ++ (answered e limiter packets).map
          (fun a => (metricEvent a.1 a.2).sample (throughputKbps a.1 a.2)) := by
  induction packets with
  | nil =>
      intro path limiter _ _
      simp [run, answered, decisions]
  | cons r packets ih =>
      intro path limiter hready hlimiter
      unfold run at ih ⊢
      rw [List.foldl_cons]
      cases hbody : r.wellFormed e with
      | false =>
          rw [handle_malformed hready hbody, answered_malformed limiter packets hbody]
          exact ih path hready hlimiter
      | true =>
          have hnext := handle_wellFormed hready hbody hlimiter
          have hlimiter' : (handle e path r).secureNode.rateLimiter =
              some (limiter.serve r.clock).2 := by rw [hnext]
          obtain ⟨harena, hqueued, hsamples⟩ := ih (handle e path r)
            (by rw [hnext]; exact hready) hlimiter'
          rw [answered_wellFormed limiter packets hbody, List.map_cons, List.map_cons]
          refine ⟨harena.trans (by rw [hnext]), hqueued.trans ?_, hsamples.trans ?_⟩
          · rw [hnext, List.append_assoc, List.singleton_append]
          · rw [hnext, List.append_assoc, List.singleton_append]

theorem secureRate : WholeRate 5 3 := ⟨by decide, by decide, by decide, by decide⟩

/-- The state before the first packet. -/
def fresh (base : ℕ) : PacketPath :=
  ⟨MemoryArena.create base 20480, { Node.secureNode with rateLimiter := some (.wholeRate 5 3) },
    [], []⟩

theorem started_eq (base : ℕ) : started base = some (fresh base) := by
  unfold started Node.enableRateLimiting
  rw [secureRate.ofRate_ofInt]
  rfl

theorem arenaReady_create (base : ℕ) : ArenaReady (MemoryArena.create base 20480) :=
  ⟨rfl, Nat.add_le_add_left (by decide) base⟩

/-- The packets let pass in a window of the clock. -/
def allowedIn (start finish : ℕ) (answers : List (Received × Bool)) : ℕ :=
  answers.countP fun a =>
    a.2 && decide (start ≤ a.1.clock.toNat) && decide (a.1.clock.toNat ≤ finish)

/-- The main thread's calls are a sequential run of the limiter. -/
theorem allowedIn_answered (e : Endian) (limiter : GcraRateLimiter) (packets : List Received)
    (start finish : ℕ) :
    allowedIn start finish (answered e limiter packets) =
      GcraRateLimiter.admittedIn start finish (GcraRateLimiter.run limiter
        (((packets.filter (Received.wellFormed e)).map fun r =>
          (⟨(), r.clock, 0⟩ : GcraRateLimiter.Call Unit)).flatMap
            GcraRateLimiter.Call.actions)) := by
  have hcalls := GcraRateLimiter.foldl_calls ((packets.filter (Received.wellFormed e)).map fun r =>
    (⟨(), r.clock, 0⟩ : GcraRateLimiter.Call Unit)) (GcraRateLimiter.initial limiter) fun _ => rfl
  have htimes : ((packets.filter (Received.wellFormed e)).map fun r =>
      (⟨(), r.clock, 0⟩ : GcraRateLimiter.Call Unit)).map GcraRateLimiter.Call.time =
      (packets.filter (Received.wellFormed e)).map Received.clock := by
    rw [List.map_map]
    rfl
  unfold GcraRateLimiter.admittedIn GcraRateLimiter.run allowedIn answered
  rw [hcalls, htimes]
  dsimp only [GcraRateLimiter.initial]
  rw [List.nil_append, List.zip_map_left, List.countP_map]
  rfl

/-- **Every packet leaves one event.** From the start of the daemon, for any bodies at
any times: a malformed body costs no rate and leaves nothing; every other leaves one
event and one sample, in order, which say whether the limiter let it pass; in no window
does it let pass more than three packets and one for each fifth of a second. The arena is
empty after every packet, so an allocation never fails. -/
theorem run_metrics (e : Endian) (base : ℕ) (packets : List Received)
    (hclock : ∀ r ∈ packets, r.clock.toNat < 2 ^ 63) :
    ∃ path, started base = some path ∧
      (run e path packets).arena = MemoryArena.create base 20480 ∧
      (run e path packets).queued =
        (answered e (.wholeRate 5 3) packets).map (fun a => metricEvent a.1 a.2) ∧
      (run e path packets).samples =
        (answered e (.wholeRate 5 3) packets).map
          (fun a => (metricEvent a.1 a.2).sample (throughputKbps a.1 a.2)) ∧
      ∀ start finish, allowedIn start finish (answered e (.wholeRate 5 3) packets) ≤
        3 + (finish - start) / 200000000 := by
  obtain ⟨harena, hqueued, hsamples⟩ := run_eq (e := e) packets (fresh base)
    (arenaReady_create base) (rfl : (fresh base).secureNode.rateLimiter = _)
  refine ⟨fresh base, started_eq base, harena, hqueued, hsamples, fun start finish => ?_⟩
  rw [allowedIn_answered]
  apply secureRate.admittedIn_le
  intro i t hsample
  obtain ⟨call, hcall, hsample⟩ := List.mem_flatMap.mp hsample
  obtain ⟨r, hr, rfl⟩ := List.mem_map.mp hcall
  obtain rfl : t = r.clock := by
    simpa [GcraRateLimiter.Call.actions] using hsample
  exact hclock r (List.mem_of_mem_filter hr)

/-- A packet of two bytes arrives four times at once, with one malformed body between. -/
def fourAtOnce : List Received :=
  [⟨5, [1, 0, 0, 0, 0, 2, 7, 8], 10, 11⟩, ⟨5, [1, 0, 0, 0, 0, 2, 7, 8], 10, 12⟩,
    ⟨6, [1, 0, 0, 0, 0, 2, 7], 10, 13⟩, ⟨6, [1, 0, 0, 0, 0, 2, 7, 8], 10, 14⟩,
    ⟨5, [1, 0, 0, 0, 0, 2, 7, 8], 10, 15⟩]

theorem run_metrics_fourAtOnce : ∃ path, started 4096 = some path ∧
    (run .little path fourAtOnce).arena = MemoryArena.create 4096 20480 ∧
    (run .little path fourAtOnce).queued =
      (answered .little (.wholeRate 5 3) fourAtOnce).map (fun a => metricEvent a.1 a.2) ∧
    (run .little path fourAtOnce).samples =
      (answered .little (.wholeRate 5 3) fourAtOnce).map
        (fun a => (metricEvent a.1 a.2).sample (throughputKbps a.1 a.2)) ∧
    ∀ start finish, allowedIn start finish (answered .little (.wholeRate 5 3) fourAtOnce) ≤
      3 + (finish - start) / 200000000 :=
  run_metrics .little 4096 fourAtOnce (by decide)

example : (answered .little (.wholeRate 5 3) fourAtOnce).map (fun a => (a.1.timestamp, a.2)) =
    [(11, true), (12, true), (14, true), (15, false)] := by decide +kernel

end PacketPath

end Netsim.Daemon
