import Netsim.Daemon.PacketPath
import Netsim.Daemon.RequestStream
import Netsim.System.TelemetryPipeline

/-!
# From the socket to the counters

The parts of the daemon put together: the chunks that a client sends, the requests in
them, the packets in their bodies, the metric events, the queue and the monitor. Each
packet is accounted for exactly once (`requests_counted`).
-/

namespace Netsim.Daemon

open Foundation Netsim.Core Netsim.Network Netsim.System Netsim.Protocols

/-- The bodies that were deserialized, with the readings of the clock. -/
def received (log : List (Fd × Bytes)) (clocks : List (UInt64 × UInt64)) : List Received :=
  List.zipWith (fun entry clock => ⟨entry.1, entry.2, clock.1, clock.2⟩) log clocks

theorem received_body {log : List (Fd × Bytes)} {clocks : List (UInt64 × UInt64)} {r : Received}
    (h : r ∈ received log clocks) : ∃ entry ∈ log, r.body = entry.2 := by
  unfold received at h
  obtain ⟨i, hi, rfl⟩ := List.getElem_of_mem h
  rw [List.length_zipWith] at hi
  refine ⟨log[i], List.getElem_mem _, ?_⟩
  rw [List.getElem_zipWith]

theorem received_clock {log : List (Fd × Bytes)} {clocks : List (UInt64 × UInt64)}
    (h : clocks.length = log.length) :
    (received log clocks).map Received.clock = clocks.map Prod.fst := by
  apply List.ext_getElem
  · simp [received, h]
  · intro i _ _
    simp [received]

/-- When every body is a packet, each has its answer. -/
theorem PacketPath.answered_of_wellFormed {e : Endian} {packets : List Received}
    (limiter : GcraRateLimiter) (h : ∀ r ∈ packets, r.wellFormed e = true) :
    answered e limiter packets =
      packets.zip (decisions GcraRateLimiter.serve limiter (packets.map Received.clock)) := by
  unfold answered
  rw [List.filter_eq_self.mpr h]

/-- The events that a full queue has refused. -/
def refused (t : Pipeline.Trace Metric) : List Metric :=
  (t.returned.filter fun r => !r.2).map Prod.fst

/-- Where the events `queued` are. -/
structure CountedOnce {w : ℕ} (capacity : BitVec w) (queued : List Metric)
    (s : Pipeline.State w Metric) (t : Pipeline.Trace Metric) : Prop where
  /-- In order: those whose push has returned, one being pushed, those still to be pushed. -/
  offered : queued =
    t.returned.map Prod.fst ++ Pipeline.inFlight s.queue.push ++ s.queue.program
  /-- In order: of those accepted, the ones the monitor has taken, and the queue. -/
  accepted : (t.returned.filter Prod.snd).map Prod.fst = t.observed.popped ++ t.observed.queue
  /-- Each of them is in exactly one of these places. -/
  places : queued.Perm (t.observed.popped ++ t.observed.queue ++ refused t ++
    Pipeline.inFlight s.queue.push ++ s.queue.program)
  bounded : t.observed.queue.length ≤ capacity.toNat
  packets : s.monitor.cumulativePackets = UInt64.ofNat t.observed.popped.length
  dropped : s.monitor.cumulativeDropped =
    UInt64.ofNat (t.observed.popped.countP fun metric => metric.event.dropped)

theorem countedOnce_of_snapshot {w : ℕ} {capacity : BitVec w} {queued : List Metric}
    {s : Pipeline.State w Metric} {t : Pipeline.Trace Metric}
    (h : Pipeline.Snapshot capacity Metric.event queued s t) :
    CountedOnce capacity queued s t := by
  have hreturned : (t.returned.map Prod.fst).Perm
      (t.observed.popped ++ t.observed.queue ++ refused t) := by
    rw [← h.accepted, refused, ← List.map_append]
    exact ((List.filter_append_perm Prod.snd t.returned).symm).map Prod.fst
  have hpackets := h.counted.packets
  have hdropped := h.counted.dropped
  rw [List.length_map] at hpackets
  rw [Telemetry.droppedCount, List.countP_map] at hdropped
  refine ⟨h.offered, h.accepted, ?_, h.bounded, hpackets, hdropped⟩
  rw [h.offered]
  exact (hreturned.append_right _).append_right _

/-- **Every packet is accounted for once.** A client sends well-formed requests that each
end with a chunk and carry a packet. Their bodies are handled in order, each leaves one
event, and whatever the order in which the main thread, the monitor and its owner then take
their turns, each event is in one place. -/
theorem requests_counted (memory : Allocator) (e : Endian) (base : ℕ) (d : State) (cFd fd : Fd)
    (requests : List (EncodedRequest memory)) (chunks : List Bytes)
    (hclient : d.activeConnections.find cFd = some ⟨⟨⟨some fd⟩⟩, HttpSim.fresh⟩)
    (hlog : d.deserialized = [])
    (hne : ∀ chunk ∈ chunks, chunk ≠ [])
    (hsplit : chunks.flatten = requests.flatMap EncodedRequest.text)
    (hends : EndsWithChunks requests chunks)
    (hpackets : ∀ r ∈ requests, ∃ pkt, Packet.deserialize e r.request.body = .ok pkt)
    (clocks : List (UInt64 × UInt64)) (hclocks : clocks.length = requests.length) :
    ∃ d' path packets queued, readChunks memory cFd d chunks = .ok d' ∧
      d'.deserialized = requests.map (fun r => (cFd, r.request.body)) ∧
      packets = received d'.deserialized clocks ∧ packets.length = requests.length ∧
      PacketPath.started base = some path ∧ (PacketPath.run e path packets).queued = queued ∧
      queued = List.zipWith metricEvent packets
        (decisions GcraRateLimiter.serve (.wholeRate 5 3) (clocks.map Prod.fst)) ∧
      queued.length = requests.length ∧
      ∀ (w k : ℕ) (capacity : BitVec w), capacity.toNat = 2 ^ k →
        ∀ slots turns s t,
          Pipeline.run capacity Metric.event slots queued turns = some (s, t) →
          CountedOnce capacity queued s t := by
  obtain ⟨d', hreads, s'⟩ := readChunks_bodies requests ⟨⟨fd, hclient⟩, hlog⟩ hne hsplit hends
  have hbodies : d'.deserialized = requests.map fun r => (cFd, r.request.body) := by
    rw [s'.log_eq, List.nil_append]
  have hpaired : clocks.length = d'.deserialized.length := by
    rw [hbodies, List.length_map, hclocks]
  have hlength : (received d'.deserialized clocks).length = requests.length := by
    rw [received, List.length_zipWith, ← hpaired, Nat.min_self, hclocks]
  have hwellFormed : ∀ r ∈ received d'.deserialized clocks, r.wellFormed e = true := by
    intro r hr
    obtain ⟨entry, hentry, hbody⟩ := received_body hr
    rw [hbodies] at hentry
    obtain ⟨request, hrequest, rfl⟩ := List.mem_map.mp hentry
    obtain ⟨pkt, hpkt⟩ := hpackets request hrequest
    unfold Received.wellFormed
    rw [hbody, hpkt]
    rfl
  obtain ⟨-, hqueued, -⟩ := PacketPath.run_eq (e := e) (received d'.deserialized clocks)
    (.fresh base) (PacketPath.arenaReady_create base) rfl
  rw [PacketPath.answered_of_wellFormed _ hwellFormed, received_clock hpaired,
    List.map_zip_eq_zipWith, show (PacketPath.fresh base).queued = [] from rfl,
    List.nil_append] at hqueued
  refine ⟨d', .fresh base, _, _, hreads, hbodies, rfl, hlength, PacketPath.started_eq base, hqueued,
    rfl, ?_, fun w k capacity hcap slots turns s t hrun => ?_⟩
  · rw [List.length_zipWith, hlength, length_decisions, List.length_map, hclocks, Nat.min_self]
  · exact countedOnce_of_snapshot ((Pipeline.inv_run hcap turns hrun).snapshot hcap)

/-- A packet of two bytes in the body of a request. -/
def packetUpload : EncodedRequest .unlimited where
  request :=
    { method := ascii "POST"
      uri := ascii "/"
      version := ascii "HTTP/1.1"
      headers := UnorderedMap.ofPairs [(contentLengthKey, ascii "8")]
      body := [1, 0, 0, 0, 0, 2, 7, 8] }
  lines := [(contentLengthKey, ascii "8")]
  wellFormed :=
    { headers := List.Perm.refl _
      method := by decide +kernel
      uri := by decide +kernel
      version := by decide +kernel
      key := by decide +kernel
      value := by decide +kernel
      framing := Or.inr ⟨decimal 8, by decide +kernel, isDecimal_decimal _⟩
      body_le := by decide +kernel }

theorem requests_counted_upload :
    ∃ d' path packets queued, readChunks .unlimited 5 oneClient
        [packetUpload.text.take 9, packetUpload.text.drop 9, packetUpload.text] = .ok d' ∧
      d'.deserialized = [(5, packetUpload.request.body), (5, packetUpload.request.body)] ∧
      packets = received d'.deserialized [(1, 2), (3, 4)] ∧ packets.length = 2 ∧
      PacketPath.started 4096 = some path ∧
      (PacketPath.run .little path packets).queued = queued ∧
      queued = List.zipWith metricEvent packets
        (decisions GcraRateLimiter.serve (.wholeRate 5 3) [1, 3]) ∧
      queued.length = 2 ∧
      ∀ (w k : ℕ) (capacity : BitVec w), capacity.toNat = 2 ^ k →
        ∀ slots turns s t,
          Pipeline.run capacity Metric.event slots queued turns = some (s, t) →
          CountedOnce capacity queued s t :=
  requests_counted .unlimited .little 4096 oneClient 5 5 [packetUpload, packetUpload]
    [packetUpload.text.take 9, packetUpload.text.drop 9, packetUpload.text] rfl rfl
    (by decide +kernel) (by simp [← List.append_assoc])
    (fun k => match k with
      | 0 => ⟨0, rfl⟩
      | 1 => ⟨2, by simp⟩
      | _ + 2 => ⟨3, by simp [← List.append_assoc]⟩)
    (by simp only [List.mem_cons, List.not_mem_nil, or_false, or_self, forall_eq]; exact ⟨_, rfl⟩)
    [(1, 2), (3, 4)] rfl

end Netsim.Daemon
