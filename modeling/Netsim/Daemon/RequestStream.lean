import Netsim.Daemon.CoreEngine
import Netsim.Protocols.HttpRoundTrip

/-!
# Requests back to back on one connection

The read callback looks at the parser's answer once per chunk and then resets
the parser. The bytes that follow the end of a request in the same chunk are
consumed by the complete parser, which ignores them. So the requests of a stream
are all handled when each of them ends with a chunk, and what follows a request
in its last chunk is lost otherwise.
-/

namespace Netsim.Daemon

open Foundation Netsim.System Netsim.Core Netsim.Protocols

/-- A well-formed request, with the order in which its headers are written. -/
structure EncodedRequest (memory : Allocator) where
  request : HttpRequest
  lines : List (Bytes × Bytes)
  wellFormed : WellFormed memory request lines

variable {memory : Allocator}

def EncodedRequest.text (r : EncodedRequest memory) : Bytes := encode r.request r.lines

/-- Hand chunks to the read callback of a client, one `recv` each. -/
def readChunks (memory : Allocator) (cFd : Fd) (d : State) (chunks : List Bytes) :
    Except Exception State :=
  consume (fun d chunk => readCallback memory cFd (.received chunk) d) d chunks

/-- Each request ends where some chunk ends. -/
def EndsWithChunks (requests : List (EncodedRequest memory)) (chunks : List Bytes) : Prop :=
  ∀ k, ∃ j, (chunks.take j).flatten = (requests.take k).flatMap EncodedRequest.text

/-- A client is connected, its parser is `p`, and `log` has been deserialized. -/
structure Serving (d : State) (cFd : Fd) (p : HttpSim) (log : List (Fd × Bytes)) : Prop where
  connected : ∃ fd, d.activeConnections.find cFd = some ⟨⟨⟨some fd⟩⟩, p⟩
  log_eq : d.deserialized = log

variable {d : State} {cFd : Fd} {p p' : HttpSim} {log : List (Fd × Bytes)} {chunk : Bytes}

namespace Serving

/-- A chunk that does not complete a request. -/
theorem read_false (s : Serving d cFd p log) (hne : chunk ≠ [])
    (hparse : p.parseChunk memory chunk = .ok (false, p')) :
    ∃ d', readCallback memory cFd (.received chunk) d = .ok d' ∧ Serving d' cFd p' log := by
  obtain ⟨fd, hctx⟩ := s.connected
  refine ⟨{ d with activeConnections := d.activeConnections.set cFd ⟨⟨⟨some fd⟩⟩, p'⟩ }, ?_,
    ⟨fd, by simp⟩, s.log_eq⟩
  simp [readCallback, hctx, Connection.receiveData, hne, hparse]

/-- A chunk that completes a request: its body is handled, the parser reset. -/
theorem read_true (s : Serving d cFd p log) (hne : chunk ≠ [])
    (hparse : p.parseChunk memory chunk = .ok (true, p')) :
    ∃ d', readCallback memory cFd (.received chunk) d = .ok d' ∧
      Serving d' cFd HttpSim.fresh (log ++ [(cFd, p'.request.body)]) := by
  obtain ⟨fd, hctx⟩ := s.connected
  refine ⟨{ d with activeConnections := d.activeConnections.set cFd ⟨⟨⟨some fd⟩⟩, p'.reset⟩,
                   deserialized := d.deserialized ++ [(cFd, p'.request.body)] }, ?_,
    ⟨fd, by simp [HttpSim.reset]⟩, by rw [s.log_eq]⟩
  simp [readCallback, hctx, Connection.receiveData, hne, hparse]

/-- What follows the end of a request in its chunk is lost: the callback does what
it does without it. -/
theorem read_rest_lost (s : Serving d cFd p log) (hne : chunk ≠ [])
    (hparse : p.parseChunk memory chunk = .ok (true, p')) (rest : Bytes) :
    readCallback memory cFd (.received (chunk ++ rest)) d =
      readCallback memory cFd (.received chunk) d := by
  obtain ⟨fd, hctx⟩ := s.connected
  have hrest : p.parseChunk memory (chunk ++ rest) = .ok (true, p') :=
    report_append (HttpSim.parseChunk_eq memory) (HttpSim.parseByte_complete memory) hparse rest
  have hne' : chunk ++ rest ≠ [] := fun h => hne (List.append_eq_nil_iff.mp h).1
  simp [readCallback, hctx, Connection.receiveData, hne, hparse, hrest]

/-- Chunks none of which completes a request. -/
theorem readChunks_false : ∀ (chunks : List Bytes) {d : State} {p : HttpSim},
    Serving d cFd p log → (∀ chunk ∈ chunks, chunk ≠ []) →
    feed (HttpSim.parseChunk memory) p chunks = .ok (List.replicate chunks.length false, p') →
    ∃ d', readChunks memory cFd d chunks = .ok d' ∧ Serving d' cFd p' log := by
  intro chunks
  induction chunks with
  | nil =>
      intro d p s _ hfeed
      obtain rfl := (Prod.mk.inj (Except.ok.inj hfeed)).2
      exact ⟨d, rfl, s⟩
  | cons chunk chunks ih =>
      intro d p s hne hfeed
      obtain ⟨u, hparse, hrest⟩ := feed_cons hfeed
      obtain ⟨d₁, hread, s₁⟩ := s.read_false (hne chunk List.mem_cons_self) hparse
      obtain ⟨d', hreads, s'⟩ := ih s₁ (fun c hc => hne c (List.mem_cons_of_mem _ hc)) hrest
      exact ⟨d', (consume_cons hread).trans hreads, s'⟩

/-- The chunks of one request. -/
theorem readChunks_request (s : Serving d cFd HttpSim.fresh log) (r : EncodedRequest memory)
    {chunks : List Bytes} (hne : ∀ chunk ∈ chunks, chunk ≠ [])
    (hsplit : chunks.flatten = r.text) :
    ∃ d', readChunks memory cFd d chunks = .ok d' ∧
      Serving d' cFd HttpSim.fresh (log ++ [(cFd, r.request.body)]) := by
  rcases List.eq_nil_or_concat chunks with rfl | ⟨before, last, rfl⟩
  · -- a request has a text
    simp [EncodedRequest.text, encode] at hsplit
  · rw [List.concat_eq_append] at hne hsplit ⊢
    have hlast : last ≠ [] := hne last (by simp)
    obtain ⟨p₁, p₂, hbefore, hdone, hreq⟩ :=
      HttpSim.feed_encode r.wellFormed hsplit hlast (by simp)
    obtain ⟨d₁, hreads, s₁⟩ := readChunks_false before s
      (fun c hc => hne c (List.mem_append_left _ hc)) hbefore
    obtain ⟨d', hread, s'⟩ := s₁.read_true hlast hdone
    rw [hreq] at s'
    exact ⟨d', (consume_append hreads).trans (consume_cons hread), s'⟩

end Serving

/-- Once the first request has been consumed, the rest still end with chunks. -/
theorem EndsWithChunks.tail {r : EncodedRequest memory} {requests : List (EncodedRequest memory)}
    {chunks : List Bytes} (h : EndsWithChunks (r :: requests) chunks) {j : ℕ}
    (hj : (chunks.take j).flatten = r.text) : EndsWithChunks requests (chunks.drop j) := by
  intro k
  obtain ⟨i, hi⟩ := h (k + 1)
  rw [List.take_succ_cons, List.flatMap_cons] at hi
  rcases Nat.le_total j i with hle | hle
  · refine ⟨i - j, ?_⟩
    have hsplit : chunks.take i = chunks.take j ++ (chunks.drop j).take (i - j) := by
      rw [← List.take_add, Nat.add_sub_cancel' hle]
    rw [hsplit, List.flatten_append, hj] at hi
    exact List.append_cancel_left hi
  · -- no room for more than the first request
    refine ⟨0, ?_⟩
    have hprefix : (chunks.take i).flatten.length ≤ (chunks.take j).flatten.length := by
      have htake : chunks.take j = chunks.take i ++ (chunks.drop i).take (j - i) := by
        rw [← List.take_add, Nat.add_sub_cancel' hle]
      rw [htake, List.flatten_append, List.length_append]
      exact Nat.le_add_right _ _
    rw [hi, hj, List.length_append] at hprefix
    exact (List.eq_nil_of_length_eq_zero (by omega)).symm

/-- **No request is lost when each ends with a chunk.** -/
theorem readChunks_bodies : ∀ (requests : List (EncodedRequest memory)) {d : State}
    {log : List (Fd × Bytes)} {chunks : List Bytes}, Serving d cFd HttpSim.fresh log →
    (∀ chunk ∈ chunks, chunk ≠ []) →
    chunks.flatten = requests.flatMap EncodedRequest.text → EndsWithChunks requests chunks →
    ∃ d', readChunks memory cFd d chunks = .ok d' ∧
      Serving d' cFd HttpSim.fresh (log ++ requests.map fun r => (cFd, r.request.body)) := by
  intro requests
  induction requests with
  | nil =>
      intro d log chunks s hne hsplit _
      have hnil : chunks = [] := by
        cases chunks with
        | nil => rfl
        | cons chunk chunks =>
            exact absurd (List.append_eq_nil_iff.mp hsplit).1 (hne chunk List.mem_cons_self)
      subst hnil
      exact ⟨d, rfl, by simpa using s⟩
  | cons r requests ih =>
      intro d log chunks s hne hsplit hends
      obtain ⟨j, hj⟩ := hends 1
      have hj : (chunks.take j).flatten = r.text := by simpa using hj
      have hchunks : chunks = chunks.take j ++ chunks.drop j :=
        (List.take_append_drop j chunks).symm
      have hrest : (chunks.drop j).flatten = requests.flatMap EncodedRequest.text := by
        rw [hchunks, List.flatten_append, hj, List.flatMap_cons] at hsplit
        exact List.append_cancel_left hsplit
      obtain ⟨d₁, hfirst, s₁⟩ := s.readChunks_request r
        (fun c hc => hne c (List.mem_of_mem_take hc)) hj
      obtain ⟨d', hreads, s'⟩ := ih s₁ (fun c hc => hne c (List.mem_of_mem_drop hc)) hrest
        (hends.tail hj)
      refine ⟨d', ?_, by simpa using s'⟩
      rw [hchunks]
      exact (consume_append hfirst).trans hreads

/-- **The requests of a connection.** When each of the requests written back to
back ends with a chunk, their bodies are handled, in order, and nothing else. -/
theorem handles_bodies (d : State) (cFd fd : Fd) (requests : List (EncodedRequest memory))
    (chunks : List Bytes)
    (hclient : d.activeConnections.find cFd = some ⟨⟨⟨some fd⟩⟩, HttpSim.fresh⟩)
    (hne : ∀ chunk ∈ chunks, chunk ≠ [])
    (hsplit : chunks.flatten = requests.flatMap EncodedRequest.text)
    (hends : EndsWithChunks requests chunks) :
    ∃ d', readChunks memory cFd d chunks = .ok d' ∧
      d'.deserialized = d.deserialized ++ requests.map fun r => (cFd, r.request.body) := by
  obtain ⟨d', hreads, s'⟩ := readChunks_bodies requests ⟨⟨fd, hclient⟩, rfl⟩ hne hsplit hends
  exact ⟨d', hreads, s'.log_eq⟩

def telemetry : EncodedRequest .unlimited where
  request := submitTelemetry
  lines := submitTelemetry.headers.toPairs
  wellFormed := submitTelemetry_wellFormed

/-- The daemon after a client has connected, on descriptor 5. -/
def oneClient : State where
  kernel := ⟨[5, 0, 1, 2, 3, 4], UnorderedMap.ofPairs
    [(3, EVENT_READ.toUInt32 ||| EPOLLRDHUP), (5, EVENT_READ.toUInt32 ||| EPOLLRDHUP)]⟩
  mainLoop := ⟨UnorderedMap.ofPairs [(3, .accept), (5, .read)]⟩
  activeConnections := UnorderedMap.ofPairs [(5, ⟨⟨⟨some 5⟩⟩, HttpSim.fresh⟩)]
  deserialized := []

example : acceptCallback (started [0, 1, 2, 3, 4] 3) = .ok oneClient := rfl

theorem handles_bodies_telemetry :
    ∃ d', readChunks .unlimited 5 oneClient
        [telemetry.text.take 40, telemetry.text.drop 40, telemetry.text] = .ok d' ∧
      d'.deserialized = [(5, submitTelemetry.body), (5, submitTelemetry.body)] :=
  handles_bodies oneClient 5 5 [telemetry, telemetry]
    [telemetry.text.take 40, telemetry.text.drop 40, telemetry.text] rfl
    (by decide +kernel) (by simp [← List.append_assoc])
    (fun k => match k with
      | 0 => ⟨0, rfl⟩
      | 1 => ⟨2, by simp⟩
      | _ + 2 => ⟨3, by simp [← List.append_assoc]⟩)

/-- Two requests in one chunk: the second is lost. -/
theorem pipelined_lost :
    [telemetry.text ++ telemetry.text].flatten =
      [telemetry, telemetry].flatMap EncodedRequest.text ∧
    (telemetry.text ++ telemetry.text).length ≤ 2048 ∧
    ∃ d', readChunks .unlimited 5 oneClient [telemetry.text ++ telemetry.text] = .ok d' ∧
      d'.deserialized = [(5, submitTelemetry.body)] ∧
      d'.deserialized ≠ [telemetry, telemetry].map fun r => (5, r.request.body) := by
  refine ⟨by simp, by decide +kernel, ?_⟩
  have hserving : Serving oneClient 5 HttpSim.fresh [] := ⟨⟨5, rfl⟩, rfl⟩
  obtain ⟨p₁, p₂, hbefore, hdone, hreq⟩ := HttpSim.feed_encode telemetry.wellFormed
    (by simp : ([] ++ telemetry.text :: []).flatten = telemetry.text)
    (by decide +kernel) (by simp)
  obtain rfl := (Prod.mk.inj (Except.ok.inj hbefore)).2
  obtain ⟨d', hread, s'⟩ := hserving.read_true (by decide +kernel) hdone
  rw [hreq] at s'
  refine ⟨d', consume_cons ((hserving.read_rest_lost (by decide +kernel) hdone _).trans hread),
    s'.log_eq, ?_⟩
  rw [s'.log_eq]
  decide +kernel

end Netsim.Daemon
