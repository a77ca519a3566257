import Netsim.Core.Connection
import Netsim.Foundation.Binary64

/-!
# The telemetry publisher

`system/telemetry_http_client.cpp`: the endpoint that a URL names, the JSON text of a
sample, and one POST request over a fresh connection. A `std::string` is a list of bytes
and `npos` is `none`. What the resolver, the sockets and the peer answer are inputs, and
so is the format of a `double`.
-/

namespace Netsim.System.TelemetryHttp

open Foundation Netsim.Core Netsim.Protocols

/-! ### Strings -/

/-- `'\t'`, `'/'`, `'"'` and `'\\'`. -/
def tab : UInt8 := 9
def slash : UInt8 := 47
def quotationMark : UInt8 := 34
def reverseSolidus : UInt8 := 92

/-- The bytes of a string literal. -/
def literal (s : String) : Bytes := s.toUTF8.toList

/-- `s.find(ch)` -/
def find (s : Bytes) (ch : UInt8) : Option ℕ := s.findIdx? (· == ch)

/-- `s.rfind(ch)` -/
def rfind (s : Bytes) (ch : UInt8) : Option ℕ :=
  (s.reverse.findIdx? (· == ch)).map fun i => s.length - 1 - i

/-- `s.substr(pos, count)`, where `npos` asks for all that is left. -/
def substr (s : Bytes) (pos : ℕ) (count : Option ℕ) : Bytes :=
  match count with
  | none => s.drop pos
  | some count => (s.drop pos).take count

section Search

variable {s t : Bytes} {ch : UInt8} {pos : ℕ}

theorem find_eq_none_iff : find s ch = none ↔ ch ∉ s := by
  rw [find, List.findIdx?_eq_none_iff]
  simp only [beq_eq_false_iff_ne]
  exact ⟨fun h hmem => h ch hmem rfl, fun h x hx heq => h (heq ▸ hx)⟩

theorem find_append_cons (h : ch ∉ s) : find (s ++ ch :: t) ch = some s.length := by
  have hnone : s.findIdx? (· == ch) = none := find_eq_none_iff.mpr h
  rw [find, List.findIdx?_append, hnone, List.findIdx?_cons, beq_self_eq_true]
  simp

theorem rfind_eq_none_iff : rfind s ch = none ↔ ch ∉ s := by
  rw [rfind, Option.map_eq_none_iff, ← List.mem_reverse]
  exact find_eq_none_iff

theorem rfind_append_cons (h : ch ∉ t) : rfind (s ++ ch :: t) ch = some s.length := by
  have hfind : find (t.reverse ++ ch :: s.reverse) ch = some t.length := by
    rw [find_append_cons (by rwa [List.mem_reverse]), List.length_reverse]
  have hrev : (s ++ ch :: t).reverse = t.reverse ++ ch :: s.reverse := by simp
  rw [rfind, hrev, show List.findIdx? _ _ = _ from hfind, Option.map_some]
  simp

theorem lt_of_rfind (h : rfind s ch = some pos) : pos < s.length := by
  obtain ⟨i, hi, rfl⟩ := Option.map_eq_some_iff.mp h
  have hlt := (List.findIdx?_eq_some_iff_findIdx_eq.mp hi).1
  rw [List.length_reverse] at hlt
  omega

theorem substr_append (s t : Bytes) : substr (s ++ t) 0 (some s.length) = s := by
  rw [substr, List.drop_zero, List.take_left]

theorem substr_append_right (s t : Bytes) : substr (s ++ t) s.length none = t := by
  rw [substr, List.drop_left]

end Search

/-- `std::stoi(str)`; `none` is `std::invalid_argument` or `std::out_of_range`. -/
def stoi (str : Bytes) : Option ℤ :=
  let signed := splitSign (str.dropWhile isSpace)
  let digits := signed.2.takeWhile isDigit
  if digits = [] then none
  else
    let value : ℤ := if signed.1 then -(decimalValue digits) else decimalValue digits
    if -2 ^ 31 ≤ value ∧ value < 2 ^ 31 then some value else none

/-! ### The endpoint -/

structure TelemetryEndpoint where
  host : Bytes
  port : Bytes
  path : Bytes
deriving DecidableEq, Repr

/-- `std::invalid_argument(what)` -/
structure InvalidArgument where
  what : String
deriving DecidableEq, Repr

def httpScheme : Bytes := literal "http://"

def parseEndpoint (url : Bytes) : Except InvalidArgument TelemetryEndpoint :=
  if ¬ httpScheme <+: url then
    .error ⟨"Only http:// telemetry endpoints are supported"⟩
  else
    let withoutScheme := substr url httpScheme.length none
    let pathPos := find withoutScheme slash
    let hostPort := substr withoutScheme 0 pathPos
    let path := match pathPos with
      | none => [slash]
      | some pathPos => substr withoutScheme pathPos none
    match rfind hostPort colon with
    | none => .ok ⟨hostPort, literal "80", path⟩
    | some portPos =>
        .ok ⟨substr hostPort 0 (some portPos), substr hostPort (portPos + 1) none, path⟩

/-! ### The text of a sample -/

structure TelemetrySample where
  timestampUs : UInt64
  sourceNode : Bytes
  destNode : Bytes
  packetSize : UInt32
  latencyNs : Binary64
  droppedPackets : UInt32
  throughputKbps : Binary64

/-- The text that `escape_json` writes for one character. -/
def escapeChar (ch : UInt8) : Bytes :=
  if ch = reverseSolidus then [reverseSolidus, reverseSolidus]
  else if ch = quotationMark then [reverseSolidus, quotationMark]
  else if ch = lf then [reverseSolidus, 'n'.toUInt8]
  else if ch = cr then [reverseSolidus, 'r'.toUInt8]
  else if ch = tab then [reverseSolidus, 't'.toUInt8]
  else [ch]

def escapeJson (input : Bytes) : Bytes := input.flatMap escapeChar

/-- A string of the sample between its quotation marks. -/
def quoted (s : Bytes) : Bytes := quotationMark :: escapeJson s ++ [quotationMark]

/-- `to_json`, with the format of a `double` in an output stream. -/
def toJson (formatDouble : Binary64 → Bytes) (sample : TelemetrySample) : Bytes :=
  literal "\x7b" ++
    literal "\"timestamp_us\":" ++ decimal sample.timestampUs.toNat ++ literal "," ++
    literal "\"source_node\":" ++ quoted sample.sourceNode ++ literal "," ++
    literal "\"dest_node\":" ++ quoted sample.destNode ++ literal "," ++
    literal "\"packet_size\":" ++ decimal sample.packetSize.toNat ++ literal "," ++
    literal "\"latency_ns\":" ++ formatDouble sample.latencyNs ++ literal "," ++
    literal "\"dropped_packets\":" ++ decimal sample.droppedPackets.toNat ++ literal "," ++
    literal "\"throughput_kbps\":" ++ formatDouble sample.throughputKbps ++ literal "\x7d"

/-! ### The request -/

/-- The locals of `send_all`, and what the kernel has taken so far. -/
structure SendAllState where
  totalSent : UInt64
  chunks : List Bytes

/-- The loop of `send_all`. -/
def sendAllLoop (kernel : SendKernel) (request : Bytes) :
    ℕ → SendAllState → Option (Bool × SendLog)
  | 0, _ => none
  | fuel + 1, s =>
      let size := UInt64.ofNat request.length
      if s.totalSent < size then
        match kernel s.chunks.length (size - s.totalSent).toNat with
        | .failed errno => some (false, ⟨s.chunks, some errno⟩)
        | .accepted sent _ _ =>
            sendAllLoop kernel request fuel {
              totalSent := s.totalSent + UInt64.ofNat sent
              chunks := s.chunks ++ [(request.drop s.totalSent.toNat).take sent] }
      else some (true, ⟨s.chunks, none⟩)

/-- `send_all`, with the fuel of its loop. -/
def sendAll (kernel : SendKernel) (request : Bytes) (fuel : ℕ) : Option (Bool × SendLog) :=
  sendAllLoop kernel request fuel { totalSent := 0, chunks := [] }

/-- `status_is_success`; `none` is an exception of `std::stoi`. -/
def statusIsSuccess (response : Bytes) : Option Bool :=
  match find response sp with
  | none => some false
  | some firstSpace =>
      if response.length ≤ firstSpace + 3 then some false
      else
        (stoi (substr response (firstSpace + 1) (some 3))).map fun statusCode =>
          decide (200 ≤ statusCode ∧ statusCode < 300)

/-- How `socket` and `connect` go for one address. -/
inductive Attempt where
  | noSocket
  | refused
  | connected
deriving DecidableEq, Repr

/-- The loop over the addresses: whether it leaves with a connected socket. -/
def connectFirst : List Attempt → Bool
  | [] => false
  | .connected :: _ => true
  | .noSocket :: rest => connectFirst rest
  | .refused :: rest => connectFirst rest

/-- What arrives on the socket: segments up to the end of the stream, or an error. -/
inductive Incoming where
  | segments (segments : List Bytes)
  | failed (errno : Errno)
deriving DecidableEq, Repr

/-- The first `::recv`, with room for `size` bytes. It does not wait for a second segment. -/
def recv (size : ℕ) : Incoming → RecvResult
  | .failed errno => .failed errno
  | .segments [] => .received []
  | .segments (segment :: _) => .received (segment.take size)

/-- The answers to the calls of `post_sample`; `addresses` is `none` when `getaddrinfo`
fails. -/
structure Network where
  addresses : Option (List Attempt)
  sends : SendKernel
  incoming : Incoming

structure TelemetryHttpClient where
  endpointUrl : Bytes
  endpoint : TelemetryEndpoint
deriving DecidableEq, Repr

namespace TelemetryHttpClient

/-- The constructor, which throws what `parse_endpoint` throws. -/
def create (endpointUrl : Bytes) : Except InvalidArgument TelemetryHttpClient :=
  (parseEndpoint endpointUrl).map fun endpoint => { endpointUrl, endpoint }

def request (client : TelemetryHttpClient) (body : Bytes) : Bytes :=
  literal "POST " ++ client.endpoint.path ++ literal " HTTP/1.1\r\n" ++
    literal "Host: " ++ client.endpoint.host ++ literal ":" ++ client.endpoint.port ++
    literal "\r\n" ++
    literal "Content-Type: application/json\r\n" ++
    literal "Content-Length: " ++ decimal body.length ++ literal "\r\n" ++
    literal "Connection: close\r\n" ++
    literal "\r\n" ++
    body

/-- What `post_sample` concludes from the reply. -/
def verdict (incoming : Incoming) : Bool :=
  match recv 511 incoming with
  | .failed _ => false
  | .received data => if data.length = 0 then false else (statusIsSuccess data).getD false

/-- `post_sample`, with the fuel of `send_all`. -/
def postSample (formatDouble : Binary64 → Bytes) (client : TelemetryHttpClient)
    (network : Network) (sample : TelemetrySample) (fuel : ℕ) : Option Bool :=
  match network.addresses with
  | none => some false
  | some addresses =>
      if connectFirst addresses then
        (sendAll network.sends (client.request (toJson formatDouble sample)) fuel).map fun sent =>
          if sent.1 then verdict network.incoming else false
      else some false

end TelemetryHttpClient

end Netsim.System.TelemetryHttp
