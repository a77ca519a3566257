import Netsim.Protocols.HttpRoundTrip
import Netsim.System.PartialSends

/-!
# The verdict of the publisher

`post_sample` reads the reply with one `recv`, although `send_all` writes the request in as
many calls as it takes. What the first segment brings decides: when it ends before the
status code does, the sample counts as lost.
-/

namespace Netsim.System.TelemetryHttp

open Foundation Netsim.Core Netsim.Protocols

/-- A reply whose first line starts with a version, a space and a status code. -/
structure Reply where
  version : Bytes
  code : Bytes
  rest : Bytes
  no_space : sp ∉ version
  code_length : code.length = 3
  code_digits : ∀ b ∈ code, isDigit b = true

namespace Reply

def text (reply : Reply) : Bytes := reply.version ++ sp :: (reply.code ++ reply.rest)

def statusCode (reply : Reply) : ℕ := decimalValue reply.code

def Success (reply : Reply) : Prop := 200 ≤ reply.statusCode ∧ reply.statusCode < 300

instance (reply : Reply) : Decidable reply.Success := inferInstanceAs (Decidable (_ ∧ _))

end Reply

/-- A way to cut a text into the segments that arrive. -/
structure Segmentation (text : Bytes) where
  segments : List Bytes
  ne_nil : ∀ segment ∈ segments, segment ≠ []
  flatten : segments.flatten = text

/-- What the first `recv` returns. -/
def Segmentation.received {text : Bytes} (cut : Segmentation text) : Bytes :=
  (cut.segments.headD []).take 511

variable {reply : Reply} {front : Bytes}

/-! ### The status line -/

theorem stoi_digits {v : Bytes} (hne : v ≠ []) (hdigits : ∀ b ∈ v, isDigit b = true)
    (hlength : v.length ≤ 9) : stoi v = some (decimalValue v : ℤ) := by
  have hlt : decimalValue v < 10 ^ 9 :=
    Nat.lt_of_lt_of_le (decimalValue_lt hdigits) (Nat.pow_le_pow_right (by decide) hlength)
  have htake : v.takeWhile isDigit = v := List.takeWhile_eq_self_iff.mpr hdigits
  unfold stoi
  rw [splitSign_dropWhile_of_digits hne hdigits]
  dsimp only
  rw [htake, if_neg hne, if_neg Bool.false_ne_true, if_pos]
  constructor <;> omega

/-- A front that reaches behind the version has the space. -/
theorem exists_eq_of_length_lt (hfront : front <+: reply.text)
    (hlt : reply.version.length < front.length) : ∃ t, front = reply.version ++ sp :: t := by
  have hver : reply.version ++ [sp] <+: reply.text :=
    ⟨reply.code ++ reply.rest, by rw [List.append_assoc, List.singleton_append, Reply.text]⟩
  have hle : (reply.version ++ [sp]).length ≤ front.length := by
    rwa [List.length_append, List.length_singleton]
  obtain ⟨t, ht⟩ := List.prefix_of_prefix_length_le hver hfront hle
  exact ⟨t, by rw [← ht, List.append_assoc, List.singleton_append]⟩

theorem statusIsSuccess_complete (t : Bytes) :
    statusIsSuccess (reply.version ++ sp :: (reply.code ++ t)) = some (decide reply.Success) := by
  have hlength := reply.code_length
  have hne : reply.code ≠ [] := List.ne_nil_of_length_pos (by omega)
  have hsubstr : substr (reply.version ++ sp :: (reply.code ++ t)) (reply.version.length + 1)
      (some 3) = reply.code := by
    rw [substr, ← List.drop_drop, List.drop_left, List.drop_one, List.tail_cons, ← hlength,
      List.take_left]
  unfold statusIsSuccess
  rw [find_append_cons reply.no_space]
  dsimp only
  rw [if_neg, hsubstr, stoi_digits hne reply.code_digits (by omega), Option.map_some]
  · congr 1
    rw [decide_eq_decide, Reply.Success, Reply.statusCode]
    omega
  · simp only [List.length_append, List.length_cons]
    omega

theorem statusIsSuccess_cut (hfront : front <+: reply.text)
    (hlt : front.length < reply.version.length + 4) : statusIsSuccess front = some false := by
  unfold statusIsSuccess
  rcases Nat.lt_or_ge reply.version.length front.length with hspace | hspace
  · obtain ⟨t, rfl⟩ := exists_eq_of_length_lt hfront hspace
    rw [find_append_cons reply.no_space]
    dsimp only
    rw [if_pos (by omega)]
  · have hversion : front <+: reply.version :=
      List.prefix_of_prefix_length_le hfront (List.prefix_append _ _) hspace
    rw [find_eq_none_iff.mpr fun hmem => reply.no_space (hversion.subset hmem)]

/-- A front that ends before the status code does is no success. -/
theorem statusIsSuccess_front (hfront : front <+: reply.text) : statusIsSuccess front =
    some (decide (reply.version.length + 4 ≤ front.length ∧ reply.Success)) := by
  by_cases hlong : reply.version.length + 4 ≤ front.length
  · obtain ⟨t, rfl⟩ := exists_eq_of_length_lt hfront (by omega)
    have hcode : reply.code <+: t := by
      have hrest : t <+: reply.code ++ reply.rest := by
        rw [Reply.text, List.prefix_append_right_inj, List.cons_prefix_cons] at hfront
        exact hfront.2
      refine List.prefix_of_prefix_length_le (List.prefix_append _ _) hrest ?_
      rw [List.length_append, List.length_cons] at hlong
      rw [reply.code_length]
      omega
    obtain ⟨t, rfl⟩ := hcode
    rw [statusIsSuccess_complete]
    simp only [hlong, true_and]
  · rw [statusIsSuccess_cut hfront (Nat.not_le.mp hlong)]
    simp only [hlong, false_and, decide_false]

/-! ### The first segment -/

theorem received_front {text : Bytes} (cut : Segmentation text) : cut.received <+: text := by
  obtain ⟨segments, hne, rfl⟩ := cut
  refine (List.take_prefix _ _).trans ?_
  cases segments with
  | nil => exact List.nil_prefix
  | cons segment segments => exact List.prefix_append _ _

theorem recv_segments {text : Bytes} (cut : Segmentation text) :
    recv 511 (.segments cut.segments) = .received cut.received := by
  unfold Segmentation.received
  cases cut.segments <;> rfl

theorem verdict_segments (cut : Segmentation reply.text) :
    TelemetryHttpClient.verdict (.segments cut.segments) =
      decide (reply.version.length + 4 ≤ cut.received.length ∧ reply.Success) := by
  unfold TelemetryHttpClient.verdict
  rw [recv_segments]
  dsimp only
  rw [statusIsSuccess_front (received_front cut), Option.getD_some]
  split_ifs with hempty
  · rw [hempty]
    simp
  · rfl

section

variable {formatDouble : Binary64 → Bytes} {client : TelemetryHttpClient}
  {sample : TelemetrySample} {addresses : List Attempt} {sends : SendKernel} {log : SendLog}

theorem postSample_returns (hconnect : connectFirst addresses = true)
    (hsent : Returns (sendAll sends (client.request (toJson formatDouble sample))) (true, log))
    (cut : Segmentation reply.text) :
    Returns (client.postSample formatDouble ⟨some addresses, sends, .segments cut.segments⟩ sample)
      (decide (reply.version.length + 4 ≤ cut.received.length ∧ reply.Success)) := by
  rw [← verdict_segments]
  unfold TelemetryHttpClient.postSample
  simp only [if_pos hconnect]
  exact hsent.map fun sent =>
    if sent.1 then TelemetryHttpClient.verdict (.segments cut.segments) else false

end

/-- **When the verdict is that of the reply.** After a request sent in full, it is right for
a reply that is no success, and for a success just when the first `recv` returns the whole
status code. -/
theorem postSample_verdict_iff (formatDouble : Binary64 → Bytes) (client : TelemetryHttpClient)
    (sample : TelemetrySample) {addresses : List Attempt} (hconnect : connectFirst addresses = true)
    {sends : SendKernel} {log : SendLog}
    (hsent : Returns (sendAll sends (client.request (toJson formatDouble sample))) (true, log))
    (reply : Reply) (cut : Segmentation reply.text) :
    Returns (client.postSample formatDouble ⟨some addresses, sends, .segments cut.segments⟩ sample)
        (decide reply.Success) ↔
      ¬ reply.Success ∨ reply.version.length + 4 ≤ cut.received.length := by
  have hreturns := postSample_returns hconnect hsent cut
  constructor
  · intro hright
    have heq := decide_eq_decide.mp (hreturns.unique hright)
    by_cases hsuccess : reply.Success
    · exact Or.inr (heq.mpr hsuccess).1
    · exact Or.inl hsuccess
  · intro hcond
    have heq : (reply.version.length + 4 ≤ cut.received.length ∧ reply.Success) ↔ reply.Success :=
      and_iff_right_of_imp fun hsuccess => hcond.resolve_left (not_not.mpr hsuccess)
    rwa [decide_eq_decide.mpr heq] at hreturns

/-! ### A reply that arrives in two segments -/

/-- A kernel that takes all that it is offered. -/
def acceptAll : SendKernel := fun _ requested =>
  if h : 1 ≤ requested then .accepted requested h (Nat.le_refl _) else .failed EAGAIN

theorem failure_acceptAll (call : ℕ) (rest : Bytes) :
    (transfer acceptAll call rest).failure = none := by
  by_cases hrest : rest = []
  · rw [hrest, transfer_nil]
  · have hanswer : acceptAll call rest.length =
        .accepted rest.length (List.length_pos_iff.mpr hrest) (Nat.le_refl _) := dif_pos _
    rw [transfer_accepted hrest rfl hanswer, List.drop_length, transfer_nil]

/-- The endpoint of the daemon, as it is configured by default. -/
def defaultClient : TelemetryHttpClient where
  endpointUrl := literal "http://127.0.0.1:8000/telemetry/stream"
  endpoint := ⟨literal "127.0.0.1", literal "8000", literal "/telemetry/stream"⟩

def emptySample : TelemetrySample where
  timestampUs := 0
  sourceNode := []
  destNode := []
  packetSize := 0
  latencyNs := .ofInt 0
  droppedPackets := 0
  throughputKbps := .ofInt 0

/-- The request for a sample whose two numbers are written `0`. -/
def emptyRequest : Buffer where
  bytes := defaultClient.request (toJson (fun _ => [48]) emptySample)
  size_le := by decide +kernel

theorem emptyRequest_sent :
    Returns (sendAll acceptAll emptyRequest.bytes)
      (true, transfer acceptAll 0 emptyRequest.bytes) := by
  have hreturns := sendAll_returns acceptAll emptyRequest
  rwa [failure_acceptAll, Option.isNone_none] at hreturns

/-- `HTTP/1.1 200` and the end of the line. -/
def okReply : Reply where
  version := [72, 84, 84, 80, 47, 49, 46, 49]
  code := [50, 48, 48]
  rest := [13, 10]
  no_space := by decide
  code_length := rfl
  code_digits := by decide

def okReplyWhole : Segmentation okReply.text where
  segments := [okReply.text]
  ne_nil := by decide
  flatten := rfl

/-- The first segment ends within the status code. -/
def okReplyCut : Segmentation okReply.text where
  segments := [[72, 84, 84, 80, 47, 49, 46, 49, 32, 50], [48, 48, 13, 10]]
  ne_nil := by decide
  flatten := rfl

theorem postSample_verdict_iff_whole :
    Returns (defaultClient.postSample (fun _ => [48])
        ⟨some [.connected], acceptAll, .segments okReplyWhole.segments⟩ emptySample)
        (decide okReply.Success) ↔
      ¬ okReply.Success ∨ okReply.version.length + 4 ≤ okReplyWhole.received.length :=
  postSample_verdict_iff (fun _ => [48]) defaultClient emptySample rfl emptyRequest_sent okReply
    okReplyWhole

/-- The sample is stored, and counts as lost. -/
theorem not_postSample_verdict :
    okReply.Success ∧
      ¬ Returns (defaultClient.postSample (fun _ => [48])
        ⟨some [.connected], acceptAll, .segments okReplyCut.segments⟩ emptySample) true := by
  refine ⟨by decide, fun hright => ?_⟩
  have hreturns : Returns (defaultClient.postSample (fun _ => [48])
      ⟨some [.connected], acceptAll, .segments okReplyCut.segments⟩ emptySample) _ :=
    postSample_returns rfl emptyRequest_sent okReplyCut
  have hverdict : _ = true := hreturns.unique hright
  revert hverdict
  decide

end Netsim.System.TelemetryHttp
