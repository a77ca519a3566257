import Netsim.Protocols.HttpGrammar
import Netsim.System.ReplyVerdict

/-!
# What is read of a posted request

The publisher writes its request in the pieces that the kernel takes, and a receiver reads
it in other pieces. `HttpSim` understands the very message that was meant, and only once
all of it was sent, just when the endpoint is legible and there is memory for the body
(`sendAll_read`): the parts of a URL go into the text as they are, and a space in the path
or a CR in the host would be read as the end of something.
-/

namespace Netsim.System.TelemetryHttp

open Foundation Netsim.Core Netsim.Protocols

variable {memory : Allocator} {client : TelemetryHttpClient} {body text : Bytes}
  {chunks : List Bytes} {reports : List Bool} {q : HttpSim}

/-- The value of the `Host` header. -/
def TelemetryEndpoint.hostPort (endpoint : TelemetryEndpoint) : Bytes :=
  endpoint.host ++ colon :: endpoint.port

/-- The endpoint stands in a request as what it is. -/
structure TelemetryEndpoint.Legible (endpoint : TelemetryEndpoint) : Prop where
  path : sp ∉ endpoint.path
  hostPort : cr ∉ endpoint.hostPort ∧ endpoint.hostPort.head? ≠ some sp

/-- A receiver with this memory can read the client's post of this body. -/
structure Readable (memory : Allocator) (client : TelemetryHttpClient) (body : Bytes) : Prop where
  legible : client.endpoint.Legible
  body_le : body.length ≤ memory.limit

theorem substr_subset (s : Bytes) (pos : ℕ) (count : Option ℕ) : substr s pos count ⊆ s := by
  cases count with
  | none => exact (List.drop_sublist _ _).subset
  | some count => exact ((List.take_sublist _ _).trans (List.drop_sublist _ _)).subset

/-- The parts of an endpoint are taken from the URL, or are the defaults. -/
theorem parseEndpoint_subset {url : Bytes} {endpoint : TelemetryEndpoint}
    (h : parseEndpoint url = .ok endpoint) : endpoint.host ⊆ url ∧
      endpoint.port ⊆ url ++ literal "80" ∧ endpoint.path ⊆ url ++ [slash] := by
  unfold parseEndpoint at h
  split_ifs at h with hscheme
  dsimp only at h
  have hrest := substr_subset url httpScheme.length none
  generalize substr url httpScheme.length none = withoutScheme at h hrest
  have hpart : ∀ pos count, substr withoutScheme pos count ⊆ url :=
    fun pos count => List.Subset.trans (substr_subset _ _ _) hrest
  have hhostPort := hpart 0 (find withoutScheme slash)
  generalize substr withoutScheme 0 (find withoutScheme slash) = hostPort at h hhostPort
  have hpath : endpoint.path ⊆ url ++ [slash] := by
    cases hpos : find withoutScheme slash with
    | none =>
        rw [hpos] at h
        split at h <;> obtain rfl := Except.ok.inj h <;> exact List.subset_append_right _ _
    | some pathPos =>
        have hsubset := List.subset_append_of_subset_left [slash] (hpart pathPos none)
        rw [hpos] at h
        split at h <;> obtain rfl := Except.ok.inj h <;> exact hsubset
  cases hport : rfind hostPort colon with
  | none =>
      rw [hport] at h
      obtain rfl := Except.ok.inj h
      exact ⟨hhostPort, List.subset_append_right _ _, hpath⟩
  | some portPos =>
      have hsplit : ∀ pos count, substr hostPort pos count ⊆ url :=
        fun pos count => List.Subset.trans (substr_subset _ _ _) hhostPort
      rw [hport] at h
      obtain rfl := Except.ok.inj h
      exact ⟨hsplit 0 (some portPos),
        List.subset_append_of_subset_left _ (hsplit (portPos + 1) none), hpath⟩

/-- Without spaces and CRs in the URL there are none in the parts. -/
theorem legible_of_url {url : Bytes} {endpoint : TelemetryEndpoint}
    (h : parseEndpoint url = .ok endpoint) (hsp : sp ∉ url) (hcr : cr ∉ url) :
    endpoint.Legible := by
  obtain ⟨hhost, hport, hpath⟩ := parseEndpoint_subset h
  have hnone : ∀ b, b ∉ url → b ∉ literal "80" → b ≠ colon → b ∉ endpoint.hostPort := by
    intro b hurl hdefault hcolon hmem
    rw [TelemetryEndpoint.hostPort, List.mem_append, List.mem_cons] at hmem
    rcases hmem with hmem | hmem | hmem
    · exact hurl (hhost hmem)
    · exact hcolon hmem
    · exact (List.mem_append.mp (hport hmem)).elim hurl hdefault
  constructor
  · intro hmem
    exact (List.mem_append.mp (hpath hmem)).elim hsp (by decide)
  · refine ⟨hnone cr hcr (by decide +kernel) (by decide), fun hhead => ?_⟩
    exact hnone sp hsp (by decide +kernel) (by decide) (List.mem_of_mem_head? hhead)

namespace TelemetryHttpClient

def headerLines (client : TelemetryHttpClient) (body : Bytes) : List (Bytes × Bytes) :=
  [(literal "Host", client.endpoint.hostPort),
    (literal "Content-Type", literal "application/json"),
    (contentLengthKey, decimal body.length),
    (literal "Connection", literal "close")]

/-- The message that `request` is the text of. -/
def message (client : TelemetryHttpClient) (body : Bytes) : HttpRequest where
  method := literal "POST"
  uri := client.endpoint.path
  version := literal "HTTP/1.1"
  headers := UnorderedMap.ofPairs (client.headerLines body)
  body := body

theorem request_eq_encode (client : TelemetryHttpClient) (body : Bytes) :
    client.request body = encode (client.message body) (client.headerLines body) := by
  have hmethod : literal "POST " = literal "POST" ++ [sp] := by decide +kernel
  have hversion : literal " HTTP/1.1\r\n" = [sp] ++ literal "HTTP/1.1" ++ [cr, lf] := by
    decide +kernel
  have hhost : literal "Host: " = literal "Host" ++ [colon, sp] := by decide +kernel
  have hcolon : literal ":" = [colon] := by decide +kernel
  have htype : literal "Content-Type: application/json\r\n" =
      literal "Content-Type" ++ [colon, sp] ++ literal "application/json" ++ [cr, lf] := by
    decide +kernel
  have hlength : literal "Content-Length: " = contentLengthKey ++ [colon, sp] := by
    decide +kernel
  have hconnection : literal "Connection: close\r\n" =
      literal "Connection" ++ [colon, sp] ++ literal "close" ++ [cr, lf] := by decide +kernel
  have hline : literal "\r\n" = [cr, lf] := by decide +kernel
  rw [request, hmethod, hversion, hhost, hcolon, htype, hlength, hconnection, hline]
  simp [encode, message, headerLines, headerLine, TelemetryEndpoint.hostPort]

theorem headerLines_keys_nodup (client : TelemetryHttpClient) (body : Bytes) :
    ((client.headerLines body).map Prod.fst).Nodup := by
  show [literal "Host", literal "Content-Type", contentLengthKey, literal "Connection"].Nodup
  decide +kernel

theorem find_message_headers {k x : Bytes} :
    (client.message body).headers.find k = some x ↔ (k, x) ∈ client.headerLines body := by
  rw [message, UnorderedMap.ofPairs,
    UnorderedMap.find_foldl_set _ ∅ (headerLines_keys_nodup client body),
    UnorderedMap.find_empty]
  simp

theorem message_wellFormed (h : Readable memory client body) :
    WellFormed memory (client.message body) (client.headerLines body) where
  headers := UnorderedMap.perm_toPairs_ofPairs (headerLines_keys_nodup client body)
  method := by
    show sp ∉ literal "POST"
    decide +kernel
  uri := h.legible.path
  version := by
    show cr ∉ literal "HTTP/1.1" ∧ lf ∉ literal "HTTP/1.1"
    decide +kernel
  key := by
    intro line hline
    have hkey := List.mem_map_of_mem (f := Prod.fst) hline
    revert hkey
    generalize line.1 = key
    show key ∈ [literal "Host", literal "Content-Type", contentLengthKey, literal "Connection"] → _
    revert key
    decide +kernel
  value := by
    have hspace : sp ∉ decimal body.length := fun hmem =>
      absurd ((isDecimal_decimal _).digits sp hmem) (by decide)
    have hcr : cr ∉ decimal body.length := fun hmem =>
      absurd ((isDecimal_decimal _).digits cr hmem) (by decide)
    intro line hline
    simp only [headerLines, List.mem_cons, List.not_mem_nil, or_false] at hline
    rcases hline with rfl | rfl | rfl | rfl
    · exact h.legible.hostPort
    · decide +kernel
    · exact ⟨hcr, fun hhead => hspace (List.mem_of_mem_head? hhead)⟩
    · decide +kernel
  framing := Or.inr ⟨decimal body.length, find_message_headers.mpr (by simp [headerLines]),
    isDecimal_decimal _⟩
  body_le := h.body_le

end TelemetryHttpClient

/-! ### What the parser can have read -/

/-- A stored value holds no CR and begins with no space. -/
theorem headersOf_value {lines : List HeaderLine} (hlines : ∀ l ∈ lines, l.WellFormed)
    {k v : Bytes} (h : (headersOf lines).find k = some v) : cr ∉ v ∧ v.head? ≠ some sp := by
  induction lines using List.reverseRecOn with
  | nil =>
      rw [headersOf, List.foldl_nil, UnorderedMap.find_empty] at h
      cases h
  | append_singleton lines l ih =>
      rw [headersOf_concat, UnorderedMap.find_set] at h
      split_ifs at h with hk
      · obtain rfl := Option.some.inj h
        have hraw := (hlines l (List.mem_append_right _ List.mem_cons_self)).raw
        refine ⟨fun hmem => hraw ((List.dropWhile_sublist _).subset hmem), fun hhead => ?_⟩
        have hfirst := List.head?_dropWhile_not (fun b => decide (b = sp)) l.raw
        rw [show (l.raw.dropWhile _).head? = _ from hhead] at hfirst
        simp at hfirst
      · exact ih (fun l' hl' => hlines l' (List.mem_append_left _ hl')) h

/-- A message that was read could be read. -/
theorem readable_of_reads (hreads : Reads memory text q) (hcomplete : q.isComplete = true)
    (hsame : SameRequest q.request (client.message body)) : Readable memory client body := by
  have hstate : q.state = .Complete := of_decide_eq_true hcomplete
  cases hreads with
  | complete hhead hn hb =>
      refine ⟨⟨?_, ?_⟩, ?_⟩
      · rw [show client.endpoint.path = _ from hsame.uri.symm]
        exact hhead.requestLine.uri
      · refine headersOf_value hhead.lines (k := literal "Host") ?_
        have hheaders := hsame.headers (literal "Host")
        rw [TelemetryHttpClient.find_message_headers.mpr List.mem_cons_self] at hheaders
        exact hheaders
      · rw [show body = _ from hsame.body.symm]
        exact hb.le.trans hn
  | error herror hbody hread =>
      rw [herror] at hstate
      cases hstate
  | _ => cases hstate

/-- The chunks are read as the message. -/
def ReadAs (memory : Allocator) (message : HttpRequest) (chunks : List Bytes) : Prop :=
  ∃ reports q, feed (HttpSim.parseChunk memory) HttpSim.fresh chunks = .ok (reports, q) ∧
    true ∈ reports ∧ SameRequest q.request message

theorem readable_of_readAs (h : ReadAs memory (client.message body) chunks) :
    Readable memory client body := by
  obtain ⟨reports, q, hfeed, hreport, hsame⟩ := h
  have hcomplete := (mem_reports_iff (HttpSim.parseChunk_eq memory)
    (HttpSim.parseByte_complete memory) chunks rfl hfeed).mp hreport
  have hrun := feed_consume (HttpSim.parseChunk_eq memory) chunks hfeed
  exact readable_of_reads (HttpSim.reads_of_consume hrun) hcomplete hsame

/-- The first part of a readable request is read without a complaint, and reported to be
complete when it is the whole. -/
theorem readAs_front (h : Readable memory client body)
    (hfront : chunks.flatten <+: client.request body) :
    ∃ reports q, feed (HttpSim.parseChunk memory) HttpSim.fresh chunks = .ok (reports, q) ∧
      (true ∈ reports ↔ chunks.flatten = client.request body) ∧
      (chunks.flatten = client.request body → SameRequest q.request (client.message body)) := by
  obtain ⟨text, x, u, t, htext, hrun, hu, hx, ht, hrequest⟩ :=
    HttpSim.consume_encode (TelemetryHttpClient.message_wellFormed h)
  rw [← TelemetryHttpClient.request_eq_encode] at htext
  have hwhole : consume (HttpSim.parseByte memory) HttpSim.fresh (text ++ [x]) = .ok t := by
    rw [consume_append hrun, consume_cons hx, consume_nil]
  have hsame : SameRequest t.request (client.message body) := by
    rw [hrequest]
    exact ⟨rfl, rfl, rfl, fun key => rfl, rfl⟩
  rw [htext] at hfront ⊢
  obtain ⟨rest, hrest⟩ := hfront
  rw [← hrest] at hwhole ⊢
  obtain ⟨q, hq, -⟩ := consume_prefix hwhole
  obtain ⟨reports, q', hfeed⟩ :=
    (feed_ok_iff (HttpSim.parseChunk_eq memory) chunks HttpSim.fresh).mpr ⟨q, hq⟩
  have hreports := mem_reports_iff (HttpSim.parseChunk_eq memory)
    (HttpSim.parseByte_complete memory) chunks rfl hfeed
  obtain rfl :=
    Except.ok.inj (hq.symm.trans (feed_consume (HttpSim.parseChunk_eq memory) chunks hfeed))
  refine ⟨reports, q, hfeed, ?_⟩
  rw [hreports]
  rcases List.eq_nil_or_concat rest with rfl | ⟨rest, y, rfl⟩
  · rw [List.append_nil] at hwhole ⊢
    obtain rfl := Except.ok.inj (hq.symm.trans hwhole)
    exact ⟨iff_of_true ht rfl, fun _ => hsame⟩
  · -- the last byte is still to come
    rw [List.concat_eq_append, ← List.append_assoc] at hrest
    rw [← (List.append_inj' hrest rfl).1] at hrun
    have hnot : q.isComplete = false :=
      not_done_of_prefix (HttpSim.parseByte_complete memory) hrun hu hq
    have hne : chunks.flatten ≠ chunks.flatten ++ rest.concat y := by simp
    rw [hnot]
    exact ⟨iff_of_false Bool.false_ne_true hne, fun heq => absurd heq hne⟩

/-! ### What is read of a post -/

/-- **A post as it is read.** `send_all` returns, its calls being those of one transfer of
the request, and whatever the pieces are in which the receiver gets what the kernel has
taken, they are read as the message just when all of it was sent, the endpoint is legible
and there is memory for the body. A receiver that could read the message never fails, and
takes no part of the request for the whole. -/
theorem sendAll_read (memory : Allocator) (formatDouble : Binary64 → Bytes)
    (client : TelemetryHttpClient) (sample : TelemetrySample) (kernel : SendKernel)
    (hsize : (client.request (toJson formatDouble sample)).length ≤ maxVectorSize) :
    ∃ sent log,
      Returns (sendAll kernel (client.request (toJson formatDouble sample))) (sent, log) ∧
      log = transfer kernel 0 (client.request (toJson formatDouble sample)) ∧
      ∀ chunks, chunks.flatten = log.chunks.flatten →
        (ReadAs memory (client.message (toJson formatDouble sample)) chunks ↔
          sent = true ∧ Readable memory client (toJson formatDouble sample)) ∧
        (Readable memory client (toJson formatDouble sample) → ∃ reports q,
          feed (HttpSim.parseChunk memory) HttpSim.fresh chunks = .ok (reports, q) ∧
            (true ∈ reports ↔ sent = true)) := by
  generalize toJson formatDouble sample = body at hsize ⊢
  have hfront := flatten_transfer_front kernel 0 (client.request body)
  have hwhole := flatten_transfer_eq_iff kernel 0 (client.request body)
  refine ⟨_, _, sendAll_returns kernel ⟨_, hsize⟩, rfl, fun chunks hchunks => ?_⟩
  rw [← hchunks] at hfront hwhole
  rw [Option.isNone_iff_eq_none, ← hwhole]
  refine ⟨⟨fun hread => ?_, fun ⟨hall, hreadable⟩ => ?_⟩, fun hreadable => ?_⟩
  · have hreadable := readable_of_readAs hread
    obtain ⟨reports, q, hfeed, hreports, -⟩ := readAs_front hreadable hfront
    obtain ⟨reports', q', hfeed', hreport, -⟩ := hread
    rw [hfeed] at hfeed'
    obtain ⟨rfl, -⟩ := Prod.mk.inj (Except.ok.inj hfeed')
    exact ⟨hreports.mp hreport, hreadable⟩
  · obtain ⟨reports, q, hfeed, hreports, hsame⟩ := readAs_front hreadable hfront
    exact ⟨reports, q, hfeed, hreports.mpr hall, hsame hall⟩
  · obtain ⟨reports, q, hfeed, hreports, -⟩ := readAs_front hreadable hfront
    exact ⟨reports, q, hfeed, hreports⟩

theorem sendAll_read_default :
    ReadAs .unlimited (defaultClient.message (toJson (fun _ => [48]) emptySample))
      [emptyRequest.bytes] := by
  obtain ⟨sent, log, hreturns, -, hread⟩ := sendAll_read .unlimited (fun _ => [48])
    defaultClient emptySample acceptAll emptyRequest.size_le
  obtain ⟨rfl, rfl⟩ := Prod.mk.inj (hreturns.unique emptyRequest_sent)
  have hwhole := (flatten_transfer_eq_iff acceptAll 0 emptyRequest.bytes).mpr
    (failure_acceptAll 0 emptyRequest.bytes)
  have hendpoint : parseEndpoint defaultClient.endpointUrl = .ok defaultClient.endpoint := by
    decide +kernel
  apply (hread [emptyRequest.bytes] ?_).1.mpr ⟨rfl, ?_, ?_⟩
  · rw [hwhole]
    exact List.append_nil _
  · exact legible_of_url hendpoint (by decide +kernel) (by decide +kernel)
  · decide +kernel

end Netsim.System.TelemetryHttp
