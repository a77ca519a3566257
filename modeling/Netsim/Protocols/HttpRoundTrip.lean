import Mathlib.Data.List.TakeWhile
import Netsim.Protocols.HttpSim

/-!
# The parser decodes what was encoded

The text of a request, and the run of the parser over it, phase by phase: each
lemma says what the machine has become once one part of the text is consumed.
The last byte of the text is the one that completes the message, so the cutting
of the text into chunks is left to the general rule for such machines.
-/

namespace Netsim.Protocols

open Foundation

/-- `KEY ': ' VALUE CRLF`. -/
def headerLine (line : Bytes × Bytes) : Bytes :=
  line.1 ++ [colon, sp] ++ line.2 ++ [cr, lf]

/-- `METHOD SP URI SP VERSION CRLF`, the header lines in the order given, `CRLF`
and the body. -/
def encode (req : HttpRequest) (lines : List (Bytes × Bytes)) : Bytes :=
  req.method ++ [sp] ++ req.uri ++ [sp] ++ req.version ++ [cr, lf] ++
    lines.flatMap headerLine ++ [cr, lf] ++ req.body

/-- The text up to the CR of the empty line. -/
def requestHead (req : HttpRequest) (lines : List (Bytes × Bytes)) : Bytes :=
  req.method ++ sp :: (req.uri ++ sp :: (req.version ++ cr :: lf ::
    (lines.flatMap headerLine ++ [cr])))

theorem encode_eq (req : HttpRequest) (lines : List (Bytes × Bytes)) :
    encode req lines = requestHead req lines ++ lf :: req.body := by
  simp [encode, requestHead]

/-- A request the format can carry, with an enumeration of its headers. There is the
memory for its body. -/
structure WellFormed (memory : Allocator) (req : HttpRequest) (lines : List (Bytes × Bytes)) :
    Prop where
  headers : lines.Perm req.headers.toPairs
  method : sp ∉ req.method
  uri : sp ∉ req.uri
  version : cr ∉ req.version ∧ lf ∉ req.version
  key : ∀ line ∈ lines, colon ∉ line.1 ∧ cr ∉ line.1
  value : ∀ line ∈ lines, cr ∉ line.2 ∧ line.2.head? ≠ some sp
  framing : (req.body = [] ∧ req.headers.find contentLengthKey = none) ∨
    ∃ v, req.headers.find contentLengthKey = some v ∧ IsDecimal v req.body.length
  body_le : req.body.length ≤ memory.limit

/-- Equal field by field; header maps are compared by what they map keys to. -/
structure SameRequest (a b : HttpRequest) : Prop where
  method : a.method = b.method
  uri : a.uri = b.uri
  version : a.version = b.version
  headers : ∀ key, a.headers.find key = b.headers.find key
  body : a.body = b.body

variable {memory : Allocator} {req : HttpRequest} {lines : List (Bytes × Bytes)} {n : ℕ}

theorem isSpace_of_isDigit {b : UInt8} (h : isDigit b = true) : isSpace b = false := by
  have hb := isDigit_iff.mp h
  unfold isSpace
  simp only [Bool.or_eq_false_iff, Bool.and_eq_false_iff, decide_eq_false_iff_not]
  refine ⟨fun heq => ?_, Or.inr fun hle => ?_⟩
  · subst heq
    simp at hb
  · rw [UInt8.le_iff_toNat_le] at hle
    change b.toNat ≤ 13 at hle
    omega

theorem splitSign_of_isDigit {b : UInt8} (h : isDigit b = true) (v : Bytes) :
    splitSign (b :: v) = (false, b :: v) := by
  have hb := isDigit_iff.mp h
  have hminus : b ≠ 45 := by rintro rfl; simp at hb
  have hplus : b ≠ 43 := by rintro rfl; simp at hb
  unfold splitSign
  split
  · rename_i heq
    exact absurd (List.cons.inj heq).1 hminus
  · rename_i heq
    exact absurd (List.cons.inj heq).1 hplus
  · rfl

/-- Before a digit the numeric conversions find neither white space nor a sign. -/
theorem splitSign_dropWhile_of_digits {v : Bytes} (hne : v ≠ [])
    (hdigits : ∀ b ∈ v, isDigit b = true) : splitSign (v.dropWhile isSpace) = (false, v) := by
  obtain ⟨b, v, rfl⟩ := List.exists_cons_of_ne_nil hne
  have hb := hdigits b List.mem_cons_self
  rw [List.dropWhile_cons_of_neg (by simp [isSpace_of_isDigit hb]), splitSign_of_isDigit hb]

/-- `std::stoul` reads a numeral. -/
theorem stoul_of_isDecimal {v : Bytes} (h : IsDecimal v n) (hn : n < 2 ^ 64) :
    stoul v = some (UInt64.ofNat n) := by
  have htake : v.takeWhile isDigit = v := List.takeWhile_eq_self_iff.mpr h.digits
  unfold stoul
  rw [splitSign_dropWhile_of_digits h.ne_nil h.digits]
  dsimp only
  rw [htake, if_neg h.ne_nil, h.value, if_pos hn]
  rfl

namespace HttpSim

/-! ### One phase at a time -/

variable {r : HttpRequest} {L L' : UInt64} {s t rest : Bytes} {key : Bytes}

/-- Bytes that the current state only appends to the token. -/
theorem consume_token {p : HttpSim} : ∀ (s t : Bytes),
    (∀ u ch v, s = u ++ ch :: v → parseByte memory { p with currentToken := t ++ u } ch =
      .ok { p with currentToken := t ++ u ++ [ch] }) →
    consume (parseByte memory) { p with currentToken := t } (s ++ rest) =
      consume (parseByte memory) { p with currentToken := t ++ s } rest := by
  intro s
  induction s with
  | nil => intro t _; simp
  | cons ch s ih =>
      intro t h
      have hstep : parseByte memory { p with currentToken := t } ch =
          .ok { p with currentToken := t ++ [ch] } := by
        have := h [] ch s rfl
        rwa [List.append_nil] at this
      rw [List.cons_append, consume_cons hstep, ih (t ++ [ch]), List.append_assoc]
      · rfl
      · intro u ch' v hs
        have := h (ch :: u) ch' v (by rw [hs]; rfl)
        simpa using this

/-- A field read from an empty token: bytes that the state appends, then a byte
that ends the field. -/
theorem consume_field {p q : HttpSim} {x : UInt8} (hp : p.currentToken = [])
    (happend : ∀ u ch v, s = u ++ ch :: v → parseByte memory { p with currentToken := u } ch =
      .ok { p with currentToken := u ++ [ch] })
    (hend : parseByte memory { p with currentToken := s } x = .ok q) :
    consume (parseByte memory) p (s ++ x :: rest) = consume (parseByte memory) q rest := by
  have hself : p = { p with currentToken := [] } := by rw [← hp]
  rw [hself, consume_token s [] (by simpa using happend), List.nil_append, consume_cons hend]

theorem ne_of_notMem {x ch : UInt8} {u v : Bytes} (hs : s = u ++ ch :: v) (h : x ∉ s) :
    ch ≠ x := by
  rintro rfl
  exact h (by simp [hs])

theorem consume_method (h : sp ∉ s) :
    consume (parseByte memory) ⟨.Method, r, [], key, L, 0⟩ (s ++ sp :: rest) =
      consume (parseByte memory) ⟨.Uri, { r with method := s }, [], key, L, 0⟩ rest := by
  refine consume_field rfl (fun u ch v hs => ?_) ?_
  · simp [parseByte, appendToken, ne_of_notMem hs h]
  · simp [parseByte]

theorem consume_uri (h : sp ∉ s) :
    consume (parseByte memory) ⟨.Uri, r, [], key, L, 0⟩ (s ++ sp :: rest) =
      consume (parseByte memory) ⟨.Version, { r with uri := s }, [], key, L, 0⟩ rest := by
  refine consume_field rfl (fun u ch v hs => ?_) ?_
  · simp [parseByte, appendToken, ne_of_notMem hs h]
  · simp [parseByte]

/-- The version line ends at its LF; the CR before it is passed over. -/
theorem consume_version (h : cr ∉ s ∧ lf ∉ s) :
    consume (parseByte memory) ⟨.Version, r, [], key, L, 0⟩ (s ++ cr :: lf :: rest) =
      consume (parseByte memory) ⟨.HeaderKey, { r with version := s }, [], key, L, 0⟩ rest := by
  have hfield : consume (parseByte memory) ⟨.Version, r, [], key, L, 0⟩ (s ++ cr :: (lf :: rest)) =
      consume (parseByte memory) ⟨.Version, r, s, key, L, 0⟩ (lf :: rest) := by
    refine consume_field rfl (fun u ch v hs => ?_) ?_
    · simp [parseByte, appendToken, ne_of_notMem hs h.1, ne_of_notMem hs h.2]
    · simp [parseByte]
  rw [hfield]
  apply consume_cons
  simp [parseByte, show lf ≠ cr by decide]

theorem consume_key (h : colon ∉ s ∧ cr ∉ s) :
    consume (parseByte memory) ⟨.HeaderKey, r, [], key, L, 0⟩ (s ++ colon :: rest) =
      consume (parseByte memory) ⟨.HeaderValue, r, [], s, L, 0⟩ rest := by
  refine consume_field rfl (fun u ch v hs => ?_) ?_
  · simp [parseByte, appendToken, ne_of_notMem hs h.1, ne_of_notMem hs h.2]
  · simp [parseByte, show colon ≠ cr by decide]

/-- The space after the colon is skipped, those inside the value are kept. -/
theorem consume_value (h : cr ∉ s ∧ s.head? ≠ some sp) :
    consume (parseByte memory) ⟨.HeaderValue, r, [], key, L, 0⟩ (sp :: (s ++ cr :: rest)) =
      consume (parseByte memory) ⟨.ExpectValueLF, r, s, key, L, 0⟩ rest := by
  have hskip : parseByte memory ⟨.HeaderValue, r, [], key, L, 0⟩ sp =
      .ok ⟨.HeaderValue, r, [], key, L, 0⟩ := by simp [parseByte]
  rw [consume_cons hskip]
  refine consume_field rfl (fun u ch v hs => ?_) ?_
  · have hsp : ¬ (ch = sp ∧ u = []) := by
      rintro ⟨rfl, rfl⟩
      exact h.2 (by rw [hs]; rfl)
    simp [parseByte, appendToken, hsp, ne_of_notMem hs h.1]
  · simp [parseByte, transitionTo, show cr ≠ sp by decide]

/-- One header line. -/
theorem consume_headerLine {line : Bytes × Bytes} (hkey : colon ∉ line.1 ∧ cr ∉ line.1)
    (hvalue : cr ∉ line.2 ∧ line.2.head? ≠ some sp)
    (hlen : line.1 = contentLengthKey → stoul line.2 = some L') :
    consume (parseByte memory) ⟨.HeaderKey, r, [], [], L, 0⟩ (headerLine line ++ rest) =
      consume (parseByte memory)
        ⟨.HeaderKey, { r with headers := r.headers.set line.1 line.2 }, [], [],
          if line.1 = contentLengthKey then L' else L, 0⟩ rest := by
  have htext : headerLine line ++ rest =
      line.1 ++ colon :: (sp :: (line.2 ++ cr :: (lf :: rest))) := by
    simp [headerLine]
  rw [htext, consume_key hkey, consume_value hvalue]
  apply consume_cons
  by_cases hcl : line.1 = contentLengthKey
  · simp [parseByte, endHeader, hcl, hlen hcl]
  · simp [parseByte, endHeader, hcl]

/-- All header lines; `L'` is what `std::stoul` makes of a `Content-Length`. -/
theorem consume_headers : ∀ (lines : List (Bytes × Bytes)) (r : HttpRequest) (L : UInt64),
    (∀ line ∈ lines, colon ∉ line.1 ∧ cr ∉ line.1) →
    (∀ line ∈ lines, cr ∉ line.2 ∧ line.2.head? ≠ some sp) →
    (∀ line ∈ lines, line.1 = contentLengthKey → stoul line.2 = some L') →
    consume (parseByte memory) ⟨.HeaderKey, r, [], [], L, 0⟩ (lines.flatMap headerLine ++ rest) =
      consume (parseByte memory) ⟨.HeaderKey,
        { r with headers := lines.foldl (fun m line => m.set line.1 line.2) r.headers }, [], [],
        if contentLengthKey ∈ lines.map Prod.fst then L' else L, 0⟩ rest := by
  intro lines
  induction lines with
  | nil => exact fun _ _ _ _ _ => rfl
  | cons line lines ih =>
      intro r L hkey hvalue hlen
      rw [List.flatMap_cons, List.append_assoc,
        consume_headerLine (hkey line List.mem_cons_self) (hvalue line List.mem_cons_self)
          (hlen line List.mem_cons_self),
        ih _ _ (fun l hl => hkey l (List.mem_cons_of_mem _ hl))
          (fun l hl => hvalue l (List.mem_cons_of_mem _ hl))
          (fun l hl => hlen l (List.mem_cons_of_mem _ hl))]
      have hlength : (if contentLengthKey ∈ lines.map Prod.fst then L'
            else if line.1 = contentLengthKey then L' else L) =
          if contentLengthKey ∈ (line :: lines).map Prod.fst then L' else L := by
        by_cases hmem : contentLengthKey ∈ lines.map Prod.fst
        · rw [if_pos hmem, if_pos (by simpa using Or.inr hmem)]
        · by_cases hcl : line.1 = contentLengthKey
          · rw [if_neg hmem, if_pos hcl, if_pos (by simp [hcl])]
          · rw [if_neg hmem, if_neg hcl, if_neg]
            rw [List.map_cons, List.mem_cons, not_or]
            exact ⟨Ne.symm hcl, hmem⟩
      rw [hlength]
      rfl

theorem consume_requestHead (wf : WellFormed memory req lines)
    (hlen : ∀ line ∈ lines, line.1 = contentLengthKey → stoul line.2 = some L') :
    consume (parseByte memory) fresh (requestHead req lines) =
      .ok ⟨.ExpectBodyLF, { req with headers := UnorderedMap.ofPairs lines, body := [] }, [], [],
        if contentLengthKey ∈ lines.map Prod.fst then L' else 0, 0⟩ := by
  unfold requestHead fresh
  rw [consume_method wf.method, consume_uri wf.uri, consume_version wf.version,
    consume_headers lines _ _ wf.key wf.value hlen]
  rfl

/-- The empty line before an announced body: what `reserve` does decides. -/
theorem parseByte_emptyLine (hpos : L > 0) :
    parseByte memory ⟨.ExpectBodyLF, r, s, key, L, 0⟩ lf =
      (reserve memory L.toNat).map fun _ => ⟨.Body, r, s, key, L, 0⟩ := by
  simp only [parseByte, if_true, if_pos hpos, transitionTo]

/-- Body bytes short of the content length. -/
theorem consume_body : ∀ (bs b : Bytes) (k : UInt64), k.toNat + bs.length < L.toNat →
    consume (parseByte memory) ⟨.Body, { r with body := b }, [], [], L, k⟩ bs =
      .ok ⟨.Body, { r with body := b ++ bs }, [], [], L, k + UInt64.ofNat bs.length⟩ := by
  intro bs
  induction bs with
  | nil => intro b k _; simp
  | cons x bs ih =>
      intro b k hlt
      rw [List.length_cons] at hlt
      have hL := UInt64.toNat_lt L
      have hk : (k + 1).toNat = k.toNat + 1 := by
        rw [UInt64.toNat_add]
        exact Nat.mod_eq_of_lt (by
          show k.toNat + 1 < 2 ^ 64
          omega)
      have hstep : parseByte memory ⟨.Body, { r with body := b }, [], [], L, k⟩ x =
          .ok ⟨.Body, { r with body := b ++ [x] }, [], [], L, k + 1⟩ := by
        have hge : ¬ k + 1 ≥ L := by
          rw [ge_iff_le, UInt64.le_iff_toNat_le, hk]
          omega
        simp [parseByte, hge]
      rw [consume_cons hstep, ih (b ++ [x]) (k + 1) (by omega), List.append_assoc,
        List.length_cons, UInt64.add_assoc, UInt64.ofNat_add, UInt64.add_comm 1]
      rfl

/-- The content length in force at the empty line is the length of the body. -/
theorem contentLength_eq (wf : WellFormed memory req lines) :
    (∀ line ∈ lines, line.1 = contentLengthKey →
      stoul line.2 = some (UInt64.ofNat req.body.length)) ∧
    (if contentLengthKey ∈ lines.map Prod.fst then UInt64.ofNat req.body.length else 0) =
      UInt64.ofNat req.body.length := by
  have hfind : ∀ line ∈ lines, req.headers.find line.1 = some line.2 :=
    fun line hline => UnorderedMap.mem_toPairs.mp (wf.headers.mem_iff.mp hline)
  rcases wf.framing with ⟨hbody, hnone⟩ | ⟨v, hsome, hdec⟩
  · constructor
    · intro line hline hcl
      rw [← hcl, hfind line hline] at hnone
      simp at hnone
    · rw [hbody]
      exact ite_self _
  · constructor
    · intro line hline hcl
      rw [← hcl, hfind line hline] at hsome
      obtain rfl := Option.some.inj hsome
      have hle := wf.body_le.trans memory.limit_le
      exact stoul_of_isDecimal hdec (lt_of_le_of_lt hle (by decide))
    · rw [if_pos]
      exact List.mem_map.mpr ⟨(contentLengthKey, v),
        wf.headers.mem_iff.mpr (UnorderedMap.mem_toPairs.mpr hsome), rfl⟩

/-- **The run over an encoded request.** Its last byte completes the message, and
the request is then the one that was encoded. -/
theorem consume_encode (wf : WellFormed memory req lines) :
    ∃ text x u t, encode req lines = text ++ [x] ∧ consume (parseByte memory) fresh text = .ok u ∧
      u.isComplete = false ∧ parseByte memory u x = .ok t ∧ t.isComplete = true ∧
      t.request = { req with headers := UnorderedMap.ofPairs lines } := by
  obtain ⟨hlen, hword⟩ := contentLength_eq wf
  have hhead := consume_requestHead wf hlen
  rw [hword] at hhead
  have hle : req.body.length ≤ 2 ^ 63 - 1 := wf.body_le.trans memory.limit_le
  have htoNat : (UInt64.ofNat req.body.length).toNat = req.body.length :=
    UInt64.toNat_ofNat_of_lt' (by
      show req.body.length < 2 ^ 64
      omega)
  rw [encode_eq]
  rcases List.eq_nil_or_concat req.body with hbody | ⟨bs, x, hbody⟩
  · -- no body: the LF of the empty line is the last byte
    refine ⟨_, lf, _, ⟨.Complete, { req with headers := UnorderedMap.ofPairs lines, body := [] },
      [], [], 0, 0⟩, by rw [hbody], hhead, rfl, ?_, rfl, by rw [← hbody]⟩
    rw [hbody]
    simp [parseByte, transitionTo]
  · rw [List.concat_eq_append] at hbody
    have hlength : req.body.length = bs.length + 1 := by simp [hbody]
    let r : HttpRequest := { req with headers := UnorderedMap.ofPairs lines, body := [] }
    have hLF : parseByte memory ⟨.ExpectBodyLF, r, [], [], UInt64.ofNat req.body.length, 0⟩ lf =
        .ok ⟨.Body, r, [], [], UInt64.ofNat req.body.length, 0⟩ := by
      have hpos : UInt64.ofNat req.body.length > 0 := by
        rw [gt_iff_lt, UInt64.lt_iff_toNat_lt, htoNat]
        show 0 < req.body.length
        omega
      rw [parseByte_emptyLine hpos, htoNat, reserve_of_le wf.body_le]
      rfl
    have hbytes : consume (parseByte memory) ⟨.Body, r, [], [], _, 0⟩ bs = _ :=
      consume_body (r := r) (L := UInt64.ofNat req.body.length) bs [] 0 (by
        rw [htoNat]
        show 0 + bs.length < req.body.length
        omega)
    refine ⟨requestHead req lines ++ lf :: bs, x, _,
      ⟨.Complete, { req with headers := UnorderedMap.ofPairs lines }, [], [],
        UInt64.ofNat req.body.length, UInt64.ofNat req.body.length⟩, by simp [hbody],
      (consume_append hhead).trans ((consume_cons hLF).trans hbytes), rfl, ?_, rfl, rfl⟩
    simp [r, parseByte, transitionTo, hbody]

/-- The text of a request in any chunks, fed to a new parser. -/
theorem feed_encode {before after : List Bytes} {last : Bytes} (wf : WellFormed memory req lines)
    (hsplit : (before ++ last :: after).flatten = encode req lines) (hlast : last ≠ [])
    (hafter : ∀ chunk ∈ after, chunk = []) :
    ∃ p₁ p₂, feed (parseChunk memory) fresh before = .ok (List.replicate before.length false, p₁) ∧
      p₁.parseChunk memory last = .ok (true, p₂) ∧
      p₂.request = { req with headers := UnorderedMap.ofPairs lines } := by
  obtain ⟨text, x, u, t, htext, hrun, hu, hx, ht, hreq⟩ := consume_encode wf
  rw [htext] at hsplit
  obtain ⟨p₁, hbefore, hdone⟩ :=
    feed_text (parseChunk_eq memory) (parseByte_complete memory) hrun hu hx ht hlast hafter hsplit
  exact ⟨p₁, t, hbefore, hdone, hreq⟩

end HttpSim

/-- **The parser decodes what was encoded.** However the text of a well-formed
request is cut into chunks, a new or reset parser answers `false` on every chunk
before the one that holds the last byte and `true` on that one, and then holds
the request. -/
theorem parseChunk_encode (memory : Allocator) (p : HttpSim) (req : HttpRequest)
    (lines : List (Bytes × Bytes))
    (before after : List Bytes) (last : Bytes) (wf : WellFormed memory req lines)
    (hsplit : (before ++ last :: after).flatten = encode req lines) (hlast : last ≠ [])
    (hafter : ∀ chunk ∈ after, chunk = []) :
    ∃ p₁ p₂,
      feed (HttpSim.parseChunk memory) p.reset before =
        .ok (List.replicate before.length false, p₁) ∧
      p₁.parseChunk memory last = .ok (true, p₂) ∧ SameRequest p₂.request req := by
  obtain ⟨p₁, p₂, hbefore, hdone, hreq⟩ := HttpSim.feed_encode wf hsplit hlast hafter
  refine ⟨p₁, p₂, hbefore, hdone, ?_⟩
  rw [hreq]
  exact ⟨rfl, rfl, rfl, fun key => UnorderedMap.find_ofPairs_toPairs wf.headers key, rfl⟩

def ascii (text : String) : Bytes := text.toUTF8.toList

/-- The request of `controller.cpp`'s parsing test. -/
def submitTelemetry : HttpRequest where
  method := ascii "POST"
  uri := ascii "/submit-telemetry"
  version := ascii "HTTP/1.1"
  headers := UnorderedMap.ofPairs
    [(ascii "Host", ascii "localhost:8080"), (contentLengthKey, ascii "19")]
  body := ascii "cpu_load=42&temp=61"

theorem submitTelemetry_wellFormed :
    WellFormed .unlimited submitTelemetry submitTelemetry.headers.toPairs where
  headers := List.Perm.refl _
  method := by decide +kernel
  uri := by decide +kernel
  version := by decide +kernel
  key := by decide +kernel
  value := by decide +kernel
  framing := Or.inr ⟨decimal submitTelemetry.body.length, by decide +kernel, isDecimal_decimal _⟩
  body_le := by decide +kernel

theorem parseChunk_encode_submitTelemetry :
    ∃ p₁ p₂,
      feed (HttpSim.parseChunk .unlimited) HttpSim.fresh.reset
        [(encode submitTelemetry submitTelemetry.headers.toPairs).take 5] = .ok ([false], p₁) ∧
      p₁.parseChunk .unlimited ((encode submitTelemetry submitTelemetry.headers.toPairs).drop 5) =
        .ok (true, p₂) ∧ SameRequest p₂.request submitTelemetry :=
  parseChunk_encode .unlimited HttpSim.fresh submitTelemetry submitTelemetry.headers.toPairs
    [(encode submitTelemetry submitTelemetry.headers.toPairs).take 5] []
    ((encode submitTelemetry submitTelemetry.headers.toPairs).drop 5) submitTelemetry_wellFormed
    (by simp) (by decide +kernel) (by simp)

end Netsim.Protocols
