import Netsim.Protocols.HttpGrammar

/-!
# What the parser accepts

A complete parser has consumed a head and a body, and the stream determines both:
the delimiters of the head leave no choice. So the consumed prefix is a request of
the documented form unless the line that ended its headers was not empty.
-/

namespace Netsim.Protocols

open Foundation

/-- A new parser is complete after the stream. -/
def Completes (memory : Allocator) (s : Bytes) : Prop :=
  ∃ p, consume (HttpSim.parseByte memory) HttpSim.fresh s = .ok p ∧ p.isComplete = true

/-- The bytes up to the one that completes the message. -/
structure ConsumedPrefix (memory : Allocator) (s consumed : Bytes) : Prop where
  initial : consumed <+: s
  completes : Completes memory consumed
  first : ∀ t, t <+: consumed → Completes memory t → t = consumed

/-- The value of the last `Content-Length` header line. -/
def lastContentLength (lines : List HeaderLine) : Option Bytes :=
  (lines.filter fun l => l.key = contentLengthKey).getLast?.map HeaderLine.value

/-- The number of body bytes that the header lines ask for. -/
def BodyLength (lines : List HeaderLine) (length : ℕ) : Prop :=
  match lastContentLength lines with
  | none => length = 0
  | some v => ∃ n, stoul v = some n ∧ length = n.toNat

/-- `METHOD SP URI SP VERSION-LINE LF`, lines `KEY ':' VALUE CRLF`, an empty line
`CRLF`, and the body. -/
def IsRequest (s : Bytes) : Prop :=
  ∃ rl lines body, RequestLine.WellFormed rl ∧ (∀ l ∈ lines, HeaderLine.WellFormed l) ∧
    s = sectionText rl lines ++ cr :: lf :: body ∧ BodyLength lines body.length

/-- The first line after the request line that has no colon before its CR is not empty. -/
def EndsAtBareLine (s : Bytes) : Prop :=
  ∃ rl lines junk rest, RequestLine.WellFormed rl ∧ (∀ l ∈ lines, HeaderLine.WellFormed l) ∧
    junk ≠ [] ∧ colon ∉ junk ∧ cr ∉ junk ∧ s = sectionText rl lines ++ (junk ++ cr :: rest)

variable {memory : Allocator} {s t u v : Bytes} {rl rl' : RequestLine}
  {lines lines' : List HeaderLine}
  {junk junk' : Bytes} {head head' : Head} {n n' : UInt64} {b b' rest rest' : Bytes}

/-! ### The text determines its parts -/

/-- A field ends at its delimiter. -/
theorem field_unique {α : Type*} {a b u v : List α} {x y : α} (ha : y ∉ a) (hb : x ∉ b)
    (heq : a ++ x :: u = b ++ y :: v) : a = b ∧ x = y ∧ u = v := by
  rcases List.append_eq_append_iff.mp heq with ⟨c, rfl, hc⟩ | ⟨c, rfl, hc⟩
  · cases c with
    | nil => simpa using hc
    | cons z c =>
        obtain ⟨rfl, -⟩ := List.cons.inj hc
        simp at hb
  · cases c with
    | nil => simpa [eq_comm] using hc
    | cons z c =>
        obtain ⟨rfl, -⟩ := List.cons.inj hc
        simp at ha

theorem RequestLine.text_unique (h : rl.WellFormed) (h' : rl'.WellFormed)
    (heq : rl.text ++ u = rl'.text ++ v) : rl = rl' ∧ u = v := by
  obtain ⟨m, i, w⟩ := rl
  obtain ⟨m', i', w'⟩ := rl'
  simp only [RequestLine.text, List.append_assoc, List.cons_append, List.nil_append] at heq
  obtain ⟨rfl, -, heq⟩ := field_unique h.method h'.method heq
  obtain ⟨rfl, -, heq⟩ := field_unique h.uri h'.uri heq
  obtain ⟨rfl, -, heq⟩ := field_unique h.versionLine h'.versionLine heq
  exact ⟨rfl, heq⟩

theorem HeaderLine.text_unique {l l' : HeaderLine} (h : l.WellFormed) (h' : l'.WellFormed)
    (heq : l.text ++ u = l'.text ++ v) : l = l' ∧ u = v := by
  obtain ⟨key, raw⟩ := l
  obtain ⟨key', raw'⟩ := l'
  simp only [HeaderLine.text, List.append_assoc, List.cons_append, List.nil_append] at heq
  obtain ⟨rfl, -, heq⟩ := field_unique h.key.1 h'.key.1 heq
  obtain ⟨rfl, -, heq⟩ := field_unique h.raw h'.raw heq
  exact ⟨rfl, (List.cons.inj heq).2⟩

/-- A header line is not also the line that ends the headers. -/
theorem HeaderLine.text_ne {l : HeaderLine} (h : l.WellFormed) (hjunk : colon ∉ junk) :
    l.text ++ u ≠ junk ++ cr :: v := by
  intro heq
  simp only [HeaderLine.text, List.append_assoc, List.cons_append, List.nil_append] at heq
  exact absurd (field_unique h.key.2 hjunk heq).2.1 (by decide)

theorem lines_unique (hj : colon ∉ junk ∧ cr ∉ junk) (hj' : colon ∉ junk' ∧ cr ∉ junk') :
    ∀ (lines lines' : List HeaderLine), (∀ l ∈ lines, l.WellFormed) →
    (∀ l ∈ lines', l.WellFormed) →
    lines.flatMap HeaderLine.text ++ (junk ++ cr :: u) =
      lines'.flatMap HeaderLine.text ++ (junk' ++ cr :: v) →
    lines = lines' ∧ junk = junk' ∧ u = v := by
  intro lines
  induction lines with
  | nil =>
      intro lines' _ h' heq
      cases lines' with
      | nil =>
          obtain ⟨hjunk, -, hrest⟩ := field_unique hj.2 hj'.2 heq
          exact ⟨rfl, hjunk, hrest⟩
      | cons l' lines' =>
          rw [List.flatMap_cons, List.append_assoc] at heq
          exact absurd heq.symm (HeaderLine.text_ne (h' l' List.mem_cons_self) hj.1)
  | cons l lines ih =>
      intro lines' h h' heq
      simp only [List.flatMap_cons, List.append_assoc] at heq
      cases lines' with
      | nil => exact absurd heq (HeaderLine.text_ne (h l List.mem_cons_self) hj'.1)
      | cons l' lines' =>
          simp only [List.flatMap_cons, List.append_assoc] at heq
          obtain ⟨rfl, htail⟩ := HeaderLine.text_unique (h l List.mem_cons_self)
            (h' l' List.mem_cons_self) heq
          obtain ⟨rfl, hrest⟩ := ih lines' (fun x hx => h x (List.mem_cons_of_mem _ hx))
            (fun x hx => h' x (List.mem_cons_of_mem _ hx)) htail
          exact ⟨rfl, hrest⟩

/-- **One reading.** Request line, header lines and the line that ends them are all
determined by the stream. -/
theorem section_unique (hrl : rl.WellFormed) (hrl' : rl'.WellFormed)
    (hlines : ∀ l ∈ lines, l.WellFormed) (hlines' : ∀ l ∈ lines', l.WellFormed)
    (hj : colon ∉ junk ∧ cr ∉ junk) (hj' : colon ∉ junk' ∧ cr ∉ junk')
    (heq : sectionText rl lines ++ (junk ++ cr :: u) =
      sectionText rl' lines' ++ (junk' ++ cr :: v)) :
    rl = rl' ∧ lines = lines' ∧ junk = junk' ∧ u = v := by
  unfold sectionText at heq
  simp only [List.append_assoc] at heq
  obtain ⟨rfl, hlater⟩ := RequestLine.text_unique hrl hrl' heq
  exact ⟨rfl, lines_unique hj hj' lines lines' hlines hlines' hlater⟩

theorem Head.text_append (head : Head) (s : Bytes) :
    head.text ++ s = sectionText head.requestLine head.lines ++ (head.junk ++ cr :: lf :: s) := by
  simp [Head.text]

/-- The head and the body of a message are determined by the stream. -/
theorem message_unique (hhead : head.Announces n) (hhead' : head'.Announces n')
    (hb : b.length = n.toNat) (hb' : b'.length = n'.toNat)
    (heq : head.text ++ b ++ rest = head'.text ++ b' ++ rest') :
    head = head' ∧ b = b' ∧ rest = rest' := by
  rw [List.append_assoc, List.append_assoc, Head.text_append, Head.text_append] at heq
  obtain ⟨hrl, hlines, hjunk, heq⟩ := section_unique hhead.requestLine hhead'.requestLine
    hhead.lines hhead'.lines hhead.junk hhead'.junk heq
  have hn : n = n' := by
    have hlength := hhead.contentLength
    rw [hlines, hhead'.contentLength] at hlength
    exact (Option.some.inj hlength).symm
  have hsplit := List.append_inj (List.cons.inj heq).2 (by rw [hb, hb', hn])
  refine ⟨?_, hsplit⟩
  cases head
  cases head'
  simp_all

/-! ### A complete parser has read a message -/

open HttpSim in
/-- A head and the body it announces complete the message. -/
theorem consume_message (hhead : head.Announces n) (hn : n.toNat ≤ memory.limit)
    (hb : b.length = n.toNat) :
    consume (parseByte memory) fresh (head.text ++ b) =
      .ok ⟨.Complete, requestOf head.requestLine head.lines b, [], [], n, n⟩ := by
  have htext : head.text ++ b =
      sectionText head.requestLine head.lines ++ (head.junk ++ [cr]) ++ lf :: b := by
    simp [Head.text]
  rw [htext, consume_append (consume_head hhead)]
  rcases List.eq_nil_or_concat b with rfl | ⟨bs, x, rfl⟩
  · obtain rfl : n = 0 := UInt64.toNat_inj.mp hb.symm
    apply consume_cons
    simp [parseByte, transitionTo]
  · rw [List.concat_eq_append, List.length_append, List.length_singleton] at hb
    have hpos : n > 0 := UInt64.lt_iff_toNat_lt.mpr (hb ▸ Nat.succ_pos _)
    let r := requestOf head.requestLine head.lines []
    have hlf : parseByte memory ⟨.ExpectBodyLF, r, [], [], n, 0⟩ lf =
        .ok ⟨.Body, r, [], [], n, 0⟩ := by
      rw [parseByte_emptyLine hpos, reserve_of_le hn]
      rfl
    have hbytes : consume (parseByte memory) ⟨.Body, r, [], [], n, 0⟩ bs = _ :=
      consume_body (r := r) (L := n) bs [] 0
        (by rw [← hb, UInt64.toNat_zero, Nat.zero_add]; exact Nat.lt_succ_self _)
    have hcount : UInt64.ofNat bs.length + 1 = n := by
      apply UInt64.toNat_inj.mp
      rw [← hb, UInt64.toNat_add, UInt64.toNat_ofNat', Nat.mod_add_mod]
      exact Nat.mod_eq_of_lt (hb ▸ UInt64.toNat_lt n)
    rw [consume_cons hlf, List.concat_eq_append]
    refine (consume_append hbytes).trans (consume_cons ?_)
    simp [r, parseByte, transitionTo, hcount, requestOf]

theorem completes_message (hhead : head.Announces n) (hn : n.toNat ≤ memory.limit)
    (hb : b.length = n.toNat) : Completes memory (head.text ++ b) :=
  ⟨_, consume_message hhead hn hb, rfl⟩

/-- What follows a message is left unread. -/
theorem completes_append (h : Completes memory s) (rest : Bytes) :
    Completes memory (s ++ rest) := by
  obtain ⟨p, hrun, hdone⟩ := h
  refine ⟨p, ?_, hdone⟩
  rw [consume_append hrun, consume_done (HttpSim.parseByte_complete memory) hdone]

theorem Completes.exists_message (h : Completes memory s) :
    ∃ head n b rest, Head.Announces head n ∧ n.toNat ≤ memory.limit ∧ b.length = n.toNat ∧
      s = head.text ++ b ++ rest := by
  obtain ⟨p, hrun, hdone⟩ := h
  cases HttpSim.reads_of_consume hrun with
  | complete hhead hn hb => exact ⟨_, _, _, _, hhead, hn, hb, rfl⟩
  | error hstate => simp [HttpSim.isComplete, hstate] at hdone
  | _ => simp [HttpSim.isComplete] at hdone

/-- What was consumed of a stream that begins with a message is the message. -/
theorem consumedPrefix_iff (hhead : head.Announces n) (hn : n.toNat ≤ memory.limit)
    (hb : b.length = n.toNat) :
    ConsumedPrefix memory (head.text ++ b ++ rest) t ↔ t = head.text ++ b := by
  -- no shorter prefix of the message is complete
  have hfirst : ∀ u, u <+: head.text ++ b → Completes memory u → u = head.text ++ b := by
    rintro u ⟨v, hv⟩ hu
    obtain ⟨head', n', b', rest', hhead', -, hb', rfl⟩ := hu.exists_message
    rw [List.append_assoc _ rest' v, ← List.append_nil (head.text ++ b)] at hv
    obtain ⟨rfl, rfl, hrest⟩ := message_unique hhead' hhead hb' hb hv
    rw [(List.append_eq_nil_iff.mp hrest).1, List.append_nil]
  constructor
  · intro h
    rcases List.prefix_or_prefix_of_prefix h.initial (List.prefix_append _ rest) with hle | hle
    · exact hfirst t hle h.completes
    · exact (h.first _ hle (completes_message hhead hn hb)).symm
  · rintro rfl
    exact ⟨List.prefix_append _ _, completes_message hhead hn hb, hfirst⟩

/-! ### Requests -/

/-- The length in force is that of the last `Content-Length` line. -/
theorem bodyLength_iff (h : contentLengthOf lines = some n) (length : ℕ) :
    BodyLength lines length ↔ length = n.toNat := by
  unfold BodyLength lastContentLength
  induction lines using List.reverseRecOn generalizing n with
  | nil =>
      obtain rfl := Option.some.inj h
      rfl
  | append_singleton lines l ih =>
      have hbefore : ∃ m, contentLengthOf lines = some m := by
        unfold contentLengthOf at h ⊢
        rw [List.foldlM_append] at h
        obtain ⟨m, hm, -⟩ := Option.bind_eq_some_iff.mp h
        exact ⟨m, hm⟩
      obtain ⟨m, hm⟩ := hbefore
      rw [contentLengthOf_concat hm] at h
      rw [List.filter_append]
      by_cases hkey : l.key = contentLengthKey
      · rw [if_pos hkey] at h
        simp [hkey, h]
      · rw [if_neg hkey] at h
        obtain rfl := Option.some.inj h
        simpa [hkey] using ih hm

/-- A message is a request when its headers end at an empty line. -/
theorem isRequest_message_iff (hhead : head.Announces n) (hb : b.length = n.toNat) :
    IsRequest (head.text ++ b) ↔ head.junk = [] := by
  rw [Head.text_append]
  constructor
  · rintro ⟨rl, lines, body, hrl, hlines, heq, -⟩
    rw [← List.nil_append (cr :: lf :: body)] at heq
    exact (section_unique hhead.requestLine hrl hhead.lines hlines hhead.junk
      ⟨List.not_mem_nil, List.not_mem_nil⟩ heq).2.2.1
  · intro hjunk
    refine ⟨head.requestLine, head.lines, b, hhead.requestLine, hhead.lines, ?_,
      (bodyLength_iff hhead.contentLength _).mpr hb⟩
    rw [hjunk, List.nil_append]

theorem endsAtBareLine_iff (hhead : head.Announces n) :
    EndsAtBareLine (head.text ++ u) ↔ head.junk ≠ [] := by
  rw [Head.text_append]
  constructor
  · rintro ⟨rl, lines, junk, rest, hrl, hlines, hne, hcolon, hcr, heq⟩
    obtain ⟨-, -, rfl, -⟩ := section_unique hhead.requestLine hrl hhead.lines hlines hhead.junk
      ⟨hcolon, hcr⟩ heq
    exact hne
  · intro hne
    exact ⟨head.requestLine, head.lines, head.junk, _, hhead.requestLine, hhead.lines, hne,
      hhead.junk.1, hhead.junk.2, rfl⟩

/-- **What is accepted.** A stream that completes a new parser has one consumed prefix,
and it is a request if and only if the line without a colon that ends the headers of
the stream is empty. -/
theorem consumedPrefix_isRequest_iff (h : Completes memory s) :
    ∃ t, (∀ u, ConsumedPrefix memory s u ↔ u = t) ∧ (IsRequest t ↔ ¬ EndsAtBareLine s) := by
  obtain ⟨head, n, b, rest, hhead, hn, hb, rfl⟩ := h.exists_message
  refine ⟨head.text ++ b, fun u => consumedPrefix_iff hhead hn hb, ?_⟩
  rw [isRequest_message_iff hhead hb, List.append_assoc, endsAtBareLine_iff hhead, not_not]

theorem consumedPrefix_isRequest_iff_hello :
    ∃ t, (∀ u, ConsumedPrefix .unlimited
        ((announcing "5").text ++ ascii "hello" ++ ascii "GET") u ↔ u = t) ∧
      (IsRequest t ↔ ¬ EndsAtBareLine ((announcing "5").text ++ ascii "hello" ++ ascii "GET")) :=
  consumedPrefix_isRequest_iff (completes_append (completes_message (n := 5)
    (announces_announcing (by decide +kernel) (by decide +kernel)) (by decide +kernel)
    (by decide +kernel)) (ascii "GET"))

/-- The head of `GET / HTTP/1.1` with one more line, which has no colon. -/
def bareLineHead (junk : String) : Head :=
  ⟨⟨ascii "GET", ascii "/", ascii "HTTP/1.1\r"⟩, [], ascii junk⟩

theorem announces_bareLineHead_host : Head.Announces (bareLineHead "Host") 0 where
  requestLine := ⟨by decide +kernel, by decide +kernel, by decide +kernel⟩
  lines := fun _ hl => nomatch hl
  junk := by decide +kernel
  contentLength := rfl

/-- `Host` without a colon ends the headers: what follows is left for the next request. -/
theorem not_accepts_requests_only :
    ¬ ∃ memory : Allocator, ∀ s t, ConsumedPrefix memory s t → IsRequest t := by
  rintro ⟨memory, h⟩
  have hconsumed : ConsumedPrefix memory
      ((bareLineHead "Host").text ++ [] ++ ascii "Content-Length: 5\r\n\r\nhello")
      ((bareLineHead "Host").text ++ []) :=
    (consumedPrefix_iff announces_bareLineHead_host (Nat.zero_le _) rfl).mpr rfl
  have hempty := (isRequest_message_iff announces_bareLineHead_host rfl).mp (h _ _ hconsumed)
  exact absurd hempty (by decide +kernel)

end Netsim.Protocols
