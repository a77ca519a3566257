import Mathlib.Data.List.Induction
import Netsim.Protocols.HttpRoundTrip

/-!
# What the parser has read

The texts that the parser accepts, as a grammar, and the states it can be in after
each of their prefixes (`Reads`). The grammar is the parser's own: a line without a
colon ends the header section like the empty line does, spaces after a colon are no
part of a value, and a CR inside the version line is passed over.

The announced length reaches `reserve` unchecked. `parseChunk_returns_iff` says for
which streams nothing is thrown.
-/

namespace Netsim.Protocols

open Foundation

structure RequestLine where
  method : Bytes
  uri : Bytes
  versionLine : Bytes
deriving DecidableEq, Repr

/-- `raw` is all that stands between the colon and the CR. -/
structure HeaderLine where
  key : Bytes
  raw : Bytes
deriving DecidableEq, Repr

/-- What stands before the body; `junk` is the line that ends the headers, empty in a
proper request. -/
structure Head where
  requestLine : RequestLine
  lines : List HeaderLine
  junk : Bytes
deriving DecidableEq, Repr

namespace RequestLine

def text (l : RequestLine) : Bytes := l.method ++ sp :: (l.uri ++ sp :: (l.versionLine ++ [lf]))

structure WellFormed (l : RequestLine) : Prop where
  method : sp ∉ l.method
  uri : sp ∉ l.uri
  versionLine : lf ∉ l.versionLine

end RequestLine

namespace HeaderLine

def text (l : HeaderLine) : Bytes := l.key ++ colon :: (l.raw ++ [cr, lf])

def value (l : HeaderLine) : Bytes := l.raw.dropWhile (· = sp)

structure WellFormed (l : HeaderLine) : Prop where
  key : colon ∉ l.key ∧ cr ∉ l.key
  raw : cr ∉ l.raw

end HeaderLine

/-- The content length in force after header lines; `none` if one was refused. -/
def contentLengthOf (lines : List HeaderLine) : Option UInt64 :=
  lines.foldlM (fun n l => if l.key = contentLengthKey then stoul l.value else some n) 0

def headersOf (lines : List HeaderLine) : UnorderedMap Bytes Bytes :=
  lines.foldl (fun headers l => headers.set l.key l.value) ∅

def requestOf (l : RequestLine) (lines : List HeaderLine) (body : Bytes) : HttpRequest :=
  ⟨l.method, l.uri, l.versionLine.filter (· ≠ cr), headersOf lines, body⟩

/-- The request line and the header lines. -/
def sectionText (l : RequestLine) (lines : List HeaderLine) : Bytes :=
  l.text ++ lines.flatMap HeaderLine.text

namespace Head

def text (head : Head) : Bytes :=
  sectionText head.requestLine head.lines ++ (head.junk ++ [cr, lf])

/-- A head whose header lines are accepted, and announce `n` bytes. -/
structure Announces (head : Head) (n : UInt64) : Prop where
  requestLine : head.requestLine.WellFormed
  lines : ∀ l ∈ head.lines, l.WellFormed
  junk : colon ∉ head.junk ∧ cr ∉ head.junk
  contentLength : contentLengthOf head.lines = some n

end Head

/-- The stream begins with a head that announces more than can be allocated. -/
def Oversized (memory : Allocator) (stream : Bytes) : Prop :=
  ∃ head n rest, Head.Announces head n ∧ memory.limit < n.toNat ∧ stream = head.text ++ rest

theorem contentLengthOf_concat {lines : List HeaderLine} {n : UInt64}
    (h : contentLengthOf lines = some n) (l : HeaderLine) :
    contentLengthOf (lines ++ [l]) =
      if l.key = contentLengthKey then stoul l.value else some n := by
  unfold contentLengthOf at h ⊢
  rw [List.foldlM_append, h]
  simp

theorem headersOf_concat (lines : List HeaderLine) (l : HeaderLine) :
    headersOf (lines ++ [l]) = (headersOf lines).set l.key l.value := by
  simp [headersOf]

theorem sectionText_concat (rl : RequestLine) (lines : List HeaderLine) (l : HeaderLine) :
    sectionText rl (lines ++ [l]) = sectionText rl lines ++ l.text := by
  simp [sectionText]

/-- Header lines up to the present one, with the length they announce. -/
structure InSection (rl : RequestLine) (lines : List HeaderLine) (n : UInt64) : Prop where
  requestLine_wf : rl.WellFormed
  lines_wf : ∀ l ∈ lines, l.WellFormed
  contentLength : contentLengthOf lines = some n

/-- The state of the parser after the text it has read. -/
inductive Reads (memory : Allocator) : Bytes → HttpSim → Prop where
  | method {t : Bytes} (ht : sp ∉ t) : Reads memory t ⟨.Method, ⟨[], [], [], ∅, []⟩, t, [], 0, 0⟩
  | uri {m t : Bytes} (hm : sp ∉ m) (ht : sp ∉ t) :
      Reads memory (m ++ sp :: t) ⟨.Uri, ⟨m, [], [], ∅, []⟩, t, [], 0, 0⟩
  | version {m u t : Bytes} (hm : sp ∉ m) (hu : sp ∉ u) (ht : lf ∉ t) :
      Reads memory (m ++ sp :: (u ++ sp :: t))
        ⟨.Version, ⟨m, u, [], ∅, []⟩, t.filter (· ≠ cr), [], 0, 0⟩
  | headerKey {rl : RequestLine} {lines : List HeaderLine} {n : UInt64} {t : Bytes}
      (hsection : InSection rl lines n) (ht : colon ∉ t ∧ cr ∉ t) :
      Reads memory (sectionText rl lines ++ t) ⟨.HeaderKey, requestOf rl lines [], t, [], n, 0⟩
  | headerValue {rl : RequestLine} {lines : List HeaderLine} {n : UInt64} {l : HeaderLine}
      (hsection : InSection rl lines n) (hl : l.WellFormed) :
      Reads memory (sectionText rl lines ++ (l.key ++ colon :: l.raw))
        ⟨.HeaderValue, requestOf rl lines [], l.value, l.key, n, 0⟩
  | expectValueLF {rl : RequestLine} {lines : List HeaderLine} {n : UInt64} {l : HeaderLine}
      (hsection : InSection rl lines n) (hl : l.WellFormed) :
      Reads memory (sectionText rl lines ++ (l.key ++ colon :: (l.raw ++ [cr])))
        ⟨.ExpectValueLF, requestOf rl lines [], l.value, l.key, n, 0⟩
  | expectBodyLF {head : Head} {n : UInt64} (hhead : head.Announces n) :
      Reads memory (sectionText head.requestLine head.lines ++ (head.junk ++ [cr]))
        ⟨.ExpectBodyLF, requestOf head.requestLine head.lines [], [], [], n, 0⟩
  | body {head : Head} {n : UInt64} {b : Bytes} (hhead : head.Announces n)
      (hn : n.toNat ≤ memory.limit) (hb : b.length < n.toNat) :
      Reads memory (head.text ++ b) ⟨.Body, requestOf head.requestLine head.lines b, [], [], n,
        UInt64.ofNat b.length⟩
  | complete {head : Head} {n : UInt64} {b rest : Bytes} (hhead : head.Announces n)
      (hn : n.toNat ≤ memory.limit) (hb : b.length = n.toNat) :
      Reads memory (head.text ++ b ++ rest)
        ⟨.Complete, requestOf head.requestLine head.lines b, [], [], n, n⟩
  | error {s : Bytes} {p : HttpSim} (hstate : p.state = .Error) (hbody : p.request.body = [])
      (hread : p.bodyBytesRead = 0) : Reads memory s p

theorem reads_fresh (memory : Allocator) : Reads memory [] HttpSim.fresh :=
  Reads.method List.not_mem_nil

/-! ### One byte -/

variable {memory : Allocator} {s s' : Bytes} {p p' : HttpSim} {rl : RequestLine}
  {lines : List HeaderLine} {l : HeaderLine} {head : Head} {n : UInt64} {ch : UInt8} {t : Bytes}

theorem Reads.of_eq (h : Reads memory s p) (hs : s' = s) (hp : p' = p) : Reads memory s' p' := by
  rw [hs, hp]
  exact h

theorem notMem_concat {x : UInt8} (ht : x ∉ t) (hch : ch ≠ x) : x ∉ t ++ [ch] := by
  rw [List.mem_append, List.mem_singleton, not_or]
  exact ⟨ht, Ne.symm hch⟩

theorem InSection.nil (hrl : rl.WellFormed) : InSection rl [] 0 := ⟨hrl, by simp, rfl⟩

/-- One more header line, with the length that is in force then. -/
theorem InSection.concat {m : UInt64} (h : InSection rl lines n) (hl : l.WellFormed)
    (hm : (if l.key = contentLengthKey then stoul l.value else some n) = some m) :
    InSection rl (lines ++ [l]) m := by
  refine ⟨h.requestLine_wf, fun l' hl' => ?_, (contentLengthOf_concat h.contentLength l).trans hm⟩
  rcases List.mem_append.mp hl' with hold | hnew
  · exact h.lines_wf l' hold
  · exact List.mem_singleton.mp hnew ▸ hl

theorem InSection.announces (h : InSection rl lines n) (ht : colon ∉ t ∧ cr ∉ t) :
    Head.Announces ⟨rl, lines, t⟩ n :=
  ⟨h.requestLine_wf, h.lines_wf, ht, h.contentLength⟩

/-- A byte of the value, or a space before it. -/
theorem value_concat (key raw : Bytes) (ch : UInt8) :
    (HeaderLine.mk key (raw ++ [ch])).value =
      if ch = sp ∧ (HeaderLine.mk key raw).value = [] then [] else
        (HeaderLine.mk key raw).value ++ [ch] := by
  unfold HeaderLine.value
  rw [List.dropWhile_append]
  by_cases hempty : raw.dropWhile (· = sp) = []
  · by_cases hch : ch = sp <;> simp [hempty, hch]
  · simp [hempty]

namespace HttpSim

open Reads

theorem reads_method (ht : sp ∉ t) (ch : UInt8) :
    ∃ q, parseByte memory ⟨.Method, ⟨[], [], [], ∅, []⟩, t, [], 0, 0⟩ ch = .ok q ∧
      Reads memory (t ++ [ch]) q := by
  refine ⟨_, rfl, ?_⟩
  by_cases hch : ch = sp
  · exact (uri ht List.not_mem_nil).of_eq (by rw [hch]) (if_pos hch)
  · exact (method (notMem_concat ht hch)).of_eq rfl (if_neg hch)

theorem reads_uri {m : Bytes} (hm : sp ∉ m) (ht : sp ∉ t) (ch : UInt8) :
    ∃ q, parseByte memory ⟨.Uri, ⟨m, [], [], ∅, []⟩, t, [], 0, 0⟩ ch = .ok q ∧
      Reads memory (m ++ sp :: t ++ [ch]) q := by
  refine ⟨_, rfl, ?_⟩
  by_cases hch : ch = sp
  · exact (version hm ht List.not_mem_nil).of_eq (by simp [hch]) (if_pos hch)
  · exact (uri hm (notMem_concat ht hch)).of_eq (by simp) (if_neg hch)

theorem reads_version {m u : Bytes} (hm : sp ∉ m) (hu : sp ∉ u) (ht : lf ∉ t) (ch : UInt8) :
    ∃ q, parseByte memory ⟨.Version, ⟨m, u, [], ∅, []⟩, t.filter (· ≠ cr), [], 0, 0⟩ ch = .ok q ∧
      Reads memory (m ++ sp :: (u ++ sp :: t) ++ [ch]) q := by
  refine ⟨_, rfl, ?_⟩
  by_cases hcr : ch = cr
  · have hlf : ch ≠ lf := by rw [hcr]; decide
    exact (version hm hu (notMem_concat ht hlf)).of_eq (by simp)
      ((if_pos hcr).trans (by simp [hcr]))
  · by_cases hlf : ch = lf
    · have S : InSection ⟨m, u, t⟩ [] 0 := .nil ⟨hm, hu, ht⟩
      refine (headerKey S ⟨List.not_mem_nil, List.not_mem_nil⟩).of_eq ?_
        ((if_neg hcr).trans (if_pos hlf))
      simp [sectionText, RequestLine.text, hlf]
    · exact (version hm hu (notMem_concat ht hlf)).of_eq (by simp)
        ((if_neg hcr).trans ((if_neg hlf).trans (by simp [appendToken, hcr])))

theorem reads_headerKey (S : InSection rl lines n) (ht : colon ∉ t ∧ cr ∉ t) (ch : UInt8) :
    ∃ q, parseByte memory ⟨.HeaderKey, requestOf rl lines [], t, [], n, 0⟩ ch = .ok q ∧
      Reads memory (sectionText rl lines ++ t ++ [ch]) q := by
  refine ⟨_, rfl, ?_⟩
  by_cases hcr : ch = cr
  · exact (expectBodyLF (S.announces ht)).of_eq (by simp [hcr]) (if_pos hcr)
  · by_cases hcolon : ch = colon
    · exact (headerValue S (l := ⟨t, []⟩) ⟨ht, List.not_mem_nil⟩).of_eq (by simp [hcolon])
        ((if_neg hcr).trans (if_pos hcolon))
    · exact (headerKey S ⟨notMem_concat ht.1 hcolon, notMem_concat ht.2 hcr⟩).of_eq (by simp)
        ((if_neg hcr).trans (if_neg hcolon))

theorem reads_headerValue (S : InSection rl lines n) (hl : l.WellFormed) (ch : UInt8) :
    ∃ q, parseByte memory ⟨.HeaderValue, requestOf rl lines [], l.value, l.key, n, 0⟩ ch = .ok q ∧
      Reads memory (sectionText rl lines ++ (l.key ++ colon :: l.raw) ++ [ch]) q := by
  refine ⟨_, rfl, ?_⟩
  obtain ⟨key, raw⟩ := l
  by_cases hcr : ch = cr
  · have hsp : ¬ (ch = sp ∧ (HeaderLine.mk key raw).value = []) := by
      rw [hcr]
      exact fun h => absurd h.1 (by decide)
    exact (expectValueLF S hl).of_eq (by simp [hcr]) ((if_neg hsp).trans (if_pos hcr))
  · have hvalue := value_concat key raw ch
    refine (headerValue S (l := ⟨key, raw ++ [ch]⟩) ⟨hl.key, notMem_concat hl.raw hcr⟩).of_eq
      (by simp) ?_
    by_cases hsp : ch = sp ∧ (HeaderLine.mk key raw).value = []
    · rw [hvalue, if_pos hsp, if_pos hsp, hsp.2]
    · rw [hvalue, if_neg hsp, if_neg hsp]
      exact if_neg hcr

theorem reads_expectValueLF (S : InSection rl lines n) (hl : l.WellFormed) (ch : UInt8) :
    ∃ q, parseByte memory ⟨.ExpectValueLF, requestOf rl lines [], l.value, l.key, n, 0⟩ ch = .ok q ∧
      Reads memory (sectionText rl lines ++ (l.key ++ colon :: (l.raw ++ [cr])) ++ [ch]) q := by
  refine ⟨_, rfl, ?_⟩
  by_cases hlf : ch = lf
  · have htext : sectionText rl lines ++ (l.key ++ colon :: (l.raw ++ [cr])) ++ [ch] =
        sectionText rl (lines ++ [l]) ++ [] := by
      simp [sectionText_concat, HeaderLine.text, hlf]
    have hrequest : requestOf rl (lines ++ [l]) [] =
        { requestOf rl lines [] with
          headers := (requestOf rl lines []).headers.set l.key l.value } := by
      simp [requestOf, headersOf_concat]
    have hnil : colon ∉ ([] : Bytes) ∧ cr ∉ ([] : Bytes) := ⟨List.not_mem_nil, List.not_mem_nil⟩
    rw [htext, if_pos hlf]
    by_cases hkey : l.key = contentLengthKey
    · cases hlength : stoul l.value with
      | none =>
          apply error <;> simp [endHeader, hkey, hlength, transitionTo, requestOf]
      | some m =>
          refine (headerKey (S.concat hl ((if_pos hkey).trans hlength)) hnil).of_eq rfl ?_
          rw [hrequest]
          simp [endHeader, hkey, hlength]
    · refine (headerKey (S.concat hl (if_neg hkey)) hnil).of_eq rfl ?_
      rw [hrequest]
      simp [endHeader, hkey]
  · rw [if_neg hlf]
    exact error rfl rfl rfl

/-- The empty line: the one place where a byte can be refused. -/
theorem reads_expectBodyLF (hhead : head.Announces n) (ch : UInt8) :
    let p : HttpSim := ⟨.ExpectBodyLF, requestOf head.requestLine head.lines [], [], [], n, 0⟩
    let s := sectionText head.requestLine head.lines ++ (head.junk ++ [cr])
    (∃ q, parseByte memory p ch = .ok q ∧ Reads memory (s ++ [ch]) q) ∨
      (∃ exception, parseByte memory p ch = .error exception) ∧ memory.limit < n.toNat ∧
        s ++ [ch] = head.text := by
  intro p s
  by_cases hlf : ch = lf
  · have htext : s ++ [ch] = head.text := by simp [s, Head.text, hlf]
    rw [htext]
    by_cases hpos : n > 0
    · have hstep : parseByte memory p lf = _ := parseByte_emptyLine hpos
      rw [hlf]
      by_cases hmax : memory.limit < n.toNat
      · obtain ⟨exception, hthrow⟩ := exists_reserve_error hmax
        rw [hthrow] at hstep
        exact Or.inr ⟨⟨exception, hstep⟩, hmax, rfl⟩
      · have hfits := not_lt.mp hmax
        rw [reserve_of_le hfits] at hstep
        refine Or.inl ⟨_, hstep, ?_⟩
        exact (body hhead hfits (b := []) (UInt64.lt_iff_toNat_lt.mp hpos)).of_eq (by simp) rfl
    · have hzero : n = 0 := by
        apply UInt64.toNat_inj.mp
        exact Nat.le_zero.mp (UInt64.le_iff_toNat_le.mp (UInt64.not_lt.mp hpos))
      subst hzero
      refine Or.inl ⟨⟨.Complete, requestOf head.requestLine head.lines [], [], [], 0, 0⟩, ?_, ?_⟩
      · simp [p, parseByte, hlf, transitionTo]
      · have hdone : Reads memory (head.text ++ [] ++ []) _ := complete hhead (Nat.zero_le _) rfl
        exact hdone.of_eq (by simp) rfl
  · exact Or.inl ⟨p.transitionTo .Error, by simp [p, parseByte, hlf], error rfl rfl rfl⟩

theorem reads_body {b : Bytes} (hhead : head.Announces n) (hn : n.toNat ≤ memory.limit)
    (hb : b.length < n.toNat) (ch : UInt8) :
    ∃ q, parseByte memory ⟨.Body, requestOf head.requestLine head.lines b, [], [], n,
        UInt64.ofNat b.length⟩ ch = .ok q ∧ Reads memory (head.text ++ b ++ [ch]) q := by
  have hbound : b.length + 1 < 2 ^ 64 := by
    have := UInt64.toNat_lt n
    omega
  have hread : UInt64.ofNat b.length + 1 = UInt64.ofNat (b.length + 1) := by
    rw [UInt64.ofNat_add]
    rfl
  have hcount : (UInt64.ofNat (b.length + 1)).toNat = b.length + 1 :=
    UInt64.toNat_ofNat_of_lt' hbound
  refine ⟨_, rfl, ?_⟩
  dsimp only
  rw [hread]
  by_cases hlast : b.length + 1 = n.toNat
  · have hall : UInt64.ofNat (b.length + 1) = n := UInt64.toNat_inj.mp (hcount.trans hlast)
    rw [hall, if_pos (UInt64.le_refl n)]
    have hdone : Reads memory (head.text ++ (b ++ [ch]) ++ []) _ :=
      complete hhead hn (by simpa using hlast)
    exact hdone.of_eq (by simp) rfl
  · have hmore : ¬ UInt64.ofNat (b.length + 1) ≥ n := by
      rw [ge_iff_le, UInt64.le_iff_toNat_le, hcount]
      omega
    rw [if_neg hmore]
    exact (body hhead hn (b := b ++ [ch]) (by simp; omega)).of_eq (by simp)
      (by simp [requestOf])

/-- **One byte.** It is read, or it is the LF after a head that announces too much. -/
theorem reads_step (h : Reads memory s p) (ch : UInt8) :
    (∃ q, parseByte memory p ch = .ok q ∧ Reads memory (s ++ [ch]) q) ∨
      (∃ exception, parseByte memory p ch = .error exception) ∧
        Oversized memory (s ++ [ch]) := by
  cases h with
  | method ht => exact Or.inl (reads_method ht ch)
  | uri hm ht => exact Or.inl (reads_uri hm ht ch)
  | version hm hu ht => exact Or.inl (reads_version hm hu ht ch)
  | headerKey S ht => exact Or.inl (reads_headerKey S ht ch)
  | headerValue S hl => exact Or.inl (reads_headerValue S hl ch)
  | expectValueLF S hl => exact Or.inl (reads_expectValueLF S hl ch)
  | expectBodyLF hhead =>
      rcases reads_expectBodyLF hhead ch with hok | ⟨hthrow, hmax, htext⟩
      · exact Or.inl hok
      · exact Or.inr ⟨hthrow, _, _, [], hhead, hmax, by rw [htext, List.append_nil]⟩
  | body hhead hn hb => exact Or.inl (reads_body hhead hn hb ch)
  | complete hhead hn hb =>
      exact Or.inl ⟨_, rfl, (complete hhead hn hb).of_eq (by rw [List.append_assoc]) rfl⟩
  | error hstate hbody hread =>
      exact Or.inl ⟨p, by simp [parseByte, hstate], error hstate hbody hread⟩

/-- **A whole stream.** It is read to the end, or it is oversized. -/
theorem reads_consume (s : Bytes) :
    (∃ p, consume (parseByte memory) fresh s = .ok p ∧ Reads memory s p) ∨
      (∃ exception, consume (parseByte memory) fresh s = .error exception) ∧
        Oversized memory s := by
  induction s using List.reverseRecOn with
  | nil => exact Or.inl ⟨fresh, rfl, reads_fresh memory⟩
  | append_singleton s ch ih =>
      rcases ih with ⟨p, hrun, hreads⟩ | ⟨⟨exception, hthrow⟩, hover⟩
      · rw [consume_append hrun]
        rcases reads_step hreads ch with ⟨q, hstep, hq⟩ | ⟨⟨exception, hstep⟩, hover⟩
        · exact Or.inl ⟨q, by rw [consume_cons hstep, consume_nil], hq⟩
        · exact Or.inr ⟨⟨exception, consume_cons_error hstep⟩, hover⟩
      · obtain ⟨head, n, rest, hhead, hmax, rfl⟩ := hover
        exact Or.inr ⟨⟨exception, consume_append_error hthrow⟩,
          head, n, rest ++ [ch], hhead, hmax, by rw [List.append_assoc]⟩

/-- What a run ends in reads what the run has consumed. -/
theorem reads_of_consume (hrun : consume (parseByte memory) fresh s = .ok p) :
    Reads memory s p := by
  rcases reads_consume s with ⟨q, hq, hreads⟩ | ⟨⟨exception, hthrow⟩, -⟩
  · rwa [← Except.ok.inj (hq.symm.trans hrun)]
  · rw [hthrow] at hrun
    nomatch hrun

/-! ### A head is read as what it is -/

variable {r : HttpRequest} {L : UInt64} {rest key : Bytes}

theorem consume_versionLine : ∀ (s t : Bytes), lf ∉ s →
    consume (parseByte memory) ⟨.Version, r, t, key, L, 0⟩ (s ++ lf :: rest) =
      consume (parseByte memory)
        ⟨.HeaderKey, { r with version := t ++ s.filter (· ≠ cr) }, [], key, L, 0⟩ rest := by
  intro s
  induction s with
  | nil =>
      intro t _
      apply consume_cons
      simp [parseByte, show lf ≠ cr by decide]
  | cons ch s ih =>
      intro t h
      rw [List.mem_cons, not_or] at h
      rw [List.cons_append]
      by_cases hcr : ch = cr
      · have hskip : parseByte memory ⟨.Version, r, t, key, L, 0⟩ ch =
            .ok ⟨.Version, r, t, key, L, 0⟩ := by simp [parseByte, hcr]
        rw [consume_cons hskip, ih t h.2]
        simp [hcr]
      · have hstep : parseByte memory ⟨.Version, r, t, key, L, 0⟩ ch =
            .ok ⟨.Version, r, t ++ [ch], key, L, 0⟩ := by
          simp [parseByte, hcr, Ne.symm h.1, appendToken]
        rw [consume_cons hstep, ih _ h.2]
        simp [hcr]

theorem consume_raw : ∀ (raw : Bytes), cr ∉ raw →
    consume (parseByte memory) ⟨.HeaderValue, r, [], key, L, 0⟩ (raw ++ cr :: rest) =
      consume (parseByte memory) ⟨.ExpectValueLF, r, raw.dropWhile (· = sp), key, L, 0⟩ rest := by
  intro raw
  induction raw with
  | nil =>
      intro _
      apply consume_cons
      simp [parseByte, transitionTo, show cr ≠ sp by decide]
  | cons ch raw ih =>
      intro h
      by_cases hsp : ch = sp
      · have hskip : parseByte memory ⟨.HeaderValue, r, [], key, L, 0⟩ ch =
            .ok ⟨.HeaderValue, r, [], key, L, 0⟩ := by simp [parseByte, hsp]
        rw [List.cons_append, consume_cons hskip, ih (fun hr => h (List.mem_cons_of_mem _ hr)),
          List.dropWhile_cons_of_pos (by simpa using hsp)]
      · rw [List.dropWhile_cons_of_neg (by simpa using hsp)]
        refine consume_field rfl (fun u x v hs => ?_) ?_
        · have hfirst : ¬ (x = sp ∧ u = []) := by
            rintro ⟨rfl, rfl⟩
            exact hsp (List.cons.inj hs).1
          simp [parseByte, appendToken, hfirst, ne_of_notMem hs h]
        · simp [parseByte, transitionTo, show cr ≠ sp by decide]

theorem consume_line {m : UInt64} (hl : l.WellFormed)
    (hm : (if l.key = contentLengthKey then stoul l.value else some L) = some m) :
    consume (parseByte memory) ⟨.HeaderKey, r, [], [], L, 0⟩ (l.text ++ rest) =
      consume (parseByte memory)
        ⟨.HeaderKey, { r with headers := r.headers.set l.key l.value }, [], [], m, 0⟩ rest := by
  have htext : l.text ++ rest = l.key ++ colon :: (l.raw ++ cr :: (lf :: rest)) := by
    simp [HeaderLine.text]
  rw [htext, consume_key hl.key, consume_raw l.raw hl.raw]
  apply consume_cons
  by_cases hkey : l.key = contentLengthKey
  · rw [if_pos hkey] at hm
    unfold HeaderLine.value at hm
    simp [parseByte, endHeader, hkey, hm, HeaderLine.value]
  · rw [if_neg hkey] at hm
    simp [parseByte, endHeader, hkey, Option.some.inj hm, HeaderLine.value]

theorem consume_lines : ∀ (lines : List HeaderLine) (r : HttpRequest) (L : UInt64) {m : UInt64},
    (∀ l ∈ lines, l.WellFormed) →
    lines.foldlM (fun n l => if l.key = contentLengthKey then stoul l.value else some n) L =
      some m →
    consume (parseByte memory) ⟨.HeaderKey, r, [], [], L, 0⟩
        (lines.flatMap HeaderLine.text ++ rest) =
      consume (parseByte memory) ⟨.HeaderKey,
        { r with headers := lines.foldl (fun h l => h.set l.key l.value) r.headers }, [], [], m,
        0⟩ rest := by
  intro lines
  induction lines with
  | nil =>
      intro r L m _ hm
      obtain rfl := Option.some.inj hm
      rfl
  | cons l lines ih =>
      intro r L m hlines hm
      rw [List.foldlM_cons] at hm
      obtain ⟨k, hk, hm⟩ := Option.bind_eq_some_iff.mp hm
      rw [List.flatMap_cons, List.append_assoc, consume_line (hlines l List.mem_cons_self) hk,
        ih _ _ (fun l' hl' => hlines l' (List.mem_cons_of_mem _ hl')) hm]
      rfl

/-- The run over a head up to its last byte. -/
theorem consume_head (hhead : head.Announces n) :
    consume (parseByte memory) fresh
        (sectionText head.requestLine head.lines ++ (head.junk ++ [cr])) =
      .ok ⟨.ExpectBodyLF, requestOf head.requestLine head.lines [], [], [], n, 0⟩ := by
  have htext : sectionText head.requestLine head.lines ++ (head.junk ++ [cr]) =
      head.requestLine.method ++ sp :: (head.requestLine.uri ++ sp ::
        (head.requestLine.versionLine ++ lf ::
          (head.lines.flatMap HeaderLine.text ++ (head.junk ++ cr :: [])))) := by
    simp [sectionText, RequestLine.text]
  rw [htext, fresh, consume_method hhead.requestLine.method, consume_uri hhead.requestLine.uri,
    consume_versionLine _ _ hhead.requestLine.versionLine,
    consume_lines head.lines _ _ hhead.lines hhead.contentLength]
  refine (consume_field rfl (fun u ch v hs => ?_) ?_).trans (consume_nil ..)
  · simp [parseByte, appendToken, ne_of_notMem hs hhead.junk.1, ne_of_notMem hs hhead.junk.2]
  · simp [parseByte, clearToken, transitionTo, requestOf, headersOf]

/-- A parser throws on exactly the oversized streams. -/
theorem consume_throws_iff (s : Bytes) :
    (∃ exception, consume (parseByte memory) fresh s = .error exception) ↔
      Oversized memory s := by
  constructor
  · rintro ⟨exception, hthrow⟩
    rcases reads_consume s with ⟨p, hrun, -⟩ | ⟨-, hover⟩
    · cases hrun.symm.trans hthrow
    · exact hover
  · rintro ⟨head, n, rest, hhead, hmax, rfl⟩
    have hpos : n > 0 := UInt64.lt_iff_toNat_lt.mpr (Nat.lt_of_le_of_lt (Nat.zero_le _) hmax)
    have htext : head.text ++ rest =
        sectionText head.requestLine head.lines ++ (head.junk ++ [cr]) ++ lf :: rest := by
      simp [Head.text]
    obtain ⟨exception, hreserve⟩ := exists_reserve_error hmax
    rw [htext, consume_append (consume_head hhead)]
    refine ⟨exception, consume_cons_error ?_⟩
    rw [parseByte_emptyLine hpos, hreserve]
    rfl

theorem consume_ok_iff (s : Bytes) :
    (∃ p, consume (parseByte memory) fresh s = .ok p) ↔ ¬ Oversized memory s := by
  rw [← consume_throws_iff]
  constructor
  · rintro ⟨p, hrun⟩ ⟨exception, hthrow⟩
    cases hrun.symm.trans hthrow
  · intro hnot
    rcases reads_consume s with ⟨p, hrun, -⟩ | ⟨hthrow, -⟩
    · exact ⟨p, hrun⟩
    · exact absurd hthrow hnot

end HttpSim

/-- **When parsing returns.** A new or reset parser returns on every chunk of a stream,
however it is cut, if and only if the stream does not begin with a head that announces
more bytes than can be allocated. -/
theorem parseChunk_returns_iff (memory : Allocator) (p : HttpSim) (chunks : List Bytes) :
    (∃ reports q, feed (HttpSim.parseChunk memory) p.reset chunks = .ok (reports, q)) ↔
      ¬ Oversized memory chunks.flatten :=
  (feed_ok_iff (HttpSim.parseChunk_eq memory) chunks HttpSim.fresh).trans
    (HttpSim.consume_ok_iff chunks.flatten)

/-- `POST / HTTP/1.1`. -/
def postLine : RequestLine := ⟨ascii "POST", ascii "/", ascii "HTTP/1.1\r"⟩

theorem postLine_wellFormed : postLine.WellFormed :=
  ⟨by decide +kernel, by decide +kernel, by decide +kernel⟩

/-- The head of a request with one header line, that of its length. -/
def announcing (length : String) : Head :=
  ⟨postLine, [⟨contentLengthKey, ascii length⟩], []⟩

theorem announces_announcing {length : String} {n : UInt64} (hcr : cr ∉ ascii length)
    (hn : stoul (HeaderLine.value ⟨contentLengthKey, ascii length⟩) = some n) :
    Head.Announces (announcing length) n where
  requestLine := postLine_wellFormed
  lines := by
    have hkey : colon ∉ contentLengthKey ∧ cr ∉ contentLengthKey := by decide +kernel
    intro l hl
    obtain rfl := List.mem_singleton.mp hl
    exact ⟨hkey, hcr⟩
  junk := ⟨List.not_mem_nil, List.not_mem_nil⟩
  contentLength := by simp [contentLengthOf, announcing, hn]

/-- `std::stoul` accepts the largest word, and no allocator has that much. -/
theorem not_parseChunk_returns :
    ¬ ∃ memory : Allocator, ∀ chunks : List Bytes, ∃ reports q,
      feed (HttpSim.parseChunk memory) HttpSim.fresh chunks = .ok (reports, q) := by
  rintro ⟨memory, h⟩
  obtain ⟨reports, q, hok⟩ := h [(announcing "18446744073709551615").text]
  have hhead : Head.Announces (announcing "18446744073709551615") (2 ^ 64 - 1) :=
    announces_announcing (by decide +kernel) (by decide +kernel)
  have hlimit : memory.limit < (2 ^ 64 - 1 : UInt64).toNat :=
    Nat.lt_of_le_of_lt memory.limit_le (by decide +kernel)
  have hrun := feed_consume (HttpSim.parseChunk_eq memory) _ hok
  refine (HttpSim.consume_ok_iff _).mp ⟨q, hrun⟩ ?_
  exact ⟨_, _, [], hhead, hlimit, by simp⟩

end Netsim.Protocols
