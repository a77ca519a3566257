import Netsim.Protocols.HttpGrammar

/-!
# The content length of a header line

`std::stoul` reads more than numerals: white space and a sign may precede the digits,
and anything may follow them. `Numeral` is what it reads, and a value of a
`Content-Length` line is read strictly unless it is such a text and no plain numeral.
-/

namespace Netsim.Protocols

open Foundation HttpSim

/-- `v` is white space, an optional sign, the digits of a 64-bit number and a rest. -/
structure Numeral (v space sign digits rest : Bytes) (n : ℕ) : Prop where
  text : v = space ++ (sign ++ (digits ++ rest))
  space : ∀ b ∈ space, isSpace b = true
  sign : sign = [] ∨ sign = [43] ∨ sign = [45]
  digits : IsDecimal digits n
  bound : n < 2 ^ 64
  rest : ∀ b ∈ rest.head?, isDigit b = false

/-- Digits of a 64-bit number with white space or a sign before them, or more after. -/
def Lenient (v : Bytes) : Prop :=
  ∃ space sign digits rest n, Numeral v space sign digits rest n ∧
    ¬ (space = [] ∧ sign = [] ∧ rest = [])

/-- The state after a `Content-Length` line with this value, were it read strictly. -/
structure ReadStrictly (v : Bytes) (q : HttpSim) : Prop where
  accepted : ∀ n, IsDecimal v n → n < 2 ^ 64 →
    q.state = .HeaderKey ∧ q.contentLength.toNat = n
  refused : (¬ ∃ n, IsDecimal v n ∧ n < 2 ^ 64) → q.state = .Error

variable {memory : Allocator} {v space sign digits rest s before : Bytes} {n : ℕ} {m : UInt64}
  {p : HttpSim}

/-! ### What `std::stoul` reads -/

/-- The sign is split off the text. -/
theorem splitSign_spec (s : Bytes) :
    ∃ sign, (sign = [] ∨ sign = [43] ∨ sign = [45]) ∧ s = sign ++ (splitSign s).2 := by
  unfold splitSign
  split
  · exact ⟨[45], Or.inr (Or.inr rfl), rfl⟩
  · exact ⟨[43], Or.inr (Or.inl rfl), rfl⟩
  · exact ⟨[], Or.inl rfl, rfl⟩

theorem splitSign_sign (hsign : sign = [] ∨ sign = [43] ∨ sign = [45]) (hs : s ≠ [])
    (hdigit : ∀ b ∈ s.head?, isDigit b = true) : (splitSign (sign ++ s)).2 = s := by
  rcases hsign with rfl | rfl | rfl
  · obtain ⟨b, s, rfl⟩ := List.exists_cons_of_ne_nil hs
    rw [List.nil_append, splitSign_of_isDigit (hdigit b rfl)]
  · rfl
  · rfl

theorem dropWhile_space (h : Numeral v space sign digits rest n) :
    v.dropWhile isSpace = sign ++ (digits ++ rest) := by
  obtain ⟨b, digits, rfl⟩ := List.exists_cons_of_ne_nil h.digits.ne_nil
  have hfirst : ∃ c t, sign ++ (b :: digits ++ rest) = c :: t ∧ isSpace c = false := by
    rcases h.sign with rfl | rfl | rfl
    · exact ⟨b, _, rfl, isSpace_of_isDigit (h.digits.digits b List.mem_cons_self)⟩
    · exact ⟨43, _, rfl, by decide⟩
    · exact ⟨45, _, rfl, by decide⟩
  obtain ⟨c, t, htext, hc⟩ := hfirst
  rw [h.text, List.dropWhile_append_of_pos h.space, htext,
    List.dropWhile_cons_of_neg (by simp [hc])]

theorem stoul_isSome_of_numeral (h : Numeral v space sign digits rest n) :
    (stoul v).isSome = true := by
  obtain ⟨b, ds, hds⟩ := List.exists_cons_of_ne_nil h.digits.ne_nil
  have hsplit : (splitSign (v.dropWhile isSpace)).2 = digits ++ rest := by
    rw [dropWhile_space h]
    refine splitSign_sign h.sign (by simp [hds]) fun c hc => ?_
    rw [hds] at hc
    obtain rfl := Option.some.inj hc
    exact h.digits.digits b (by rw [hds]; exact List.mem_cons_self)
  have htake : (digits ++ rest).takeWhile isDigit = digits := by
    rw [List.takeWhile_append_of_pos h.digits.digits]
    cases rest with
    | nil => simp
    | cons c rest => simp [h.rest c rfl]
  unfold stoul
  dsimp only
  rw [hsplit, htake, if_neg h.digits.ne_nil, h.digits.value, if_pos h.bound]
  rfl

theorem exists_numeral (h : stoul v = some m) :
    ∃ space sign digits rest n, Numeral v space sign digits rest n := by
  obtain ⟨sign, hsign, htext⟩ := splitSign_spec (v.dropWhile isSpace)
  unfold stoul at h
  dsimp only at h
  generalize (splitSign (v.dropWhile isSpace)).2 = body at h htext
  split at h
  · nomatch h
  rename_i hne
  split at h
  · rename_i hbound
    refine ⟨v.takeWhile isSpace, sign, body.takeWhile isDigit, body.dropWhile isDigit, _, ?_,
      fun b hb => List.mem_takeWhile_imp hb, hsign,
      ⟨hne, fun b hb => List.mem_takeWhile_imp hb, rfl⟩, hbound, fun b hb => ?_⟩
    · rw [List.takeWhile_append_dropWhile, ← htext, List.takeWhile_append_dropWhile]
    · have hhead := List.head?_dropWhile_not isDigit body
      rw [Option.mem_def.mp hb] at hhead
      simpa using hhead
  · nomatch h

/-- Only digits make a plain numeral. -/
theorem Lenient.not_digits (h : Lenient v) : ¬ ∀ b ∈ v, isDigit b = true := by
  rintro hall
  obtain ⟨space, sign, digits, rest, n, hnum, hne⟩ := h
  have hmem : ∀ b, b ∈ space ∨ b ∈ sign ∨ b ∈ rest → isDigit b = true := by
    intro b hb
    apply hall
    rw [hnum.text]
    simp only [List.mem_append]
    tauto
  refine hne ⟨?_, ?_, ?_⟩
  · by_contra hspace
    obtain ⟨b, t, rfl⟩ := List.exists_cons_of_ne_nil hspace
    have hdigit := isSpace_of_isDigit (hmem b (Or.inl List.mem_cons_self))
    rw [hnum.space b List.mem_cons_self] at hdigit
    nomatch hdigit
  · rcases hnum.sign with rfl | rfl | rfl
    · rfl
    · exact absurd (hmem 43 (Or.inr (Or.inl List.mem_cons_self))) (by decide)
    · exact absurd (hmem 45 (Or.inr (Or.inl List.mem_cons_self))) (by decide)
  · by_contra hrest
    obtain ⟨b, t, rfl⟩ := List.exists_cons_of_ne_nil hrest
    have hdigit := hmem b (Or.inr (Or.inr List.mem_cons_self))
    rw [hnum.rest b rfl] at hdigit
    nomatch hdigit

/-! ### The line -/

/-- The run over a `Content-Length` line. -/
theorem consume_contentLength {r : HttpRequest} {L : UInt64} (k : ℕ) (hcr : cr ∉ v)
    (hsp : v.head? ≠ some sp) :
    consume (parseByte memory) ⟨.HeaderKey, r, [], [], L, 0⟩
        (contentLengthKey ++ colon :: (List.replicate k sp ++ (v ++ [cr, lf]))) =
      .ok (endHeader ⟨.ExpectValueLF, r, v, contentLengthKey, L, 0⟩) := by
  have hraw : cr ∉ List.replicate k sp ++ v := by
    rw [List.mem_append, not_or]
    exact ⟨fun h => absurd (List.eq_of_mem_replicate h) (by decide), hcr⟩
  have hvalue : (List.replicate k sp ++ v).dropWhile (· = sp) = v := by
    rw [List.dropWhile_append_of_pos fun b hb => by simpa using List.eq_of_mem_replicate hb]
    cases v with
    | nil => rfl
    | cons b v => exact List.dropWhile_cons_of_neg (by simpa using hsp)
  have htext : List.replicate k sp ++ (v ++ [cr, lf]) =
      List.replicate k sp ++ v ++ cr :: [lf] := by simp
  rw [htext, consume_key (by decide +kernel), consume_raw _ hraw, hvalue]
  apply consume_cons
  simp [parseByte]

theorem endHeader_contentLength (r : HttpRequest) (L : UInt64) :
    match stoul v with
    | some m =>
        (endHeader ⟨.ExpectValueLF, r, v, contentLengthKey, L, 0⟩).state = .HeaderKey ∧
          (endHeader ⟨.ExpectValueLF, r, v, contentLengthKey, L, 0⟩).contentLength = m
    | none => (endHeader ⟨.ExpectValueLF, r, v, contentLengthKey, L, 0⟩).state = .Error := by
  cases hv : stoul v <;> simp [endHeader, hv, transitionTo]

theorem readStrictly_iff (r : HttpRequest) (L : UInt64) :
    ReadStrictly v (endHeader ⟨.ExpectValueLF, r, v, contentLengthKey, L, 0⟩) ↔ ¬ Lenient v := by
  have hend := endHeader_contentLength (v := v) r L
  generalize endHeader ⟨.ExpectValueLF, r, v, contentLengthKey, L, 0⟩ = q at hend
  cases hv : stoul v with
  | none =>
      rw [hv] at hend
      refine iff_of_true ⟨fun n hn hbound => ?_, fun _ => hend⟩ ?_
      · rw [stoul_of_isDecimal hn hbound] at hv
        nomatch hv
      · rintro ⟨space, sign, digits, rest, n, hnum, -⟩
        have hsome := stoul_isSome_of_numeral hnum
        rw [hv] at hsome
        nomatch hsome
  | some m =>
      rw [hv] at hend
      constructor
      · intro hstrict hlenient
        have herror := hstrict.refused fun ⟨n, hn, _⟩ => hlenient.not_digits hn.digits
        rw [hend.1] at herror
        nomatch herror
      · intro hplain
        obtain ⟨space, sign, digits, rest, n, hnum⟩ := exists_numeral hv
        have hall : space = [] ∧ sign = [] ∧ rest = [] := by
          by_contra hne
          exact hplain ⟨space, sign, digits, rest, n, hnum, hne⟩
        obtain ⟨rfl, rfl, rfl⟩ := hall
        have htext : v = digits := by simpa using hnum.text
        have hdecimal : IsDecimal v n := htext ▸ hnum.digits
        refine ⟨fun n' hn' hbound => ⟨hend.1, ?_⟩, fun hnone =>
          absurd ⟨n, hdecimal, hnum.bound⟩ hnone⟩
        rw [stoul_of_isDecimal hn' hbound] at hv
        rw [hend.2, ← Option.some.inj hv, UInt64.toNat_ofNat_of_lt' hbound]

/-- **Which lengths are read strictly.** After whatever a new parser has read up to the
start of a header line, a `Content-Length` line is read as strictly as its value should
be if and only if the value is no lenient numeral. -/
theorem contentLength_readStrictly_iff (k : ℕ)
    (hrun : consume (parseByte memory) fresh before = .ok p) (hstate : p.state = .HeaderKey)
    (htoken : p.currentToken = []) (hcr : cr ∉ v) (hsp : v.head? ≠ some sp) :
    ∃ q, consume (parseByte memory) fresh
        (before ++ (contentLengthKey ++ colon :: (List.replicate k sp ++ (v ++ [cr, lf])))) =
          .ok q ∧ (ReadStrictly v q ↔ ¬ Lenient v) := by
  cases reads_of_consume hrun with
  | headerKey S ht =>
      dsimp only at htoken
      subst htoken
      exact ⟨_, (consume_append hrun).trans (consume_contentLength k hcr hsp),
        readStrictly_iff _ _⟩
  | error hstate' =>
      rw [hstate'] at hstate
      nomatch hstate
  | _ => nomatch hstate

/-- The bytes of `GET / HTTP/1.1`, and its CRLF. -/
def getLine : Bytes := ascii "GET / HTTP/1.1\r\n"

theorem consume_getLine :
    consume (parseByte memory) fresh getLine =
      .ok ⟨.HeaderKey, ⟨ascii "GET", ascii "/", ascii "HTTP/1.1", ∅, []⟩, [], [], 0, 0⟩ := by
  have htext : getLine = ascii "GET" ++ sp :: (ascii "/" ++ sp ::
      (ascii "HTTP/1.1" ++ cr :: lf :: [])) := by decide +kernel
  rw [htext, fresh, consume_method (by decide +kernel), consume_uri (by decide +kernel),
    consume_version (by decide +kernel), consume_nil]

theorem contentLength_readStrictly_iff_nineteen :
    ∃ q, consume (parseByte .unlimited) fresh
        (getLine ++
          (contentLengthKey ++ colon :: (List.replicate 1 sp ++ (ascii "19" ++ [cr, lf]))))
          = .ok q ∧ (ReadStrictly (ascii "19") q ↔ ¬ Lenient (ascii "19")) :=
  contentLength_readStrictly_iff 1 consume_getLine rfl rfl (by decide +kernel) (by decide +kernel)

/-- `+5, 6` is read as five. -/
theorem not_contentLength_readStrictly :
    ¬ ∃ memory : Allocator, ∀ (before v : Bytes) (p : HttpSim) (k : ℕ),
      consume (parseByte memory) fresh before = .ok p →
      p.state = .HeaderKey → p.currentToken = [] → cr ∉ v → v.head? ≠ some sp →
      ∃ q, consume (parseByte memory) fresh
        (before ++ (contentLengthKey ++ colon :: (List.replicate k sp ++ (v ++ [cr, lf])))) =
          .ok q ∧ ReadStrictly v q := by
  rintro ⟨memory, h⟩
  obtain ⟨q, hrun, hstrict⟩ := h getLine (ascii "+5, 6") _ 1 consume_getLine rfl rfl
    (by decide +kernel) (by decide +kernel)
  rw [consume_append consume_getLine,
    consume_contentLength 1 (by decide +kernel) (by decide +kernel)] at hrun
  obtain rfl := Except.ok.inj hrun
  refine (readStrictly_iff _ _).mp hstrict
    ⟨[], ascii "+", ascii "5", ascii ", 6", 5, ⟨?_, ?_, ?_, ?_, ?_, ?_⟩, ?_⟩
  · decide +kernel
  · intro b hb
    nomatch hb
  · exact Or.inr (Or.inl (by decide +kernel))
  · exact ⟨by decide +kernel, by decide +kernel, by decide +kernel⟩
  · norm_num
  · decide +kernel
  · exact fun hempty => absurd hempty.2.1 (by decide +kernel)

end Netsim.Protocols
