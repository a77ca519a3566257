import Netsim.Foundation.ChunkedMachine
import Netsim.Foundation.Decimal
import Netsim.Network.Addressing

/-!
# Addresses as text

The constructors from text of `addressing.cpp`, and `to_string`. The scanner reads one
character at a time with four variables; it is matched to the notation by what it has
read: whole octets, each with its dot, and the digits of the present one.
-/

namespace Netsim.Network

open Foundation

/-- `'.'`. -/
def dot : UInt8 := 46

/-- `std::invalid_argument`. -/
structure InvalidArgument where
  what : String
deriving DecidableEq, Repr

namespace IPv4Address

/-- The variables of the scanning loop. -/
structure Scan where
  result : UInt32
  octetsFound : ℕ
  currentOctet : UInt32
  readingDigit : Bool
deriving DecidableEq, Repr

def scanStart : Scan := ⟨0, 0, 0, false⟩

/-- The body of the loop. -/
def scanChar (s : Scan) (ch : UInt8) : Except InvalidArgument Scan :=
  if isDigit ch = true then
    let currentOctet := s.currentOctet * 10 + (ch.toUInt32 - 48)
    if currentOctet > 255 then .error ⟨"IPv4 octet value exceeds 255 limit"⟩
    else .ok { s with currentOctet := currentOctet, readingDigit := true }
  else if ch = dot then
    if s.readingDigit = false ∨ s.octetsFound ≥ 3 then
      .error ⟨"Malformed IPv4 segment separators"⟩
    else .ok ⟨s.result <<< 8 ||| s.currentOctet, s.octetsFound + 1, 0, false⟩
  else .error ⟨"Invalid symbol character in IPv4 address"⟩

/-- What follows the loop. -/
def scanEnd (s : Scan) : Except InvalidArgument IPv4Address :=
  if s.octetsFound ≠ 3 ∨ s.readingDigit = false then
    .error ⟨"Malformed IPv4 input segment count"⟩
  else .ok ⟨s.result <<< 8 ||| s.currentOctet⟩

/-- `IPv4Address(std::string_view)`. -/
def ofString (ipStr : List UInt8) : Except InvalidArgument IPv4Address := do
  let s ← consume scanChar scanStart ipStr
  scanEnd s

/-- `to_string`. -/
def toString (a : IPv4Address) : List UInt8 :=
  decimal ((a.toU32 >>> 24) &&& 255).toNat ++ [dot] ++
    decimal ((a.toU32 >>> 16) &&& 255).toNat ++ [dot] ++
    decimal ((a.toU32 >>> 8) &&& 255).toNat ++ [dot] ++
    decimal (a.toU32 &&& 255).toNat

/-! ### The notation -/

/-- A run of digits, leading zeros allowed, that denotes an octet. -/
def IsOctet (s : List UInt8) (n : ℕ) : Prop := IsDecimal s n ∧ n ≤ 255

/-- Four octets with a dot between each two. -/
def DottedQuad (s : List UInt8) (a b c d : ℕ) : Prop :=
  ∃ sa sb sc sd, IsOctet sa a ∧ IsOctet sb b ∧ IsOctet sc c ∧ IsOctet sd d ∧
    s = sa ++ dot :: (sb ++ dot :: (sc ++ dot :: sd))

/-- The number whose base-256 digits are given, most significant first. -/
def combine (values : List ℕ) : ℕ := values.foldl (fun n v => n * 256 + v) 0

/-- What has been read: octets already ended by a dot, and the digits after the last. -/
structure Scanned (octets : List (List UInt8)) (tail text : List UInt8) (s : Scan) : Prop where
  text_eq : text = octets.flatMap (· ++ [dot]) ++ tail
  octets_wf : ∀ o ∈ octets, IsOctet o (decimalValue o)
  octets_le : octets.length ≤ 3
  digits : ∀ b ∈ tail, isDigit b = true
  value_le : decimalValue tail ≤ 255
  result_eq : s.result.toNat = combine (octets.map decimalValue)
  octetsFound_eq : s.octetsFound = octets.length
  currentOctet_eq : s.currentOctet.toNat = decimalValue tail
  readingDigit_eq : s.readingDigit = decide (tail ≠ [])

variable {octets : List (List UInt8)} {tail text s : List UInt8} {st st' : Scan} {ch : UInt8}

theorem decimalValue_concat (s : List UInt8) (b : UInt8) :
    decimalValue (s ++ [b]) = decimalValue s * 10 + (b.toNat - 48) := by
  unfold decimalValue
  rw [List.foldl_append]
  rfl

theorem combine_concat (values : List ℕ) (v : ℕ) :
    combine (values ++ [v]) = combine values * 256 + v := by
  unfold combine
  rw [List.foldl_append]
  rfl

/-- So many octets fit in so many bytes. -/
theorem combine_lt {values : List ℕ} (h : ∀ v ∈ values, v ≤ 255) :
    combine values < 256 ^ values.length := by
  induction values using List.reverseRecOn with
  | nil => exact Nat.one_pos
  | append_singleton values v ih =>
      have hlt := ih fun w hw => h w (List.mem_append_left _ hw)
      have hv := h v (List.mem_append_right _ List.mem_cons_self)
      rw [combine_concat, List.length_append, List.length_singleton, Nat.pow_succ]
      omega

/-- Shifting an octet in, below the top byte. -/
theorem toNat_shift_or {r v : UInt32} (hr : r.toNat < 256 ^ 3) (hv : v.toNat ≤ 255) :
    (r <<< 8 ||| v).toNat = r.toNat * 256 + v.toNat := by
  have hshift : r.toNat <<< 8 % 2 ^ 32 = r.toNat <<< 8 := by
    apply Nat.mod_eq_of_lt
    rw [Nat.shiftLeft_eq]
    omega
  rw [UInt32.toNat_or, UInt32.toNat_shiftLeft]
  show r.toNat <<< 8 % 2 ^ 32 ||| v.toNat = _
  rw [hshift, ← Nat.shiftLeft_add_eq_or_of_lt (Nat.lt_succ_of_le hv), Nat.shiftLeft_eq]

/-- The digit that a character adds, and the room there is for it. -/
theorem toNat_next_octet (hch : isDigit ch = true) (hcur : st.currentOctet.toNat ≤ 255) :
    (st.currentOctet * 10 + (ch.toUInt32 - 48)).toNat =
      st.currentOctet.toNat * 10 + (ch.toNat - 48) := by
  obtain ⟨hlow, hhigh⟩ := isDigit_iff.mp hch
  have hle : (48 : UInt32) ≤ ch.toUInt32 := UInt32.le_iff_toNat_le.mpr (by simpa using hlow)
  rw [UInt32.toNat_add, UInt32.toNat_mul, UInt32.toNat_sub_of_le _ _ hle]
  simp only [UInt32.reduceToNat, UInt8.toNat_toUInt32]
  omega

theorem decimalValue_le_append (s t : List UInt8) : decimalValue s ≤ decimalValue (s ++ t) := by
  induction t using List.reverseRecOn with
  | nil => rw [List.append_nil]
  | append_singleton t b ih =>
      rw [← List.append_assoc, decimalValue_concat]
      omega

theorem scanned_start : Scanned [] [] [] scanStart where
  text_eq := rfl
  octets_wf := fun _ h => nomatch h
  octets_le := Nat.zero_le _
  digits := fun _ h => nomatch h
  value_le := Nat.zero_le _
  result_eq := rfl
  octetsFound_eq := rfl
  currentOctet_eq := rfl
  readingDigit_eq := rfl

/-! ### One character -/

theorem Scanned.currentOctet_le (h : Scanned octets tail text st) : st.currentOctet.toNat ≤ 255 :=
  h.currentOctet_eq ▸ h.value_le

/-- The octets that have been shifted in leave the top byte free. -/
theorem Scanned.result_lt (h : Scanned octets tail text st) : st.result.toNat < 256 ^ 3 := by
  have hvalues : ∀ v ∈ octets.map decimalValue, v ≤ 255 := by
    intro v hv
    rcases List.mem_map.mp hv with ⟨o, ho, rfl⟩
    exact (h.octets_wf o ho).2
  have hlt := combine_lt hvalues
  rw [← h.result_eq, List.length_map] at hlt
  exact Nat.lt_of_lt_of_le hlt (Nat.pow_le_pow_right (by decide) h.octets_le)

/-- A digit goes on with the octet, if the octet allows it. -/
theorem Scanned.digit (h : Scanned octets tail text st) (hch : isDigit ch = true) :
    if decimalValue (tail ++ [ch]) ≤ 255 then
      ∃ st', scanChar st ch = .ok st' ∧ Scanned octets (tail ++ [ch]) (text ++ [ch]) st'
    else scanChar st ch = .error ⟨"IPv4 octet value exceeds 255 limit"⟩ := by
  have hnext : (st.currentOctet * 10 + (ch.toUInt32 - 48)).toNat = decimalValue (tail ++ [ch]) := by
    rw [toNat_next_octet hch h.currentOctet_le, h.currentOctet_eq, decimalValue_concat]
  have hlarge : st.currentOctet * 10 + (ch.toUInt32 - 48) > 255 ↔
      ¬ decimalValue (tail ++ [ch]) ≤ 255 := by
    rw [gt_iff_lt, UInt32.lt_iff_toNat_lt, hnext, Nat.not_le]
    rfl
  unfold scanChar
  rw [if_pos hch]
  dsimp only
  split_ifs with hle herror herror
  · exact absurd hle (hlarge.mp herror)
  · refine ⟨_, rfl, ?_⟩
    exact {
      text_eq := by rw [h.text_eq, List.append_assoc]
      octets_wf := h.octets_wf
      octets_le := h.octets_le
      digits := fun b hb => by
        rcases List.mem_append.mp hb with hb | hb
        · exact h.digits b hb
        · exact List.mem_singleton.mp hb ▸ hch
      value_le := hle
      result_eq := h.result_eq
      octetsFound_eq := h.octetsFound_eq
      currentOctet_eq := hnext
      readingDigit_eq := by simp }
  · rfl
  · exact absurd (hlarge.mpr hle) herror

/-- A dot ends an octet, if there is one and three have not been found. -/
theorem Scanned.dot (h : Scanned octets tail text st) :
    if tail ≠ [] ∧ octets.length < 3 then
      ∃ st', scanChar st Network.dot = .ok st' ∧
        Scanned (octets ++ [tail]) [] (text ++ [Network.dot]) st'
    else scanChar st Network.dot = .error ⟨"Malformed IPv4 segment separators"⟩ := by
  have hrefused : (st.readingDigit = false ∨ st.octetsFound ≥ 3) ↔
      ¬ (tail ≠ [] ∧ octets.length < 3) := by
    rw [h.readingDigit_eq, h.octetsFound_eq, decide_eq_false_iff_not, not_and_or, Nat.not_lt]
  have hdigit : ¬ isDigit Network.dot = true := by decide
  unfold scanChar
  rw [if_neg hdigit, if_pos rfl]
  split_ifs with hok herror herror
  · exact absurd hok (hrefused.mp herror)
  · refine ⟨_, rfl, ?_⟩
    exact {
      text_eq := by rw [h.text_eq]; simp
      octets_wf := fun o ho => by
        rcases List.mem_append.mp ho with ho | ho
        · exact h.octets_wf o ho
        · obtain rfl := List.mem_singleton.mp ho
          exact ⟨⟨hok.1, h.digits, rfl⟩, h.value_le⟩
      octets_le := by
        rw [List.length_append]
        exact hok.2
      digits := fun _ hb => nomatch hb
      value_le := Nat.zero_le _
      result_eq := by
        dsimp only
        rw [toNat_shift_or h.result_lt h.currentOctet_le, h.result_eq, h.currentOctet_eq,
          List.map_append, List.map_singleton, combine_concat]
      octetsFound_eq := by
        rw [List.length_append, h.octetsFound_eq]
        rfl
      currentOctet_eq := rfl
      readingDigit_eq := rfl }
  · rfl
  · exact absurd (hrefused.mpr hok) herror

theorem scanChar_symbol (st : Scan) (hdigit : ¬ isDigit ch = true) (hdot : ch ≠ Network.dot) :
    scanChar st ch = .error ⟨"Invalid symbol character in IPv4 address"⟩ := by
  unfold scanChar
  rw [if_neg hdigit, if_neg hdot]

/-- A character that a rule reads or refuses has been read by it. -/
theorem read_of_ite {x : Except InvalidArgument Scan} {e : InvalidArgument} {p : Prop} [Decidable p]
    {Q : Scan → Prop} (h : if p then ∃ st', x = .ok st' ∧ Q st' else x = .error e)
    (hx : x = .ok st) : Q st := by
  split_ifs at h
  · obtain ⟨st', hok, hread⟩ := h
    obtain rfl := Except.ok.inj (hok.symm.trans hx)
    exact hread
  · rw [h] at hx
    nomatch hx

/-- **One character**: whatever is read keeps to the form. -/
theorem Scanned.step (h : Scanned octets tail text st) (hstep : scanChar st ch = .ok st') :
    ∃ octets' tail', Scanned octets' tail' (text ++ [ch]) st' := by
  by_cases hdigit : isDigit ch = true
  · exact ⟨_, _, read_of_ite (h.digit hdigit) hstep⟩
  · by_cases hdot : ch = Network.dot
    · subst hdot
      exact ⟨_, _, read_of_ite h.dot hstep⟩
    · rw [scanChar_symbol st hdigit hdot] at hstep
      nomatch hstep

/-- **A whole run** has read something of the form. -/
theorem scanned_consume (h : consume scanChar scanStart text = .ok st) :
    ∃ octets tail, Scanned octets tail text st :=
  consume_invariant (motive := fun text st => ∃ octets tail, Scanned octets tail text st)
    ⟨_, _, scanned_start⟩ (fun _ _ _ _ ⟨_, _, hread⟩ hstep => hread.step hstep) text h

/-! ### Texts of the form are read -/

theorem Scanned.consume_digits : ∀ (s : List UInt8) {tail text : List UInt8} {st : Scan},
    Scanned octets tail text st → (∀ b ∈ s, isDigit b = true) → decimalValue (tail ++ s) ≤ 255 →
    ∃ st', consume scanChar st s = .ok st' ∧ Scanned octets (tail ++ s) (text ++ s) st' := by
  intro s
  induction s with
  | nil =>
      intro tail text st h _ _
      refine ⟨st, rfl, ?_⟩
      rw [List.append_nil, List.append_nil]
      exact h
  | cons ch s ih =>
      intro tail text st h hs hle
      rw [List.append_cons] at hle
      have hfirst := h.digit (hs ch List.mem_cons_self)
      rw [if_pos (Nat.le_trans (decimalValue_le_append _ s) hle)] at hfirst
      obtain ⟨st', hstep, hnext⟩ := hfirst
      obtain ⟨st'', hrun, hlast⟩ := ih hnext (fun b hb => hs b (List.mem_cons_of_mem _ hb)) hle
      refine ⟨st'', (consume_cons hstep).trans hrun, ?_⟩
      rw [List.append_cons tail, List.append_cons text]
      exact hlast

/-- An octet and the dot after it. -/
theorem Scanned.consume_octet {n : ℕ} (h : Scanned octets [] text st) (hs : IsOctet s n)
    (hcount : octets.length < 3) (rest : List UInt8) :
    ∃ st' text', consume scanChar st (s ++ Network.dot :: rest) = consume scanChar st' rest ∧
      Scanned (octets ++ [s]) [] text' st' := by
  obtain ⟨st', hrun, hread⟩ := h.consume_digits s hs.1.digits (by
    rw [List.nil_append, hs.1.value]
    exact hs.2)
  have hdot := hread.dot
  rw [List.nil_append, if_pos ⟨hs.1.ne_nil, hcount⟩] at hdot
  obtain ⟨st'', hstep, hnext⟩ := hdot
  exact ⟨st'', _, (consume_append hrun).trans (consume_cons hstep), hnext⟩

/-- The end of the text, after three dots and a digit. -/
theorem Scanned.scanEnd_eq (h : Scanned octets tail text st) :
    scanEnd st = if octets.length = 3 ∧ tail ≠ [] then
        .ok ⟨UInt32.ofNat (combine ((octets ++ [tail]).map decimalValue))⟩
      else .error ⟨"Malformed IPv4 input segment count"⟩ := by
  have hrefused : (st.octetsFound ≠ 3 ∨ st.readingDigit = false) ↔
      ¬ (octets.length = 3 ∧ tail ≠ []) := by
    rw [h.readingDigit_eq, h.octetsFound_eq, decide_eq_false_iff_not, not_and_or]
  unfold scanEnd
  by_cases hok : octets.length = 3 ∧ tail ≠ []
  · have hnat := toNat_shift_or h.result_lt h.currentOctet_le
    rw [if_pos hok, if_neg (not_not.mpr hok ∘ hrefused.mp)]
    refine congrArg (fun x => Except.ok (IPv4Address.mk x)) (UInt32.toNat_inj.mp ?_)
    rw [List.map_append, List.map_singleton, combine_concat, ← h.result_eq, ← h.currentOctet_eq,
      ← hnat, UInt32.ofNat_toNat]
  · rw [if_neg hok, if_pos (hrefused.mpr hok)]

theorem ofString_eq_scanEnd (h : consume scanChar scanStart text = .ok st) :
    ofString text = scanEnd st := by
  unfold ofString
  rw [h]
  rfl

/-- **Reading.** A dotted quad is read as the number of its octets. -/
theorem ofString_of_dottedQuad {a b c d : ℕ} (h : DottedQuad text a b c d) :
    ofString text = .ok ⟨UInt32.ofNat (combine [a, b, c, d])⟩ := by
  obtain ⟨sa, sb, sc, sd, ha, hb, hc, hd, rfl⟩ := h
  obtain ⟨s₁, t₁, hrun₁, h₁⟩ := scanned_start.consume_octet ha (by decide)
    (sb ++ Network.dot :: (sc ++ Network.dot :: sd))
  obtain ⟨s₂, t₂, hrun₂, h₂⟩ := h₁.consume_octet hb (Nat.succ_lt_succ (by decide))
    (sc ++ Network.dot :: sd)
  obtain ⟨s₃, t₃, hrun₃, h₃⟩ := h₂.consume_octet hc (by simp) sd
  obtain ⟨s₄, hrun₄, h₄⟩ := h₃.consume_digits sd hd.1.digits (by
    rw [List.nil_append, hd.1.value]
    exact hd.2)
  rw [ofString_eq_scanEnd (hrun₁.trans (hrun₂.trans (hrun₃.trans hrun₄))), h₄.scanEnd_eq,
    if_pos ⟨rfl, hd.1.ne_nil⟩]
  simp [ha.1.value, hb.1.value, hc.1.value, hd.1.value]

/-- What is read is a dotted quad. -/
theorem exists_dottedQuad {addr : IPv4Address} (h : ofString text = .ok addr) :
    ∃ a b c d, DottedQuad text a b c d := by
  cases hrun : consume scanChar scanStart text with
  | error e =>
      unfold ofString at h
      rw [hrun] at h
      nomatch h
  | ok st =>
      obtain ⟨octets, tail, hread⟩ := scanned_consume hrun
      rw [ofString_eq_scanEnd hrun, hread.scanEnd_eq] at h
      split_ifs at h with hok
      obtain ⟨sa, sb, sc, rfl⟩ := List.length_eq_three.mp hok.1
      refine ⟨_, _, _, _, sa, sb, sc, tail, hread.octets_wf sa (by simp),
        hread.octets_wf sb (by simp), hread.octets_wf sc (by simp),
        ⟨⟨hok.2, hread.digits, rfl⟩, hread.value_le⟩, ?_⟩
      simpa using hread.text_eq

theorem toNat_and_255 (x : UInt32) : (x &&& 255).toNat = x.toNat % 256 := by
  rw [UInt32.toNat_and]
  exact Nat.and_two_pow_sub_one_eq_mod x.toNat 8

theorem isOctet_decimal {n : ℕ} (h : n < 256) : IsOctet (decimal n) n :=
  ⟨isDecimal_decimal n, Nat.le_of_lt_succ h⟩

/-- **Printing.** An address is printed as the dotted quad of its four bytes. -/
theorem dottedQuad_toString (a : IPv4Address) :
    DottedQuad a.toString (a.toU32.toNat / 2 ^ 24 % 256) (a.toU32.toNat / 2 ^ 16 % 256)
      (a.toU32.toNat / 2 ^ 8 % 256) (a.toU32.toNat % 256) := by
  refine ⟨_, _, _, _, isOctet_decimal (Nat.mod_lt _ (by decide)),
    isOctet_decimal (Nat.mod_lt _ (by decide)), isOctet_decimal (Nat.mod_lt _ (by decide)),
    isOctet_decimal (Nat.mod_lt _ (by decide)), ?_⟩
  unfold toString
  rw [toNat_and_255, toNat_and_255, toNat_and_255, toNat_and_255]
  simp only [UInt32.toNat_shiftRight, Nat.shiftRight_eq_div_pow, UInt32.reduceToNat, Nat.reduceMod,
    List.append_assoc, List.cons_append, List.nil_append]

theorem ofString_toString (a : IPv4Address) : ofString a.toString = .ok a := by
  have hbound := a.toU32.toNat_lt
  have hcombine : combine [a.toU32.toNat / 2 ^ 24 % 256, a.toU32.toNat / 2 ^ 16 % 256,
      a.toU32.toNat / 2 ^ 8 % 256, a.toU32.toNat % 256] = a.toU32.toNat := by
    simp only [combine, List.foldl_cons, List.foldl_nil]
    omega
  rw [ofString_of_dottedQuad (dottedQuad_toString a), hcombine, UInt32.ofNat_toNat]

theorem combine_four (a b c d : ℕ) :
    combine [a, b, c, d] = a * 2 ^ 24 + b * 2 ^ 16 + c * 2 ^ 8 + d := by
  simp only [combine, List.foldl_cons, List.foldl_nil]
  omega

theorem ofString_quad {a b c d : ℕ} (h : DottedQuad text a b c d) :
    ofString text = .ok ⟨UInt32.ofNat (a * 2 ^ 24 + b * 2 ^ 16 + c * 2 ^ 8 + d)⟩ := by
  rw [← combine_four]
  exact ofString_of_dottedQuad h

/-- Four octets fit in a word. -/
theorem quad_lt {a b c d : ℕ} (h : DottedQuad text a b c d) :
    a * 2 ^ 24 + b * 2 ^ 16 + c * 2 ^ 8 + d < 2 ^ 32 := by
  obtain ⟨_, _, _, _, ha, hb, hc, hd, -⟩ := h
  have ha := ha.2
  have hb := hb.2
  have hc := hc.2
  have hd := hd.2
  omega

/-- **The notation.** Exactly the dotted quads are read, each as the big-endian
combination of its octets; no intermediate value of an octet overflows; and reading
inverts printing. -/
theorem ofString_dottedQuad (text : List UInt8) (addr : IPv4Address) :
    ((∃ a, ofString text = .ok a) ↔ ∃ a b c d, DottedQuad text a b c d) ∧
    (∀ a b c d, DottedQuad text a b c d →
      ofString text = .ok ⟨UInt32.ofNat (a * 2 ^ 24 + b * 2 ^ 16 + c * 2 ^ 8 + d)⟩ ∧
        a * 2 ^ 24 + b * 2 ^ 16 + c * 2 ^ 8 + d < 2 ^ 32) ∧
    (∀ before ch rest st, text = before ++ ch :: rest →
      consume scanChar scanStart before = .ok st → isDigit ch = true →
        st.currentOctet.toNat * 10 + (ch.toNat - 48) < 2 ^ 32) ∧
    ofString addr.toString = .ok addr ∧ Function.Injective toString := by
  refine ⟨⟨fun ⟨a, h⟩ => exists_dottedQuad h, ?_⟩, fun a b c d h => ⟨ofString_quad h, quad_lt h⟩,
    ?_, ofString_toString addr, ?_⟩
  · rintro ⟨a, b, c, d, h⟩
    exact ⟨_, ofString_of_dottedQuad h⟩
  · intro before ch rest st _ hrun hdigit
    obtain ⟨octets, tail, hread⟩ := scanned_consume hrun
    have hcurrent := hread.currentOctet_le
    have hhigh := (isDigit_iff.mp hdigit).2
    omega
  · intro a a' h
    have hread := ofString_toString a
    rw [h, ofString_toString a'] at hread
    exact (Except.ok.inj hread).symm

end IPv4Address

/-- `SubnetMask(std::string_view)`. -/
def SubnetMask.ofString (maskStr : List UInt8) : Except InvalidArgument SubnetMask := do
  let parsedIp ← IPv4Address.ofString maskStr
  let mask := parsedIp.toU32
  if mask ≠ 0 then
    let inverted := ~~~mask
    if (inverted &&& (inverted + 1)) ≠ 0 then
      .error ⟨"Invalid subnet configuration: non-contiguous bits detected"⟩
    else .ok ⟨mask⟩
  else .ok ⟨mask⟩

end Netsim.Network
