import Mathlib.Data.List.Basic

/-!
# JSON strings

The grammar of a string by RFC 8259, section 7, over code points, with the UTF-16 code
units that it denotes. A text denotes at most one string, and none of its characters is
a control character.
-/

namespace Foundation

/-- `unescaped = %x20-21 / %x23-5B / %x5D-10FFFF` -/
def JsonUnescaped (c : ℕ) : Prop :=
  (0x20 ≤ c ∧ c ≤ 0x21) ∨ (0x23 ≤ c ∧ c ≤ 0x5B) ∨ (0x5D ≤ c ∧ c ≤ 0x10FFFF)

/-- What a reverse solidus and the character `c` stand for, other than `u`. -/
def jsonEscape (c : ℕ) : Option ℕ :=
  match c with
  | 0x22 => some 0x22
  | 0x5C => some 0x5C
  | 0x2F => some 0x2F
  | 0x62 => some 0x08
  | 0x66 => some 0x0C
  | 0x6E => some 0x0A
  | 0x72 => some 0x0D
  | 0x74 => some 0x09
  | _ => none

def hexDigit (c : ℕ) : Option ℕ :=
  if 0x30 ≤ c ∧ c ≤ 0x39 then some (c - 0x30)
  else if 0x41 ≤ c ∧ c ≤ 0x46 then some (c - 0x41 + 10)
  else if 0x61 ≤ c ∧ c ≤ 0x66 then some (c - 0x61 + 10)
  else none

/-- The code units of a code point. -/
def utf16 (c : ℕ) : List ℕ :=
  if c < 0x10000 then [c]
  else [0xD800 + (c - 0x10000) / 0x400, 0xDC00 + (c - 0x10000) % 0x400]

/-- The characters between the quotation marks, and the code units they denote. -/
inductive JsonBody : List ℕ → List ℕ → Prop where
  | nil : JsonBody [] []
  | unescaped {c : ℕ} {text value : List ℕ} : JsonUnescaped c → JsonBody text value →
      JsonBody (c :: text) (utf16 c ++ value)
  | escaped {c u : ℕ} {text value : List ℕ} : jsonEscape c = some u → JsonBody text value →
      JsonBody (0x5C :: c :: text) (u :: value)
  | unicode {a b c d p q r s : ℕ} {text value : List ℕ} : hexDigit a = some p →
      hexDigit b = some q → hexDigit c = some r → hexDigit d = some s → JsonBody text value →
      JsonBody (0x5C :: 0x75 :: a :: b :: c :: d :: text)
        ((((p * 16 + q) * 16 + r) * 16 + s) :: value)

/-- `string = quotation-mark *char quotation-mark` -/
def JsonString (text value : List ℕ) : Prop :=
  ∃ body, text = 0x22 :: (body ++ [0x22]) ∧ JsonBody body value

variable {c u : ℕ} {text text' value value' : List ℕ}

theorem JsonUnescaped.ge (h : JsonUnescaped c) : 0x20 ≤ c := by
  unfold JsonUnescaped at h
  omega

theorem JsonUnescaped.ne_reverseSolidus (h : JsonUnescaped c) : c ≠ 0x5C := by
  unfold JsonUnescaped at h
  omega

theorem ge_of_jsonEscape (h : jsonEscape c = some u) : 0x20 ≤ c := by
  by_contra hlt
  rw [Nat.not_le] at hlt
  unfold jsonEscape at h
  split at h <;> first | omega | cases h

theorem ge_of_hexDigit (h : hexDigit c = some u) : 0x20 ≤ c := by
  unfold hexDigit at h
  split_ifs at h <;> omega

namespace JsonBody

theorem append (h : JsonBody text value) (h' : JsonBody text' value') :
    JsonBody (text ++ text') (value ++ value') := by
  induction h with
  | nil => exact h'
  | unescaped hc _ ih =>
      rw [List.append_assoc]
      exact unescaped hc ih
  | escaped hc _ ih => exact escaped hc ih
  | unicode ha hb hc hd _ ih => exact unicode ha hb hc hd ih

theorem not_control (h : JsonBody text value) : ∀ c ∈ text, 0x20 ≤ c := by
  induction h with
  | nil => simp
  | unescaped hc _ ih => exact List.forall_mem_cons.mpr ⟨hc.ge, ih⟩
  | escaped hc _ ih =>
      simp only [List.forall_mem_cons]
      exact ⟨by decide, ge_of_jsonEscape hc, ih⟩
  | unicode ha hb hc hd _ ih =>
      simp only [List.forall_mem_cons]
      exact ⟨by decide, by decide, ge_of_hexDigit ha, ge_of_hexDigit hb, ge_of_hexDigit hc,
        ge_of_hexDigit hd, ih⟩

/-- The first characters tell which rule applies. -/
theorem unique (h : JsonBody text value) : ∀ {value'}, JsonBody text value' → value = value' := by
  induction h with
  | nil =>
      rintro _ ⟨⟩
      rfl
  | unescaped hc _ ih =>
      intro value' h'
      cases h' with
      | unescaped _ hrest => rw [ih hrest]
      | escaped => exact absurd rfl hc.ne_reverseSolidus
      | unicode => exact absurd rfl hc.ne_reverseSolidus
  | escaped hc _ ih =>
      intro value' h'
      cases h' with
      | unescaped hc' => exact absurd rfl hc'.ne_reverseSolidus
      | escaped hc' hrest =>
          obtain rfl := Option.some.inj (hc.symm.trans hc')
          rw [ih hrest]
      | unicode => exact nomatch hc
  | unicode ha hb hc hd _ ih =>
      intro value' h'
      cases h' with
      | unescaped hc' => exact absurd rfl hc'.ne_reverseSolidus
      | escaped hc' => exact nomatch hc'
      | unicode ha' hb' hc' hd' hrest =>
          obtain rfl := Option.some.inj (ha.symm.trans ha')
          obtain rfl := Option.some.inj (hb.symm.trans hb')
          obtain rfl := Option.some.inj (hc.symm.trans hc')
          obtain rfl := Option.some.inj (hd.symm.trans hd')
          rw [ih hrest]

end JsonBody

theorem jsonString_iff {body : List ℕ} :
    JsonString (0x22 :: (body ++ [0x22])) value ↔ JsonBody body value := by
  constructor
  · rintro ⟨body', heq, hbody⟩
    obtain rfl : body = body' := List.append_cancel_right (List.cons.inj heq).2
    exact hbody
  · intro hbody
    exact ⟨body, rfl, hbody⟩

end Foundation
