import Netsim.Foundation.JsonString
import Netsim.System.TelemetryHttpClient

/-!
# The strings of the JSON text

`escape_json` escapes the reverse solidus, the quotation mark and three control characters,
and writes every other character as it is. The other control characters may not stand in a
JSON string unescaped.
-/

namespace Netsim.System.TelemetryHttp

open Foundation Netsim.Protocols

variable {b : UInt8} {s : Bytes}

/-- The code points of a text in ASCII, which is its own encoding in UTF-8. -/
def codes (s : Bytes) : List ℕ := s.map UInt8.toNat

/-- The control characters that `escape_json` leaves alone. -/
def RawControl (b : UInt8) : Prop := b < 32 ∧ b ≠ lf ∧ b ≠ cr ∧ b ≠ tab

/-- The text is in ASCII, and as a JSON string it denotes `s` and nothing else. -/
def DecodesTo (text s : Bytes) : Prop :=
  (∀ b ∈ text, b < 128) ∧ ∀ value, JsonString (codes text) value ↔ value = codes s

theorem escapeChar_lt (hb : b < 128) : ∀ c ∈ escapeChar b, c < 128 := by
  unfold escapeChar
  split_ifs
  iterate 5 decide
  simpa using hb

theorem jsonBody_escapeChar (hb : b < 128) (hraw : ¬ RawControl b) :
    JsonBody (codes (escapeChar b)) [b.toNat] := by
  unfold escapeChar
  split_ifs with hsolidus hquote hlf hcr htab
  iterate 5
    subst b
    exact JsonBody.escaped rfl JsonBody.nil
  have hlow : 32 ≤ b.toNat := by
    rw [← Nat.not_lt]
    exact fun hlt => hraw ⟨UInt8.lt_iff_toNat_lt.mpr hlt, hlf, hcr, htab⟩
  have hhigh : b.toNat < 128 := UInt8.lt_iff_toNat_lt.mp hb
  have hne : b.toNat ≠ 92 ∧ b.toNat ≠ 34 :=
    ⟨fun heq => hsolidus (UInt8.toNat_inj.mp heq), fun heq => hquote (UInt8.toNat_inj.mp heq)⟩
  have hunescaped : JsonUnescaped b.toNat := by
    unfold JsonUnescaped
    omega
  have hbody := JsonBody.unescaped hunescaped JsonBody.nil
  rw [utf16, if_pos (Nat.lt_trans hhigh (by decide))] at hbody
  exact hbody

theorem codes_escapeJson_cons (b : UInt8) (s : Bytes) :
    codes (escapeJson (b :: s)) = codes (escapeChar b) ++ codes (escapeJson s) := by
  rw [escapeJson, List.flatMap_cons, codes, List.map_append]
  rfl

theorem jsonBody_escapeJson (hascii : ∀ b ∈ s, b < 128) (hraw : ∀ b ∈ s, ¬ RawControl b) :
    JsonBody (codes (escapeJson s)) (codes s) := by
  induction s with
  | nil => exact JsonBody.nil
  | cons b s ih =>
      obtain ⟨hb, hs⟩ := List.forall_mem_cons.mp hascii
      obtain ⟨hrawb, hraws⟩ := List.forall_mem_cons.mp hraw
      rw [codes_escapeJson_cons]
      exact (jsonBody_escapeChar hb hrawb).append (ih hs hraws)

theorem codes_quoted (s : Bytes) :
    codes (quoted s) = 0x22 :: (codes (escapeJson s) ++ [0x22]) := by
  rw [codes, quoted, List.cons_append, List.map_cons, List.map_append]
  rfl

theorem quoted_lt (hascii : ∀ b ∈ s, b < 128) : ∀ b ∈ quoted s, b < 128 := by
  intro b hb
  rw [quoted, List.cons_append, List.mem_cons, List.mem_append, List.mem_singleton] at hb
  rcases hb with rfl | hb | rfl
  · decide
  · obtain ⟨c, hc, hbc⟩ := List.mem_flatMap.mp hb
    exact escapeChar_lt (hascii c hc) b hbc
  · decide

/-- A control character that is written as it is spoils the text. -/
theorem not_jsonString_of_raw (hb : b ∈ s) (hraw : RawControl b) (value : List ℕ) :
    ¬ JsonString (codes (quoted s)) value := by
  intro hstring
  rw [codes_quoted, jsonString_iff] at hstring
  have hchar : escapeChar b = [b] := by
    unfold escapeChar
    obtain ⟨hlow, hlf, hcr, htab⟩ := hraw
    have hsolidus : b ≠ reverseSolidus := fun heq => absurd hlow (by rw [heq]; decide)
    have hquote : b ≠ quotationMark := fun heq => absurd hlow (by rw [heq]; decide)
    rw [if_neg hsolidus, if_neg hquote, if_neg hlf, if_neg hcr, if_neg htab]
  have hmem : b ∈ escapeJson s :=
    List.mem_flatMap.mpr ⟨b, hb, by rw [hchar]; exact List.mem_singleton_self b⟩
  have hge := hstring.not_control b.toNat (List.mem_map_of_mem hmem)
  exact absurd (UInt8.lt_iff_toNat_lt.mp hraw.1) (Nat.not_lt.mpr hge)

/-- **When a string survives its encoding.** A string of ASCII characters is encoded as a
JSON string that denotes it just when its control characters are among the three that
`escape_json` knows. -/
theorem quoted_decodesTo_iff (s : Bytes) (hascii : ∀ b ∈ s, b < 128) :
    DecodesTo (quoted s) s ↔ ∀ b ∈ s, ¬ RawControl b := by
  constructor
  · intro hdecodes b hb hraw
    exact not_jsonString_of_raw hb hraw _ ((hdecodes.2 _).mpr rfl)
  · intro hraw
    have hbody := jsonBody_escapeJson hascii hraw
    refine ⟨quoted_lt hascii, fun value => ?_⟩
    rw [codes_quoted, jsonString_iff]
    constructor
    · exact fun hvalue => hvalue.unique hbody
    · rintro rfl
      exact hbody

/-- `a`, a line feed and a quotation mark. -/
theorem quoted_decodesTo_iff_line :
    DecodesTo (quoted [97, 10, 34]) [97, 10, 34] ↔ ∀ b ∈ ([97, 10, 34] : Bytes), ¬ RawControl b :=
  quoted_decodesTo_iff [97, 10, 34] (by decide)

/-- The control character 1 is written as it is. -/
theorem not_quoted_decodesTo : ¬ DecodesTo (quoted [1]) [1] := by
  intro hdecodes
  have hraw : RawControl 1 := ⟨by decide, by decide, by decide, by decide⟩
  exact not_jsonString_of_raw (List.mem_singleton_self 1) hraw _ ((hdecodes.2 _).mpr rfl)

end Netsim.System.TelemetryHttp
