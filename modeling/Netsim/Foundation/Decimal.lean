import Mathlib.Data.List.Induction
import Mathlib.Data.Nat.Digits.Defs

/-!
# Decimal numerals as byte strings

The digit bytes, the value of a digit string read left to right, and the
numeral of a natural number, which reading inverts.
-/

namespace Foundation

/-- `'0'` to `'9'`. -/
def isDigit (b : UInt8) : Bool := decide (48 ≤ b) && decide (b ≤ 57)

def decimalValue (s : List UInt8) : ℕ :=
  s.foldl (fun acc b => acc * 10 + (b.toNat - 48)) 0

/-- The numeral of `n`, without leading zeros. -/
def decimal (n : ℕ) : List UInt8 :=
  if n = 0 then [48] else (Nat.digits 10 n).reverse.map fun d => UInt8.ofNat (48 + d)

/-- A non-empty digit string that denotes `n`. -/
structure IsDecimal (s : List UInt8) (n : ℕ) : Prop where
  ne_nil : s ≠ []
  digits : ∀ b ∈ s, isDigit b = true
  value : decimalValue s = n

theorem isDigit_iff {b : UInt8} : isDigit b = true ↔ 48 ≤ b.toNat ∧ b.toNat ≤ 57 := by
  unfold isDigit
  rw [Bool.and_eq_true, decide_eq_true_eq, decide_eq_true_eq, UInt8.le_iff_toNat_le,
    UInt8.le_iff_toNat_le]
  rfl

theorem decimalValue_lt {s : List UInt8} (h : ∀ b ∈ s, isDigit b = true) :
    decimalValue s < 10 ^ s.length := by
  induction s using List.reverseRecOn with
  | nil => exact Nat.one_pos
  | append_singleton s b ih =>
      have hs := ih fun c hc => h c (List.mem_append_left [b] hc)
      have hb := isDigit_iff.mp (h b (List.mem_append_right s (List.mem_singleton_self b)))
      unfold decimalValue at hs ⊢
      rw [List.foldl_append, List.foldl_cons, List.foldl_nil, List.length_append,
        List.length_singleton, Nat.pow_succ]
      omega

theorem toNat_digit {d : ℕ} (hd : d < 10) : (UInt8.ofNat (48 + d)).toNat = 48 + d :=
  UInt8.toNat_ofNat_of_lt' (by
    show 48 + d < 256
    omega)

theorem decimalValue_digits (l : List ℕ) (hl : ∀ d ∈ l, d < 10) :
    decimalValue (l.reverse.map fun d => UInt8.ofNat (48 + d)) = Nat.ofDigits 10 l := by
  unfold decimalValue
  rw [List.foldl_map, List.foldl_reverse]
  induction l with
  | nil => rfl
  | cons d l ih =>
      rw [List.foldr_cons, ih fun x hx => hl x (List.mem_cons_of_mem _ hx),
        toNat_digit (hl d List.mem_cons_self), Nat.ofDigits_cons]
      omega

/-- Reading inverts printing. -/
theorem isDecimal_decimal (n : ℕ) : IsDecimal (decimal n) n := by
  by_cases hn : n = 0
  · subst hn
    have hdec : decimal 0 = [48] := if_pos rfl
    rw [hdec]
    refine ⟨List.cons_ne_nil 48 [], fun b hb => ?_, rfl⟩
    obtain rfl := List.mem_singleton.mp hb
    rfl
  · have hlt : ∀ d ∈ Nat.digits 10 n, d < 10 :=
      fun d hd => Nat.digits_lt_base (by decide) hd
    have hdec : decimal n = (Nat.digits 10 n).reverse.map fun d => UInt8.ofNat (48 + d) :=
      if_neg hn
    refine ⟨?_, ?_, ?_⟩
    · rw [hdec]
      simpa [Nat.digits_eq_nil_iff_eq_zero] using hn
    · intro b hb
      rw [hdec] at hb
      obtain ⟨d, hd, rfl⟩ := List.mem_map.mp hb
      have hd10 := hlt d (List.mem_reverse.mp hd)
      rw [isDigit_iff, toNat_digit hd10]
      omega
    · rw [hdec, decimalValue_digits _ hlt, Nat.ofDigits_digits]

end Foundation
