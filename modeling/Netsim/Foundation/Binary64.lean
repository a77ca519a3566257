import Mathlib.Data.Rat.Lemmas
import Mathlib.Data.Nat.Sqrt

/-!
# Binary64 arithmetic

IEEE 754 doubles, rounded to nearest with ties to even. A double is its sign and the
63 bits below it; the bits of a finite one, read as a number, grow with its magnitude.
Every finite magnitude is a whole number of units of `2^-1074`, so sums and products
of finite doubles are computed exactly and then rounded once.
-/

namespace Foundation

/-- The sign, and the exponent field followed by the fraction. -/
structure Binary64 where
  negative : Bool
  code : Fin (2 ^ 63)
deriving DecidableEq, Repr

namespace Binary64

/-- The code of infinity; the greater ones are those of NaN. -/
def infinityCode : ℕ := 2047 * 2 ^ 52

def nan : Binary64 := ⟨false, ⟨infinityCode + 2 ^ 51, by decide⟩⟩

def infinity (negative : Bool) : Binary64 := ⟨negative, ⟨infinityCode, by decide⟩⟩

def isNaN (x : Binary64) : Bool := decide (infinityCode < x.code.val)

def isInfinite (x : Binary64) : Bool := decide (x.code.val = infinityCode)

def isFinite (x : Binary64) : Bool := decide (x.code.val < infinityCode)

/-- The magnitude of a finite double in units of `2^-1074`. -/
def units (x : Binary64) : ℕ :=
  let exponent := x.code.val / 2 ^ 52
  let fraction := x.code.val % 2 ^ 52
  if exponent = 0 then fraction else (2 ^ 52 + fraction) * 2 ^ (exponent - 1)

def signedUnits (x : Binary64) : ℤ := if x.negative then -x.units else x.units

def isZero (x : Binary64) : Bool := decide (x.code.val = 0)

/-- The value of a finite double. -/
def toRat (x : Binary64) : ℚ := x.signedUnits / 2 ^ 1074

/-! ### Rounding -/

/-- `n / d` to the nearest whole number, ties to even. -/
def roundHalfEven (n d : ℕ) : ℕ :=
  let quotient := n / d
  let rest := n % d
  if 2 * rest < d then quotient
  else if d < 2 * rest then quotient + 1
  else quotient + quotient % 2

/-- The double of magnitude `n / d` units. A carry out of the significand goes into the
exponent by itself, and out of the exponent into infinity. -/
def ofUnits (negative : Bool) (n d : ℕ) : Binary64 :=
  let shift := Nat.log2 (n / d) - 52
  let code := shift * 2 ^ 52 + roundHalfEven n (d * 2 ^ shift)
  if h : code < infinityCode then ⟨negative, ⟨code, Nat.lt_trans h (by decide)⟩⟩
  else infinity negative

/-- The double nearest to a rational number. -/
def ofRat (q : ℚ) : Binary64 := ofUnits (decide (q < 0)) (q.num.natAbs * 2 ^ 1074) q.den

def ofInt (n : ℤ) : Binary64 := ofUnits (decide (n < 0)) (n.natAbs * 2 ^ 1074) 1

/-- `static_cast<double>` of an unsigned word. -/
def ofUInt64 (n : UInt64) : Binary64 := ofInt n.toNat

/-! ### Operations -/

def neg (x : Binary64) : Binary64 := { x with negative := !x.negative }

def abs (x : Binary64) : Binary64 := { x with negative := false }

def add (x y : Binary64) : Binary64 :=
  if x.isNaN || y.isNaN then nan
  else if x.isInfinite then
    if y.isInfinite && x.negative != y.negative then nan else x
  else if y.isInfinite then y
  else
    let sum := x.signedUnits + y.signedUnits
    -- an exact zero is positive, unless both are negative zeros
    if sum = 0 then ofUnits (x.negative && y.negative) 0 1
    else ofUnits (decide (sum < 0)) sum.natAbs 1

def sub (x y : Binary64) : Binary64 := if y.isNaN then nan else add x y.neg

def mul (x y : Binary64) : Binary64 :=
  let negative := x.negative != y.negative
  if x.isNaN || y.isNaN then nan
  else if x.isInfinite || y.isInfinite then
    if x.isZero || y.isZero then nan else infinity negative
  else ofUnits negative (x.units * y.units) (2 ^ 1074)

def div (x y : Binary64) : Binary64 :=
  let negative := x.negative != y.negative
  if x.isNaN || y.isNaN then nan
  else if x.isInfinite then
    if y.isInfinite then nan else infinity negative
  else if y.isInfinite then ofUnits negative 0 1
  else if y.isZero then
    if x.isZero then nan else infinity negative
  else ofUnits negative (x.units * 2 ^ 1074) y.units

/-- The square root of a double that is not negative. A root never lies half-way
between two doubles. -/
def sqrt (x : Binary64) : Binary64 :=
  if x.isNaN || x.isInfinite || x.isZero then x
  else if x.negative then nan
  else
    -- the root in units of `2^-1175`: more than 53 bits of it
    let radicand := x.units * 2 ^ 1276
    let root := Nat.sqrt radicand
    -- one more bit tells a root that is not whole from the number below it
    ofUnits false (2 * root + if root * root = radicand then 0 else 1) (2 ^ 102)

/-- A comparison with NaN is false. -/
def lt (x y : Binary64) : Bool :=
  if x.isNaN || y.isNaN then false
  else
    let signed (z : Binary64) : ℤ := if z.negative then -z.code.val else z.code.val
    decide (signed x < signed y)

def le (x y : Binary64) : Bool :=
  if x.isNaN || y.isNaN then false else !lt y x

/-- The notation with one digit after the point, as `printf` gives it. -/
def fixed1 (x : Binary64) : String :=
  let sign := if x.negative then "-" else ""
  if x.isNaN then "nan"
  else if x.isInfinite then sign ++ "inf"
  else
    let tenths := roundHalfEven (x.units * 10) (2 ^ 1074)
    sign ++ toString (tenths / 10) ++ "." ++ toString (tenths % 10)

/-! ### Exact results -/

theorem roundHalfEven_mul (n d : ℕ) {k : ℕ} (hk : 0 < k) :
    roundHalfEven (n * k) (d * k) = roundHalfEven n d := by
  have hlt (a b : ℕ) : a * k < b * k ↔ a < b := Nat.mul_lt_mul_right hk
  unfold roundHalfEven
  simp only [Nat.mul_div_mul_right n d hk, Nat.mul_mod_mul_right, ← Nat.mul_assoc, hlt]

theorem roundHalfEven_of_dvd (q : ℕ) {d : ℕ} (hd : 0 < d) : roundHalfEven (q * d) d = q := by
  simp [roundHalfEven, Nat.mul_div_cancel q hd, hd]

/-- Only the ratio of `n` and `d` counts. -/
theorem ofUnits_mul (negative : Bool) (n d : ℕ) {k : ℕ} (hk : 0 < k) :
    ofUnits negative (n * k) (d * k) = ofUnits negative n d := by
  have hround (e : ℕ) : roundHalfEven (n * k) (d * k * e) = roundHalfEven n (d * e) := by
    rw [Nat.mul_right_comm, roundHalfEven_mul n (d * e) hk]
  unfold ofUnits
  simp only [Nat.mul_div_mul_right n d hk, hround]

/-- A magnitude of 53 significant bits, below infinity, is a double. -/
theorem code_ofUnits (negative : Bool) {q e : ℕ} (hlo : 2 ^ 52 ≤ q) (hhi : q < 2 ^ 53)
    (he : e < 2046) : (ofUnits negative (q * 2 ^ e) 1).code.val = e * 2 ^ 52 + q := by
  have hlog : Nat.log2 (q * 2 ^ e / 1) = 52 + e := by
    have hpos : 0 < 2 ^ e := Nat.two_pow_pos e
    have hq : q ≠ 0 := (Nat.lt_of_lt_of_le (Nat.two_pow_pos 52) hlo).ne'
    rw [Nat.div_one, Nat.log2_eq_iff (Nat.mul_ne_zero hq hpos.ne'), Nat.pow_add,
      Nat.add_right_comm, Nat.pow_add]
    exact ⟨Nat.mul_le_mul_right _ hlo, Nat.mul_lt_mul_of_pos_right hhi hpos⟩
  have hcode : e * 2 ^ 52 + q < infinityCode := by
    unfold infinityCode
    omega
  unfold ofUnits
  simp only [hlog, Nat.add_sub_cancel_left, Nat.one_mul, roundHalfEven_of_dvd q (Nat.two_pow_pos e),
    dif_pos hcode]

theorem units_ofUnits (negative : Bool) {q e : ℕ} (hlo : 2 ^ 52 ≤ q) (hhi : q < 2 ^ 53)
    (he : e < 2046) : (ofUnits negative (q * 2 ^ e) 1).units = q * 2 ^ e := by
  have hexponent : (e * 2 ^ 52 + q) / 2 ^ 52 = e + 1 := by omega
  have hfraction : (e * 2 ^ 52 + q) % 2 ^ 52 = q - 2 ^ 52 := by omega
  unfold units
  rw [code_ofUnits negative hlo hhi he]
  simp only [hexponent, hfraction, Nat.add_sub_cancel, Nat.add_sub_cancel' hlo,
    if_neg (Nat.succ_ne_zero e)]

/-- A positive whole number up to `2^53` has 53 significant bits, the last ones zero. -/
theorem exists_significand {n : ℕ} (hpos : 0 < n) (hn : n ≤ 2 ^ 53) :
    ∃ q e, 2 ^ 52 ≤ q ∧ q < 2 ^ 53 ∧ e < 2046 ∧ n * 2 ^ 1074 = q * 2 ^ e := by
  rcases Nat.lt_or_eq_of_le hn with hlt | rfl
  · have hlog : Nat.log2 n < 53 := (Nat.log2_lt hpos.ne').mpr hlt
    obtain ⟨hlo, hhi⟩ := (Nat.log2_eq_iff hpos.ne').mp rfl
    obtain ⟨rest, hrest⟩ : ∃ rest, 52 = Nat.log2 n + rest := ⟨52 - Nat.log2 n, by omega⟩
    refine ⟨n * 2 ^ rest, 1074 - rest, ?_, ?_, by omega, ?_⟩
    · rw [hrest, Nat.pow_add]
      exact Nat.mul_le_mul_right _ hlo
    · rw [show 53 = Nat.log2 n + 1 + rest by omega, Nat.pow_add]
      exact Nat.mul_lt_mul_of_pos_right hhi (Nat.two_pow_pos rest)
    · rw [Nat.mul_assoc, ← Nat.pow_add, Nat.add_sub_cancel' (by omega)]
  · have hcarry (e : ℕ) : 2 ^ 53 * 2 ^ e = 2 ^ 52 * 2 ^ (e + 1) := by
      rw [Nat.pow_succ 2 e]
      omega
    exact ⟨2 ^ 52, 1074 + 1, Nat.le_refl _, by decide, by decide, hcarry 1074⟩

theorem ofInt_natCast (n : ℕ) : ofInt n = ofUnits false (n * 2 ^ 1074) 1 := by
  have hneg : ¬(n : ℤ) < 0 := Int.not_lt.mpr (Int.natCast_nonneg n)
  unfold ofInt
  rw [Int.natAbs_natCast, decide_eq_false hneg]

theorem ofRat_zero : ofRat 0 = ofInt 0 := by decide +kernel

theorem negative_ofUnits (negative : Bool) (n d : ℕ) :
    (ofUnits negative n d).negative = negative :=
  (apply_dite Binary64.negative _ _ _).trans (dite_eq_ite.trans (ite_self _))

/-- A whole number up to `2^53` is a double. -/
theorem ofInt_exact {n : ℕ} (hn : n ≤ 2 ^ 53) :
    (ofInt n).negative = false ∧ (ofInt n).code.val < infinityCode ∧
      (ofInt n).units = n * 2 ^ 1074 := by
  rw [ofInt_natCast]
  rcases Nat.eq_zero_or_pos n with rfl | hpos
  · rw [Nat.zero_mul]
    exact ⟨rfl, by decide, rfl⟩
  · obtain ⟨q, e, hlo, hhi, he, heq⟩ := exists_significand hpos hn
    have hcode := code_ofUnits false hlo hhi he
    rw [heq]
    refine ⟨negative_ofUnits _ _ _, ?_, units_ofUnits false hlo hhi he⟩
    rw [hcode, infinityCode]
    omega

theorem ofRat_natCast_div (n : ℕ) {m : ℕ} (hpos : 0 < m) :
    ofRat (n / m) = ofUnits false (n * 2 ^ 1074) m := by
  obtain ⟨g, hnum, hden⟩ :=
    Rat.exists_eq_mul_div_num_and_eq_mul_div_den (n : ℤ) (Int.natCast_ne_zero.mpr hpos.ne')
  simp only [Int.cast_natCast] at hnum hden
  have hn : n = ((n : ℚ) / m).num.natAbs * g.natAbs := by
    rw [Nat.mul_comm, ← Int.natAbs_mul, ← hnum, Int.natAbs_natCast]
  have hm : m = ((n : ℚ) / m).den * g.natAbs := by
    rw [Nat.mul_comm, ← Int.natAbs_natCast ((n : ℚ) / m).den, ← Int.natAbs_mul, ← hden,
      Int.natAbs_natCast]
  have hg : 0 < g.natAbs := Nat.pos_of_mul_pos_left (hm ▸ hpos)
  have hneg : ¬(n : ℚ) / m < 0 := by
    rw [Rat.natCast_div_eq_divInt, Rat.not_lt]
    exact Rat.divInt_nonneg (Int.natCast_nonneg n) (Int.natCast_nonneg m)
  calc ofRat (n / m)
      = ofUnits false (((n : ℚ) / m).num.natAbs * 2 ^ 1074) ((n : ℚ) / m).den := by
        rw [ofRat, decide_eq_false hneg]
    _ = ofUnits false (((n : ℚ) / m).num.natAbs * 2 ^ 1074 * g.natAbs)
          (((n : ℚ) / m).den * g.natAbs) := (ofUnits_mul false _ _ hg).symm
    _ = ofUnits false (n * 2 ^ 1074) m := by rw [Nat.mul_right_comm, ← hn, ← hm]

/-- **Division is correctly rounded.** The quotient of whole numbers up to `2^53` is the
double nearest to their ratio. -/
theorem div_ofInt {n m : ℕ} (hn : n ≤ 2 ^ 53) (hm : m ≤ 2 ^ 53) (hpos : 0 < m) :
    div (ofInt n) (ofInt m) = ofRat (n / m) := by
  obtain ⟨hsign, hfinite, hunits⟩ := ofInt_exact hn
  obtain ⟨hsign', hfinite', hunits'⟩ := ofInt_exact hm
  have hscale (e : ℕ) : m * 2 ^ e ≠ 0 := Nat.mul_ne_zero hpos.ne' (Nat.two_pow_pos e).ne'
  have hzero : (ofInt m).code.val ≠ 0 := by
    intro h
    have hu : (ofInt m).units = 0 := by simp [units, h]
    exact hscale 1074 (hunits'.symm.trans hu)
  rw [ofRat_natCast_div n hpos, ← ofUnits_mul false (n * 2 ^ 1074) m (Nat.two_pow_pos 1074)]
  simp [-Nat.reducePow, div, isNaN, isInfinite, isZero, hsign, hsign', hunits, hunits', hzero,
    hfinite.ne, hfinite'.ne, hfinite.not_gt, hfinite'.not_gt]

example : (div (ofInt 1) (ofInt 4)).toRat = 1 / 4 := by decide +kernel

example : ((mul (ofInt (2 ^ 53 + 1)) (ofInt 1)).toRat, (ofInt (2 ^ 1024)).isInfinite) =
    (2 ^ 53, true) := by decide +kernel

end Binary64

end Foundation
