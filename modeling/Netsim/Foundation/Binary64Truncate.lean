import Netsim.Foundation.Binary64

/-!
# Doubles to whole numbers

`static_cast<uint64_t>` of a double drops the fraction. The quotient of two whole
numbers of 53 bits, rounded and then truncated, is their integer quotient
(`truncate_div_ofInt`): rounding never carries a quotient up to the next whole number,
because the distance to it is at least one part in the divisor.
-/

namespace Foundation

namespace Binary64

/-- `static_cast<uint64_t>`, which is undefined when the whole part is out of range. -/
def truncate (x : Binary64) : Option UInt64 :=
  let whole := x.units / 2 ^ 1074
  if x.isFinite = true ∧ whole < 2 ^ 64 ∧ (x.negative = false ∨ whole = 0) then
    some (UInt64.ofNat whole)
  else none

/-! ### The error of rounding -/

theorem div_le_roundHalfEven (n d : ℕ) : n / d ≤ roundHalfEven n d := by
  unfold roundHalfEven
  dsimp only
  split_ifs <;> omega

theorem roundHalfEven_le (n d : ℕ) : roundHalfEven n d ≤ n / d + 1 := by
  unfold roundHalfEven
  dsimp only
  split_ifs <;> omega

/-- Rounding adds at most one half. -/
theorem two_mul_roundHalfEven_le (n d : ℕ) :
    2 * (d * roundHalfEven n d) ≤ 2 * n + d := by
  have hdiv : d * (n / d) + n % d = n := Nat.div_add_mod n d
  unfold roundHalfEven
  dsimp only
  split_ifs with hdown hup
  · omega
  · rw [Nat.mul_add, Nat.mul_one]
    omega
  · -- a tie
    have hparity : n / d % 2 ≤ 1 := by omega
    have hcarry : d * (n / d % 2) ≤ d * 1 := Nat.mul_le_mul_left d hparity
    rw [Nat.mul_add]
    omega

/-- A significand of 53 bits, or the carry out of one. -/
theorem units_of_code {x : Binary64} {m shift : ℕ} (hlo : 2 ^ 52 ≤ m) (hhi : m ≤ 2 ^ 53)
    (hcode : x.code.val = shift * 2 ^ 52 + m) : x.units = m * 2 ^ shift := by
  unfold units
  rw [hcode]
  rcases Nat.lt_or_eq_of_le hhi with hlt | rfl
  · have hexponent : (shift * 2 ^ 52 + m) / 2 ^ 52 = shift + 1 := by omega
    have hfraction : (shift * 2 ^ 52 + m) % 2 ^ 52 = m - 2 ^ 52 := by omega
    simp only [hexponent, hfraction, Nat.add_sub_cancel, Nat.add_sub_cancel' hlo,
      if_neg (Nat.succ_ne_zero shift)]
  · have hexponent : (shift * 2 ^ 52 + 2 ^ 53) / 2 ^ 52 = shift + 2 := by omega
    have hfraction : (shift * 2 ^ 52 + 2 ^ 53) % 2 ^ 52 = 0 := by omega
    have hcarry : 2 ^ 52 * 2 ^ (shift + 1) = 2 ^ 53 * 2 ^ shift := by
      rw [Nat.pow_succ 2 shift]
      omega
    simp only [hexponent, hfraction, Nat.add_zero, if_neg (Nat.succ_ne_zero (shift + 1))]
    exact hcarry

/-- The magnitude of a quotient in the normal range, after rounding. -/
theorem units_ofUnits_div (negative : Bool) {n d shift : ℕ} (hlog : Nat.log2 (n / d) = 52 + shift)
    (hshift : shift < 2045) :
    (ofUnits negative n d).isFinite = true ∧
      (ofUnits negative n d).units = roundHalfEven n (d * 2 ^ shift) * 2 ^ shift := by
  have hpos : 0 < 2 ^ shift := Nat.two_pow_pos shift
  have hne : n / d ≠ 0 := by
    intro h
    rw [h, Nat.log2_zero] at hlog
    omega
  obtain ⟨hlo, hhi⟩ := (Nat.log2_eq_iff hne).mp hlog
  have hquotient : n / (d * 2 ^ shift) = n / d / 2 ^ shift := (Nat.div_div_eq_div_mul ..).symm
  have hlow : 2 ^ 52 ≤ n / (d * 2 ^ shift) := by
    rw [hquotient, Nat.le_div_iff_mul_le hpos, ← Nat.pow_add]
    exact hlo
  have hhigh : n / (d * 2 ^ shift) < 2 ^ 53 := by
    rw [hquotient, Nat.div_lt_iff_lt_mul hpos, ← Nat.pow_add]
    exact Nat.lt_of_lt_of_eq hhi (congrArg _ (by omega))
  have hround := div_le_roundHalfEven n (d * 2 ^ shift)
  have hround' := roundHalfEven_le n (d * 2 ^ shift)
  have hcode : shift * 2 ^ 52 + roundHalfEven n (d * 2 ^ shift) < infinityCode := by
    unfold infinityCode
    omega
  have heq : ofUnits negative n d =
      ⟨negative, ⟨shift * 2 ^ 52 + roundHalfEven n (d * 2 ^ shift),
        Nat.lt_trans hcode (by decide)⟩⟩ := by
    unfold ofUnits
    simp only [hlog, Nat.add_sub_cancel_left, dif_pos hcode]
  rw [heq]
  exact ⟨decide_eq_true hcode, units_of_code (by omega) (by omega) rfl⟩

/-! ### Truncation -/

theorem truncate_eq {x : Binary64} {n : ℕ} (hfinite : x.isFinite = true)
    (hsign : x.negative = false) (hwhole : x.units / 2 ^ 1074 = n) (hn : n < 2 ^ 64) :
    truncate x = some (UInt64.ofNat n) := by
  unfold truncate
  dsimp only
  rw [hwhole]
  exact if_pos ⟨hfinite, hn, Or.inl hsign⟩

/-- A quotient whose divisor has at most `k + 1` bits, in units of `2^-k`, does not round
up to the next whole number. -/
theorem roundHalfEven_div {n d k : ℕ} (hpos : 0 < d) (hd : d < 2 ^ (k + 1)) :
    roundHalfEven (n * 2 ^ k) d / 2 ^ k = n / d := by
  have hk : 0 < 2 ^ k := Nat.two_pow_pos k
  have hdiv : d * (n / d) + n % d = n := Nat.div_add_mod n d
  have hmod : n % d < d := Nat.mod_lt n hpos
  apply Nat.div_eq_of_lt_le
  · -- the whole part is not rounded away
    calc n / d * 2 ^ k ≤ n * 2 ^ k / d := by
          rw [Nat.le_div_iff_mul_le hpos, Nat.mul_right_comm]
          exact Nat.mul_le_mul_right _ (Nat.div_mul_le_self n d)
      _ ≤ roundHalfEven (n * 2 ^ k) d := div_le_roundHalfEven _ _
  · have herror := two_mul_roundHalfEven_le (n * 2 ^ k) d
    have hnext : n + 1 ≤ d * (n / d + 1) := by
      rw [Nat.mul_add, Nat.mul_one]
      omega
    have hscaled : (n + 1) * 2 ^ k ≤ d * (n / d + 1) * 2 ^ k := Nat.mul_le_mul_right _ hnext
    rw [Nat.pow_succ] at hd
    rw [Nat.add_mul, Nat.one_mul, Nat.mul_assoc] at hscaled
    have hlt : d * roundHalfEven (n * 2 ^ k) d < d * ((n / d + 1) * 2 ^ k) := by omega
    exact Nat.lt_of_mul_lt_mul_left hlt

theorem ofUnits_zero (d : ℕ) (hpos : 0 < d) : ofUnits false 0 d = ⟨false, 0⟩ := by
  have hround (e : ℕ) : roundHalfEven 0 (d * 2 ^ e) = 0 := by
    have hpos' : 0 < d * 2 ^ e := Nat.mul_pos hpos (Nat.two_pow_pos e)
    simp [roundHalfEven, hpos']
  unfold ofUnits
  simp only [Nat.zero_div, Nat.log2_zero, Nat.zero_sub, Nat.zero_mul, hround]
  rfl

/-- The exponent of a quotient of whole numbers of 53 bits. -/
theorem exists_shift {n d : ℕ} (hn : n < 2 ^ 53) (hd : d ≤ 2 ^ 53) (hpos : 0 < d) (hn0 : 0 < n) :
    ∃ shift k, 1074 = k + shift ∧ Nat.log2 (n * 2 ^ 1074 / d) = 52 + shift ∧
      d < 2 ^ (k + 1) := by
  have hlo : 2 ^ (1021 : ℕ) ≤ n * 2 ^ 1074 / d := by
    rw [Nat.le_div_iff_mul_le hpos]
    calc 2 ^ 1021 * d ≤ 2 ^ 1021 * 2 ^ 53 := Nat.mul_le_mul_left _ hd
      _ ≤ n * 2 ^ 1074 := by
          rw [← Nat.pow_add]
          exact Nat.le_mul_of_pos_left _ hn0
  have hhi : n * 2 ^ 1074 / d < 2 ^ 1127 := by
    calc n * 2 ^ 1074 / d ≤ n * 2 ^ 1074 := Nat.div_le_self _ _
      _ < 2 ^ 53 * 2 ^ 1074 := Nat.mul_lt_mul_of_pos_right hn (Nat.two_pow_pos 1074)
      _ = 2 ^ 1127 := by rw [← Nat.pow_add]
  have hne : n * 2 ^ 1074 / d ≠ 0 :=
    (Nat.lt_of_lt_of_le (Nat.two_pow_pos 1021) hlo).ne'
  have hlog : 1021 ≤ Nat.log2 (n * 2 ^ 1074 / d) := (Nat.le_log2 hne).mpr hlo
  have hlog' : Nat.log2 (n * 2 ^ 1074 / d) < 1127 := (Nat.log2_lt hne).mpr hhi
  have hself : 2 ^ Nat.log2 (n * 2 ^ 1074 / d) ≤ n * 2 ^ 1074 / d := Nat.log2_self_le hne
  obtain ⟨shift, hshift⟩ : ∃ shift, Nat.log2 (n * 2 ^ 1074 / d) = 52 + shift :=
    ⟨_, (Nat.add_sub_cancel' (by omega)).symm⟩
  obtain ⟨k, hk⟩ : ∃ k, 1074 = k + shift := ⟨1074 - shift, by omega⟩
  refine ⟨shift, k, hk, hshift, ?_⟩
  have hbits : 2 ^ (52 + shift) * d < 2 ^ (52 + shift) * 2 ^ (k + 1) := by
    calc 2 ^ (52 + shift) * d ≤ n * 2 ^ 1074 := by
          rw [← Nat.le_div_iff_mul_le hpos, ← hshift]
          exact hself
      _ < 2 ^ 53 * 2 ^ 1074 := Nat.mul_lt_mul_of_pos_right hn (Nat.two_pow_pos 1074)
      _ = 2 ^ (52 + shift) * 2 ^ (k + 1) := by
          rw [← Nat.pow_add, ← Nat.pow_add]
          exact congrArg _ (by omega)
  exact Nat.lt_of_mul_lt_mul_left hbits

/-- **Rounding, then truncating, a quotient of whole numbers is integer division.** -/
theorem truncate_div_ofInt {n d : ℕ} (hn : n < 2 ^ 53) (hd : d ≤ 2 ^ 53) (hpos : 0 < d) :
    truncate (div (ofInt n) (ofInt d)) = some (UInt64.ofNat (n / d)) := by
  have hrange : n / d < 2 ^ 64 :=
    Nat.lt_of_le_of_lt (Nat.div_le_self n d) (Nat.lt_trans hn (by decide))
  rw [div_ofInt (Nat.le_of_lt hn) hd hpos, ofRat_natCast_div n hpos]
  rcases Nat.eq_zero_or_pos n with rfl | hn0
  · rw [Nat.zero_mul, ofUnits_zero d hpos]
    rw [Nat.zero_div]
    decide +kernel
  · obtain ⟨shift, k, hk, hlog, hbits⟩ := exists_shift hn hd hpos hn0
    obtain ⟨hfinite, hunits⟩ := units_ofUnits_div false hlog (by omega)
    refine truncate_eq hfinite (negative_ofUnits _ _ _) ?_ hrange
    have hscale : n * 2 ^ 1074 = n * 2 ^ k * 2 ^ shift := by
      rw [hk, Nat.pow_add, Nat.mul_assoc]
    rw [hunits, hscale, roundHalfEven_mul _ _ (Nat.two_pow_pos shift), hk, Nat.pow_add,
      Nat.mul_div_mul_right _ _ (Nat.two_pow_pos shift)]
    exact roundHalfEven_div hpos hbits

/-- The difference of two magnitudes, rounded once. -/
theorem sub_units {x y : Binary64} (hx : x.code.val < infinityCode) (hy : y.code.val < infinityCode)
    (hsign : x.negative = false) (hsign' : y.negative = false) (hle : y.units ≤ x.units) :
    sub x y = ofUnits false (x.units - y.units) 1 := by
  have hneg : y.neg.signedUnits = -(y.units : ℤ) := by
    simp [signedUnits, neg, hsign', units]
  have hsum : x.signedUnits + y.neg.signedUnits = (x.units - y.units : ℕ) := by
    rw [hneg, signedUnits, hsign, Nat.cast_sub hle]
    exact (Int.sub_eq_add_neg).symm
  have hcode : y.neg.code = y.code := rfl
  unfold sub add
  rw [hsum]
  simp only [isNaN, isInfinite, hcode, decide_eq_false hx.not_gt, decide_eq_false hy.not_gt,
    decide_eq_false hx.ne, decide_eq_false hy.ne, Bool.or_false, Bool.false_eq_true, if_false,
    hsign, Bool.false_and, Int.natAbs_natCast]
  split_ifs with hzero
  · rw [Int.natCast_eq_zero.mp hzero]
  · rw [decide_eq_false (Int.not_lt.mpr (Int.natCast_nonneg _))]

theorem sub_ofInt {n m : ℕ} (hn : n ≤ 2 ^ 53) (hle : m ≤ n) :
    sub (ofInt n) (ofInt m) = ofInt (n - m : ℕ) := by
  obtain ⟨hsign, hfinite, hunits⟩ := ofInt_exact hn
  obtain ⟨hsign', hfinite', hunits'⟩ := ofInt_exact (Nat.le_trans hle hn)
  have hscaled : (ofInt m).units ≤ (ofInt n).units := by
    rw [hunits, hunits']
    exact Nat.mul_le_mul_right _ hle
  rw [sub_units hfinite hfinite' hsign hsign' hscaled, hunits, hunits',
    ← Nat.mul_sub_right_distrib, ofInt_natCast]

/-- A product of whole numbers up to `2^53` is computed exactly. -/
theorem truncate_mul_ofInt {n m : ℕ} (hn : n ≤ 2 ^ 53) (hm : m ≤ 2 ^ 53) (h : n * m ≤ 2 ^ 53) :
    truncate (mul (ofInt n) (ofInt m)) = some (UInt64.ofNat (n * m)) := by
  obtain ⟨hsign, hfinite, hunits⟩ := ofInt_exact hn
  obtain ⟨hsign', hfinite', hunits'⟩ := ofInt_exact hm
  obtain ⟨hsign'', hfinite'', hunits''⟩ := ofInt_exact h
  have hproduct : mul (ofInt n) (ofInt m) = ofInt (n * m : ℕ) := by
    rw [ofInt_natCast (n * m),
      ← ofUnits_mul false (n * m * 2 ^ 1074) 1 (Nat.two_pow_pos 1074), Nat.one_mul]
    simp [-Nat.reducePow, mul, isNaN, isInfinite, hsign, hsign', hunits, hunits', hfinite.ne,
      hfinite'.ne, hfinite.not_gt, hfinite'.not_gt]
    rw [Nat.mul_mul_mul_comm, Nat.mul_assoc (n * m)]
  rw [hproduct]
  refine truncate_eq (decide_eq_true hfinite'') hsign'' ?_ (by omega)
  rw [hunits'', Nat.mul_div_cancel _ (Nat.two_pow_pos 1074)]

end Binary64

end Foundation
