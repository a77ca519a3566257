import Netsim.Foundation.Binary64Truncate

/-!
# The range of binary64 operations

A double within `2^k` is finite and of magnitude at most `2^k`. Rounding does not leave
such a range, because a power of two is a double: the magnitudes of results are those of
exact arithmetic, one rule for each operation.
-/

namespace Foundation

namespace Binary64

/-- Rounding to the nearest does not go beyond a whole number. -/
theorem roundHalfEven_le_of_le {n d q : ℕ} (hd : 0 < d) (h : n ≤ d * q) :
    roundHalfEven n d ≤ q := by
  have hdiv : d * (n / d) + n % d = n := Nat.div_add_mod n d
  have hle : n / d ≤ q := Nat.div_le_of_le_mul h
  rcases Nat.lt_or_eq_of_le hle with hlt | heq
  · exact le_trans (roundHalfEven_le n d) hlt
  · have hrest : n % d = 0 := by
      rw [heq] at hdiv
      omega
    unfold roundHalfEven
    dsimp only
    rw [hrest, if_pos (by omega)]
    exact hle

/-- The codes up to the least normal double are their own magnitudes. -/
theorem units_of_le {x : Binary64} (h : x.code.val ≤ 2 ^ 52) : x.units = x.code.val := by
  unfold units
  rcases Nat.lt_or_eq_of_le h with hlt | heq
  · have hexponent : x.code.val / 2 ^ 52 = 0 := Nat.div_eq_of_lt hlt
    simp only [hexponent, if_true, Nat.mod_eq_of_lt hlt]
  · simp [heq]

/-- A magnitude of at most `2^e` units keeps to it when it is rounded. -/
theorem ofUnits_le (negative : Bool) {n d e : ℕ} (hd : 0 < d) (h : n ≤ d * 2 ^ e)
    (hhigh : e < 2097) :
    (ofUnits negative n d).isFinite = true ∧ (ofUnits negative n d).units ≤ 2 ^ e := by
  have hquotient : n / d ≤ 2 ^ e := Nat.div_le_of_le_mul h
  have hround := roundHalfEven_le n d
  by_cases hsmall : n / d < 2 ^ 52
  · -- below the normal doubles, or carried to the least of them
    have hshift : Nat.log2 (n / d) - 52 = 0 := by
      rcases Nat.eq_zero_or_pos (n / d) with hzero | hpos
      · rw [hzero, Nat.log2_zero]
      · exact Nat.sub_eq_zero_of_le (Nat.le_of_lt ((Nat.log2_lt hpos.ne').mpr hsmall))
    have hfinite : roundHalfEven n d < infinityCode := by
      unfold infinityCode
      omega
    have heq : ofUnits negative n d =
        ⟨negative, ⟨roundHalfEven n d, Nat.lt_trans hfinite (by decide)⟩⟩ := by
      unfold ofUnits
      simp only [hshift, Nat.pow_zero, Nat.mul_one, Nat.zero_mul, Nat.zero_add, dif_pos hfinite]
    rw [heq]
    refine ⟨decide_eq_true hfinite, ?_⟩
    rw [units_of_le (by dsimp only; omega)]
    exact roundHalfEven_le_of_le hd h
  · have hne : n / d ≠ 0 := by omega
    have hlow : 52 ≤ Nat.log2 (n / d) := (Nat.le_log2 hne).mpr (Nat.not_lt.mp hsmall)
    obtain ⟨shift, hshift⟩ := Nat.exists_eq_add_of_le hlow
    have hlog : 52 + shift ≤ e := by
      rw [← hshift]
      exact (Nat.pow_le_pow_iff_right (by decide)).mp ((Nat.log2_self_le hne).trans hquotient)
    obtain ⟨rest, hrest⟩ := Nat.exists_eq_add_of_le (Nat.le_of_add_left_le hlog)
    obtain ⟨hfinite, hunits⟩ := units_ofUnits_div negative hshift (by omega)
    refine ⟨hfinite, ?_⟩
    rw [hrest, Nat.pow_add, ← Nat.mul_assoc] at h
    rw [hunits, hrest, Nat.pow_add, Nat.mul_comm]
    exact Nat.mul_le_mul_left _
      (roundHalfEven_le_of_le (Nat.mul_pos hd (Nat.two_pow_pos shift)) h)

/-! ### Ranges -/

/-- Finite, and of magnitude at most `2^k`. -/
structure Within (k : ℕ) (x : Binary64) : Prop where
  finite : x.isFinite = true
  units_le : x.units ≤ 2 ^ (1074 + k)

variable {x y : Binary64} {j k : ℕ}

theorem isNaN_of_finite (h : x.isFinite = true) : x.isNaN = false := by
  have hlt : x.code.val < infinityCode := of_decide_eq_true h
  exact decide_eq_false hlt.not_gt

theorem isInfinite_of_finite (h : x.isFinite = true) : x.isInfinite = false := by
  have hlt : x.code.val < infinityCode := of_decide_eq_true h
  exact decide_eq_false hlt.ne

theorem finite_ofInt {m : ℕ} (hm : m ≤ 2 ^ 53) : (ofInt m).isFinite = true :=
  decide_eq_true (ofInt_exact hm).2.1

theorem isZero_ofInt {m : ℕ} (hpos : 0 < m) (hm : m ≤ 2 ^ 53) : (ofInt m).isZero = false := by
  apply decide_eq_false
  intro hzero
  have hunits : (ofInt m).units = 0 := by simp [units, hzero]
  rw [(ofInt_exact hm).2.2] at hunits
  exact (Nat.mul_pos hpos (Nat.two_pow_pos _)).ne' hunits

/-- What compares greater than zero can be divided by, and has a square root. -/
theorem pos_of_lt (h : lt (ofInt 0) x = true) : x.negative = false ∧ x.isZero = false := by
  have hzero : ofInt 0 = ⟨false, 0⟩ := by decide +kernel
  unfold lt at h
  split_ifs at h with hnan
  have hlt := of_decide_eq_true h
  rw [hzero] at hlt
  cases hnegative : x.negative with
  | true =>
      simp only [hnegative, if_true, Bool.false_eq_true, if_false] at hlt
      omega
  | false =>
      simp only [hnegative, Bool.false_eq_true, if_false] at hlt
      refine ⟨rfl, decide_eq_false fun hcode => ?_⟩
      rw [hcode] at hlt
      exact absurd hlt (by decide)

theorem natAbs_signedUnits (x : Binary64) : x.signedUnits.natAbs = x.units := by
  unfold signedUnits
  split_ifs
  · rw [Int.natAbs_neg, Int.natAbs_natCast]
  · exact Int.natAbs_natCast _

namespace Within

theorem ofUnits (negative : Bool) {n d : ℕ} (hd : 0 < d) (h : n ≤ d * 2 ^ (1074 + k))
    (hk : k < 1023) : Within k (Binary64.ofUnits negative n d) := by
  obtain ⟨hfinite, hunits⟩ := ofUnits_le negative hd h (by omega)
  exact ⟨hfinite, hunits⟩

theorem mono (h : Within j x) (hle : j ≤ k) : Within k x :=
  ⟨h.finite, h.units_le.trans (Nat.pow_le_pow_right (by decide) (Nat.add_le_add_left hle _))⟩

theorem neg (h : Within k x) : Within k x.neg := ⟨h.finite, h.units_le⟩

/-- A sum is at most twice as large. -/
theorem add (hx : Within k x) (hy : Within k y) (hk : k + 1 < 1023) :
    Within (k + 1) (x.add y) := by
  have hsum : (x.signedUnits + y.signedUnits).natAbs ≤ 1 * 2 ^ (1074 + (k + 1)) := by
    have hle := Int.natAbs_add_le x.signedUnits y.signedUnits
    rw [natAbs_signedUnits, natAbs_signedUnits] at hle
    have hdouble : 1 * 2 ^ (1074 + (k + 1)) = 2 ^ (1074 + k) + 2 ^ (1074 + k) := by
      rw [Nat.one_mul, ← Nat.add_assoc, Nat.pow_succ, Nat.mul_two]
    rw [hdouble]
    exact hle.trans (Nat.add_le_add hx.units_le hy.units_le)
  unfold Binary64.add
  rw [isNaN_of_finite hx.finite, isNaN_of_finite hy.finite, isInfinite_of_finite hx.finite,
    isInfinite_of_finite hy.finite]
  simp only [Bool.or_self, Bool.false_eq_true, if_false]
  split_ifs
  · exact ofUnits _ Nat.one_pos (Nat.zero_le _) hk
  · exact ofUnits _ Nat.one_pos hsum hk

theorem sub (hx : Within k x) (hy : Within k y) (hk : k + 1 < 1023) :
    Within (k + 1) (x.sub y) := by
  unfold Binary64.sub
  rw [isNaN_of_finite hy.finite, if_neg Bool.false_ne_true]
  exact hx.add hy.neg hk

theorem mul (hx : Within j x) (hy : Within k y) (hk : j + k < 1023) :
    Within (j + k) (x.mul y) := by
  have hproduct : x.units * y.units ≤ 2 ^ 1074 * 2 ^ (1074 + (j + k)) := by
    have hexponent : 1074 + j + (1074 + k) = 1074 + (1074 + (j + k)) := by omega
    rw [← Nat.pow_add, ← hexponent, Nat.pow_add 2 (1074 + j)]
    exact Nat.mul_le_mul hx.units_le hy.units_le
  unfold Binary64.mul
  rw [isNaN_of_finite hx.finite, isNaN_of_finite hy.finite, isInfinite_of_finite hx.finite,
    isInfinite_of_finite hy.finite]
  simp only [Bool.or_self, Bool.false_eq_true, if_false]
  exact ofUnits _ (Nat.two_pow_pos _) hproduct hk

/-- A quotient by a whole number is no larger. -/
theorem div_ofInt (hx : Within k x) {m : ℕ} (hpos : 0 < m) (hm : m ≤ 2 ^ 53) (hk : k < 1023) :
    Within k (x.div (ofInt m)) := by
  have hfinite := finite_ofInt hm
  have hunits := (ofInt_exact hm).2.2
  have hquotient : x.units * 2 ^ 1074 ≤ m * 2 ^ 1074 * 2 ^ (1074 + k) := by
    rw [Nat.mul_right_comm]
    exact Nat.mul_le_mul_right _ (hx.units_le.trans (Nat.le_mul_of_pos_left _ hpos))
  unfold Binary64.div
  rw [isNaN_of_finite hx.finite, isNaN_of_finite hfinite, isInfinite_of_finite hx.finite,
    isInfinite_of_finite hfinite, isZero_ofInt hpos hm, hunits]
  simp only [Bool.or_self, Bool.false_eq_true, if_false]
  exact ofUnits _ (Nat.mul_pos hpos (Nat.two_pow_pos _)) hquotient hk

/-- Each summand doubles the range at most. -/
theorem foldl_add : ∀ {xs : List Binary64} {x : Binary64} {k : ℕ}, Within k x →
    (∀ y ∈ xs, Within k y) → k + xs.length < 1023 →
      Within (k + xs.length) (xs.foldl Binary64.add x) := by
  intro xs
  induction xs with
  | nil => exact fun hx _ _ => hx
  | cons y ys ih =>
      intro x k hx hxs hk
      rw [List.length_cons] at hk
      have hnext := hx.add (hxs y List.mem_cons_self) (by omega)
      have hrest := ih hnext
        (fun z hz => (hxs z (List.mem_cons_of_mem _ hz)).mono (Nat.le_succ k)) (by omega)
      rw [List.foldl_cons, List.length_cons]
      rwa [Nat.add_right_comm] at hrest

end Within

end Binary64

end Foundation
