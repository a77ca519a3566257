import Mathlib.Algebra.Group.Nat.Defs
import Mathlib.Data.Nat.Basic
import Mathlib.Order.MinMax
import Mathlib.Tactic.Common

/-!
# Exponential backoff

`network/backoff.hpp`. The delay is drawn between zero and a ceiling that should double
with every attempt up to a maximum. The factor is a 32-bit shift, which is undefined
from the thirty-third attempt on, and the product is a 64-bit word, which may lose its
high bits before it is compared with the maximum.
-/

namespace Netsim.Network

structure Backoff where
  baseMs : UInt64
  maxMs : UInt64
deriving DecidableEq, Repr

namespace Backoff

/-- `1u << count`, which is undefined when `count` is not below the width. -/
def shiftOne (count : UInt32) : Option UInt32 :=
  if count < 32 then some (1 <<< count) else none

/-- The upper bound of the distribution in `calculate_delay`. -/
def ceiling (policy : Backoff) (attempt : UInt32) : Option UInt64 :=
  (shiftOne (attempt - 1)).map fun factor =>
    let expFactor : UInt64 := factor.toUInt64
    let delay := policy.baseMs * expFactor
    if policy.maxMs < delay then policy.maxMs else delay

/-- `calculate_delay`; the distribution draws between its two bounds. -/
def calculateDelay {G : Type*} (distribution : UInt64 → UInt64 → G → UInt64 × G)
    (policy : Backoff) (attempt : UInt32) (generator : G) : Option (UInt64 × G) :=
  if attempt = 0 then some (0, generator)
  else (policy.ceiling attempt).map fun delay => distribution 0 delay generator

/-- The ceiling is the exponential one, and no earlier ceiling is higher. -/
structure Exponential (policy : Backoff) (attempt : UInt32) (bound : UInt64) : Prop where
  defined : policy.ceiling attempt = some bound
  exact : bound.toNat = min policy.maxMs.toNat (policy.baseMs.toNat * 2 ^ (attempt.toNat - 1))
  le_max : bound ≤ policy.maxMs
  mono : ∀ earlier, earlier ≠ 0 → earlier ≤ attempt →
    ∃ lower, policy.ceiling earlier = some lower ∧ lower ≤ bound

variable {policy : Backoff} {attempt earlier : UInt32} {bound : UInt64} {k : ℕ}

/-! ### The shift and the product -/

theorem toNat_pred (h : attempt ≠ 0) : (attempt - 1).toNat = attempt.toNat - 1 := by
  have hpos : attempt.toNat ≠ 0 := fun h0 => h (UInt32.toNat_inj.mp h0)
  have hle : (1 : UInt32) ≤ attempt := UInt32.le_iff_toNat_le.mpr (Nat.one_le_iff_ne_zero.mpr hpos)
  exact UInt32.toNat_sub_of_le _ _ hle

theorem shiftOne_isSome_iff (h : attempt ≠ 0) :
    (shiftOne (attempt - 1)).isSome ↔ attempt.toNat ≤ 32 := by
  unfold shiftOne
  rw [Option.isSome_ite, UInt32.lt_iff_toNat_lt, toNat_pred h]
  show attempt.toNat - 1 < 32 ↔ _
  omega

theorem toNat_shiftOne (hk : k < 32) : ((1 : UInt32) <<< UInt32.ofNat k).toNat = 2 ^ k := by
  have hpow : 2 ^ k < 2 ^ 32 := Nat.pow_lt_pow_right (by decide) hk
  rw [UInt32.toNat_shiftLeft, UInt32.toNat_ofNat_of_lt' (Nat.lt_trans hk (by decide)),
    Nat.mod_eq_of_lt hk, UInt32.toNat_one, Nat.one_shiftLeft, Nat.mod_eq_of_lt hpow]

/-- What a word loses when it is shifted up by `k` bits. -/
theorem mul_pow_mod (n : ℕ) (hk : k ≤ 64) : n * 2 ^ k % 2 ^ 64 = n % 2 ^ (64 - k) * 2 ^ k := by
  have hsplit : 2 ^ 64 = 2 ^ (64 - k) * 2 ^ k := by
    rw [← Nat.pow_add, Nat.sub_add_cancel hk]
  rw [hsplit, Nat.mul_mod_mul_right]

/-- A remainder may stand for the number below a bound that it reaches too. -/
theorem min_mod_eq_min_iff {m p M : ℕ} (hm : m < M) :
    min m (p % M) = min m p ↔ p < M ∨ m ≤ p % M := by
  constructor
  · intro h
    by_contra hlost
    rw [not_or, Nat.not_lt, Nat.not_le] at hlost
    rw [Nat.min_eq_right (Nat.le_of_lt hlost.2),
      Nat.min_eq_left (Nat.le_trans (Nat.le_of_lt hm) hlost.1)] at h
    exact Nat.ne_of_lt hlost.2 h
  · rintro (hlt | hle)
    · rw [Nat.mod_eq_of_lt hlt]
    · rw [Nat.min_eq_left hle, Nat.min_eq_left (Nat.le_trans hle (Nat.mod_le p M))]

/-! ### The ceiling -/

/-- The ceiling is taken of the product modulo `2^64`. -/
theorem ceiling_of_le (policy : Backoff) (h : attempt ≠ 0) (h32 : attempt.toNat ≤ 32) :
    ∃ bound, policy.ceiling attempt = some bound ∧ bound.toNat =
      min policy.maxMs.toNat (policy.baseMs.toNat * 2 ^ (attempt.toNat - 1) % 2 ^ 64) := by
  obtain ⟨factor, hfactor⟩ := Option.isSome_iff_exists.mp ((shiftOne_isSome_iff h).mpr h32)
  have hvalue : factor.toNat = 2 ^ (attempt.toNat - 1) := by
    unfold shiftOne at hfactor
    split_ifs at hfactor with hcount
    rw [← Option.some.inj hfactor, ← toNat_pred h]
    have hlt : (attempt - 1).toNat < 32 := UInt32.lt_iff_toNat_lt.mp hcount
    rw [← toNat_shiftOne hlt, UInt32.ofNat_toNat]
  have hproduct : (policy.baseMs * factor.toUInt64).toNat =
      policy.baseMs.toNat * 2 ^ (attempt.toNat - 1) % 2 ^ 64 := by
    rw [UInt64.toNat_mul, UInt32.toNat_toUInt64, hvalue]
  refine ⟨_, by rw [ceiling, hfactor, Option.map_some], ?_⟩
  rw [← hproduct]
  dsimp only
  split_ifs with hmax
  · exact (Nat.min_eq_left (Nat.le_of_lt (UInt64.lt_iff_toNat_lt.mp hmax))).symm
  · exact (Nat.min_eq_right (UInt64.le_iff_toNat_le.mp (UInt64.not_lt.mp hmax))).symm

theorem toNat_le_of_ceiling (h : attempt ≠ 0) (hbound : policy.ceiling attempt = some bound) :
    attempt.toNat ≤ 32 := by
  rw [← shiftOne_isSome_iff h]
  unfold ceiling at hbound
  rcases Option.map_eq_some_iff.mp hbound with ⟨factor, hfactor, -⟩
  rw [hfactor]
  rfl

/-- Whatever the product is, the ceiling is not above the maximum. -/
theorem ceiling_le_max (h : attempt ≠ 0) (hbound : policy.ceiling attempt = some bound) :
    bound ≤ policy.maxMs := by
  obtain ⟨bound', hbound', hvalue⟩ := ceiling_of_le policy h
    (toNat_le_of_ceiling h hbound)
  obtain rfl := Option.some.inj (hbound'.symm.trans hbound)
  rw [UInt64.le_iff_toNat_le, hvalue]
  exact Nat.min_le_left _ _

/-- **When the ceiling is exponential.** The shift must be defined, and the product must
fit in a word, or what is left of it must still reach the maximum. -/
theorem ceiling_exponential_iff (policy : Backoff) (attempt : UInt32) (h : attempt ≠ 0) :
    (∃ bound, policy.Exponential attempt bound) ↔ attempt.toNat ≤ 32 ∧
      (policy.baseMs.toNat * 2 ^ (attempt.toNat - 1) < 2 ^ 64 ∨
        policy.maxMs.toNat ≤
          policy.baseMs.toNat % 2 ^ (64 - (attempt.toNat - 1)) * 2 ^ (attempt.toNat - 1)) := by
  constructor
  · rintro ⟨bound, hexp⟩
    have h32 := toNat_le_of_ceiling h hexp.defined
    obtain ⟨bound', hdefined, hvalue⟩ := ceiling_of_le policy h h32
    obtain rfl := Option.some.inj (hdefined.symm.trans hexp.defined)
    have hk : attempt.toNat - 1 ≤ 64 := by omega
    refine ⟨h32, ?_⟩
    rw [← mul_pow_mod _ hk, ← min_mod_eq_min_iff policy.maxMs.toNat_lt, ← hvalue]
    exact hexp.exact
  · rintro ⟨h32, hfits⟩
    obtain ⟨bound, hdefined, hvalue⟩ := ceiling_of_le policy h h32
    have hk : attempt.toNat - 1 ≤ 64 := by omega
    rw [← mul_pow_mod _ hk, ← min_mod_eq_min_iff policy.maxMs.toNat_lt] at hfits
    have hexact := hvalue.trans hfits
    refine ⟨bound, hdefined, hexact, ceiling_le_max h hdefined, fun earlier hearlier hle => ?_⟩
    have hle := UInt32.le_iff_toNat_le.mp hle
    obtain ⟨lower, hlower, hlowerValue⟩ :=
      ceiling_of_le policy hearlier (Nat.le_trans hle h32)
    refine ⟨lower, hlower, ?_⟩
    rw [UInt64.le_iff_toNat_le, hlowerValue, hexact]
    -- a product that has lost bits is below the true one
    have hpow : 2 ^ (earlier.toNat - 1) ≤ 2 ^ (attempt.toNat - 1) :=
      Nat.pow_le_pow_right (by decide) (Nat.sub_le_sub_right hle 1)
    calc min policy.maxMs.toNat (policy.baseMs.toNat * 2 ^ (earlier.toNat - 1) % 2 ^ 64)
        ≤ min policy.maxMs.toNat (policy.baseMs.toNat * 2 ^ (earlier.toNat - 1)) :=
          min_le_min_left _ (Nat.mod_le _ _)
      _ ≤ min policy.maxMs.toNat (policy.baseMs.toNat * 2 ^ (attempt.toNat - 1)) :=
          min_le_min_left _ (Nat.mul_le_mul_left _ hpow)

/-- The policy of the tests, at its fifth attempt. -/
theorem ceiling_exponential_iff_fifth :
    (∃ bound, Exponential ⟨100, 2000⟩ 5 bound) ↔ (5 : UInt32).toNat ≤ 32 ∧
      ((100 : UInt64).toNat * 2 ^ ((5 : UInt32).toNat - 1) < 2 ^ 64 ∨
        (2000 : UInt64).toNat ≤ (100 : UInt64).toNat % 2 ^ (64 - ((5 : UInt32).toNat - 1)) *
          2 ^ ((5 : UInt32).toNat - 1)) :=
  ceiling_exponential_iff ⟨100, 2000⟩ 5 (by decide)

/-- The thirty-third attempt shifts by the whole width, and a large base loses the bits
that make it large. -/
theorem not_exponential :
    (¬ ∃ bound, Exponential ⟨100, 2000⟩ 33 bound) ∧
      ¬ ∃ bound, Exponential ⟨9223372036854775808, 18446744073709551615⟩ 2 bound := by
  refine ⟨fun ⟨bound, h⟩ => ?_, fun ⟨bound, h⟩ => ?_⟩
  · exact absurd (toNat_le_of_ceiling (by decide) h.defined) (by decide)
  · have hzero : ceiling ⟨9223372036854775808, 18446744073709551615⟩ 2 = some 0 := by decide
    obtain rfl := Option.some.inj (hzero.symm.trans h.defined)
    exact absurd h.exact (by decide)

/-- A draw between the bounds stays below the maximum. -/
theorem calculateDelay_le {G : Type*} {distribution : UInt64 → UInt64 → G → UInt64 × G}
    (hdraw : ∀ low high g, low ≤ high → (distribution low high g).1 ≤ high)
    {generator next : G} {delay : UInt64}
    (h : calculateDelay distribution policy attempt generator = some (delay, next)) :
    delay ≤ policy.maxMs := by
  unfold calculateDelay at h
  split_ifs at h with hzero
  · obtain ⟨rfl, -⟩ := Prod.mk.inj (Option.some.inj h)
    exact UInt64.le_iff_toNat_le.mpr (Nat.zero_le _)
  · obtain ⟨bound, hbound, hdelay⟩ := Option.map_eq_some_iff.mp h
    have hlow : (0 : UInt64) ≤ bound := UInt64.le_iff_toNat_le.mpr (Nat.zero_le _)
    have hdrawn := hdraw 0 bound generator hlow
    rw [hdelay] at hdrawn
    exact UInt64.le_trans hdrawn (ceiling_le_max hzero hbound)

end Backoff

end Netsim.Network
