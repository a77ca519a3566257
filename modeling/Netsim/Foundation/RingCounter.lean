import Mathlib.Data.Nat.ModEq

/-!
# Free-running counters over a ring of slots

Two machine words that only ever count up, modulo `2^w`, and a ring of `2^k`
slots that a counter indexes by its low bits. As long as the true counts are
within `2^k` of each other the words lose nothing: their difference is the true
difference, and different counts in that range have different slots. Their order
is the order of the counts only until the greater one wraps.
-/

namespace Foundation

variable {w k m n : ℕ} {capacity : BitVec w}

/-- The word that a count shows as. -/
def counter (w n : ℕ) : BitVec w := BitVec.ofNat w n

@[simp] theorem counter_add_one (w n : ℕ) : counter w n + 1 = counter w (n + 1) :=
  (BitVec.ofNat_add n 1).symm

theorem toNat_counter_sub (hle : n ≤ m) (hlt : m - n < 2 ^ w) :
    (counter w m - counter w n).toNat = m - n := by
  obtain ⟨d, rfl⟩ := Nat.exists_eq_add_of_le hle
  have hsub : counter w (n + d) - counter w n = BitVec.ofNat w d := by
    unfold counter
    rw [BitVec.ofNat_add, BitVec.add_comm, BitVec.add_sub_cancel]
  rw [hsub, BitVec.toNat_ofNat, Nat.add_sub_cancel_left]
  rw [Nat.add_sub_cancel_left] at hlt
  exact Nat.mod_eq_of_lt hlt

theorem counter_inj (hle : n ≤ m) (hlt : m - n < 2 ^ w) : counter w n = counter w m ↔ n = m := by
  constructor
  · intro h
    have hsub := toNat_counter_sub hle hlt
    rw [h, BitVec.sub_self] at hsub
    change 0 = m - n at hsub
    omega
  · rintro rfl
    rfl

/-- The words themselves are in the order of the counts only while they have
wrapped equally often. -/
theorem counter_le_iff (hle : n ≤ m) (hlt : m - n < 2 ^ w) :
    counter w n ≤ counter w m ↔ n / 2 ^ w = m / 2 ^ w := by
  have hn := Nat.div_add_mod n (2 ^ w)
  have hm := Nat.div_add_mod m (2 ^ w)
  rw [BitVec.le_def, counter, counter, BitVec.toNat_ofNat, BitVec.toNat_ofNat]
  constructor
  · intro hword
    rcases (Nat.div_le_div_right hle).eq_or_lt with heq | hwrapped
    · exact heq
    · -- one more turn and no smaller a remainder: the counts are a turn apart
      have hturn : 2 ^ w * (n / 2 ^ w) + 2 ^ w ≤ 2 ^ w * (m / 2 ^ w) :=
        Nat.mul_le_mul_left (2 ^ w) hwrapped
      omega
  · intro heq
    rw [heq] at hn
    omega

theorem two_pow_lt (hcap : capacity.toNat = 2 ^ k) : 2 ^ k < 2 ^ w := by
  rw [← hcap]
  exact capacity.isLt

theorem lt_of_capacity (hcap : capacity.toNat = 2 ^ k) : k < w :=
  (Nat.pow_lt_pow_iff_right (by decide)).mp (two_pow_lt hcap)

/-- The subtraction of the words tells a full ring, at any counts. -/
theorem capacity_le_counter_sub_iff (hcap : capacity.toNat = 2 ^ k) (hle : n ≤ m)
    (hheld : m ≤ n + 2 ^ k) : capacity ≤ counter w m - counter w n ↔ m = n + 2 ^ k := by
  have hpow := two_pow_lt hcap
  rw [BitVec.le_def, hcap, toNat_counter_sub hle (by omega)]
  omega

/-- The low bits of a count select its slot. -/
theorem toNat_slot (hcap : capacity.toNat = 2 ^ k) (n : ℕ) :
    (counter w n &&& (capacity - 1)).toNat = n % 2 ^ k := by
  have hk := lt_of_capacity hcap
  have hone : (1 : BitVec w).toNat = 1 := by
    show (BitVec.ofNat w 1).toNat = 1
    rw [BitVec.toNat_ofNat]
    exact Nat.mod_eq_of_lt (Nat.one_lt_two_pow (by omega))
  have hmask : (capacity - 1).toNat = 2 ^ k - 1 := by
    rw [BitVec.toNat_sub_of_le, hcap, hone]
    rw [BitVec.le_def, hcap, hone]
    exact Nat.one_le_two_pow
  rw [BitVec.toNat_and, hmask, Nat.and_two_pow_sub_one_eq_mod, counter, BitVec.toNat_ofNat,
    Nat.mod_mod_of_dvd _ (pow_dvd_pow 2 hk.le)]

/-- Counts less than a full turn apart have different slots. -/
theorem slot_ne (hcap : capacity.toNat = 2 ^ k) (hlt : n < m) (hturn : m - n < 2 ^ k) :
    counter w n &&& (capacity - 1) ≠ counter w m &&& (capacity - 1) := by
  intro h
  have hmod : n % 2 ^ k = m % 2 ^ k := by
    rw [← toNat_slot hcap n, ← toNat_slot hcap m, h]
  have hdvd : 2 ^ k ∣ m - n := (Nat.modEq_iff_dvd' hlt.le).mp hmod
  exact absurd (Nat.le_of_dvd (by omega) hdvd) (by omega)

end Foundation
