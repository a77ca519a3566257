import Mathlib.Algebra.Group.Nat.Defs
import Mathlib.Data.Set.Lattice
import Mathlib.Order.CompletePartialOrder

/-!
# Blocks of words with a common prefix

The words that agree with a given one except in their `k` lowest bits. Two blocks
with a word in common are nested, the one with fewer free bits inside the other, and
strictly so while the bits are there.
-/

namespace Foundation

variable {w k l : ℕ} {x y : BitVec w}

/-- The words with the same high bits as `x`, from bit `k` on. -/
def block (k : ℕ) (x : BitVec w) : Set (BitVec w) := {y | y >>> k = x >>> k}

theorem mem_block : y ∈ block k x ↔ y >>> k = x >>> k := Iff.rfl

theorem block_eq_of_mem (h : y ∈ block k x) : block k y = block k x := by
  ext z
  rw [mem_block, mem_block, mem_block.mp h]

/-- Words that agree from some bit on agree from a later one on. -/
theorem block_mono (hkl : k ≤ l) : block k x ⊆ block l x := by
  intro y hy
  obtain ⟨d, rfl⟩ := Nat.exists_eq_add_of_le hkl
  rw [mem_block, BitVec.shiftRight_add, BitVec.shiftRight_add, mem_block.mp hy]

/-- Flipping a free bit leaves the smaller block and not the larger. -/
theorem exists_mem_block_diff (hkl : k < l) (hl : l ≤ w) :
    ∃ y, y ∈ block l x ∧ y ∉ block k x := by
  refine ⟨x ^^^ BitVec.twoPow w k, ?_, fun hy => ?_⟩
  · rw [mem_block]
    apply BitVec.eq_of_getLsbD_eq
    intro i _
    have hne : l + i ≠ k := fun h => absurd (h ▸ Nat.le_add_right l i) (Nat.not_le.mpr hkl)
    simp [BitVec.getLsbD_ushiftRight, BitVec.getLsbD_twoPow, Ne.symm hne]
  · have hbit := congrArg (fun z => z.getLsbD 0) (mem_block.mp hy)
    have hk : k < w := Nat.lt_of_lt_of_le hkl hl
    simp [BitVec.getLsbD_ushiftRight, hk] at hbit

/-- **Nested blocks.** Of two blocks around one word, the one with fewer free bits is the
smaller. -/
theorem block_ssubset_iff (hl : l ≤ w) : block k x ⊂ block l x ↔ k < l := by
  constructor
  · intro h
    by_contra hle
    exact h.2 (block_mono (Nat.not_lt.mp hle))
  · intro hkl
    obtain ⟨y, hy, hny⟩ := exists_mem_block_diff (x := x) hkl hl
    exact ⟨block_mono (Nat.le_of_lt hkl), fun h => hny (h hy)⟩

/-- Comparing under a mask is comparing the high bits. -/
theorem and_mask_eq_iff :
    x &&& BitVec.allOnes w <<< k = y &&& BitVec.allOnes w <<< k ↔ x >>> k = y >>> k := by
  rw [← BitVec.shiftLeft_ushiftRight, ← BitVec.shiftLeft_ushiftRight]
  constructor
  · intro h
    apply BitVec.eq_of_getLsbD_eq
    intro i hi
    have hbit := congrArg (fun z => z.getLsbD (i + k)) h
    by_cases hik : i + k < w
    · have hshifted : ¬ i + k < k := Nat.not_lt.mpr (Nat.le_add_left k i)
      simpa [hik, hshifted] using hbit
    · rw [BitVec.getLsbD_ushiftRight, BitVec.getLsbD_ushiftRight,
        BitVec.getLsbD_of_ge _ _ (by omega), BitVec.getLsbD_of_ge _ _ (by omega)]
  · intro h
    rw [h]

/-- Words have the same high bits when they agree bit by bit, from the highest on. -/
theorem ushiftRight_eq_iff :
    x >>> k = y >>> k ↔ ∀ i < w - k, x.getMsbD i = y.getMsbD i := by
  have hbit : ∀ (z : BitVec w), ∀ i < w - k, (z >>> k).getMsbD (i + k) = z.getMsbD i := by
    intro z i hi
    have hlt : i + k < w := Nat.add_lt_of_lt_sub hi
    rw [BitVec.getMsbD_ushiftRight]
    simp [hlt]
  constructor
  · intro h i hi
    rw [← hbit x i hi, ← hbit y i hi, h]
  · intro h
    apply BitVec.eq_of_getMsbD_eq
    intro i hi
    rw [BitVec.getMsbD_ushiftRight, BitVec.getMsbD_ushiftRight]
    by_cases hik : i < k
    · simp [hik]
    · rw [h (i - k) (Nat.sub_lt_sub_right (Nat.not_lt.mp hik) hi)]

/-- `n` ones and then zeros, from the highest bit on. -/
theorem eq_mask_iff {n : ℕ} (hn : n ≤ w) :
    x = BitVec.allOnes w <<< (w - n) ↔ ∀ i < w, x.getMsbD i = decide (i < n) := by
  have hmask : ∀ i, (BitVec.allOnes w <<< (w - n)).getMsbD i = decide (i < n) := by
    intro i
    rw [BitVec.getMsbD_shiftLeft, BitVec.getMsbD_allOnes, decide_eq_decide]
    omega
  constructor
  · rintro rfl i -
    exact hmask i
  · intro h
    apply BitVec.eq_of_getMsbD_eq
    intro i hi
    rw [h i hi, hmask]

/-- A word with no bit in common with its successor is all ones below some bit, or
everywhere. -/
theorem exists_pow_of_and_succ {n : ℕ} (h : n &&& (n + 1) = 0) : ∃ k, n + 1 = 2 ^ k := by
  rw [Nat.and_comm] at h
  exact (Nat.and_sub_one_eq_zero_iff_isPowerOfTwo (Nat.succ_ne_zero n)).mp h

end Foundation
