import Mathlib.Algebra.Order.Floor.Div
import Mathlib.Order.CompletePartialOrder
import Mathlib.Order.Interval.Set.Disjoint

/-!
# Aligned blocks of a linear address range

Placement by a moving cursor. A new block starts at the first multiple of its alignment
that the cursor has not passed, and the cursor goes to its end, so the blocks placed so
far stay disjoint inside the range that the cursor has covered.
-/

namespace Foundation

/-- The first multiple of `alignment` from `address` on. -/
def alignUp (alignment address : ℕ) : ℕ :=
  alignment * (address ⌈/⌉ alignment)

section alignUp

variable {alignment address q : ℕ}

theorem dvd_alignUp (alignment address : ℕ) : alignment ∣ alignUp alignment address :=
  Nat.dvd_mul_right _ _

theorem le_alignUp (hpos : 0 < alignment) (address : ℕ) : address ≤ alignUp alignment address :=
  le_smul_ceilDiv hpos

theorem alignUp_le (hpos : 0 < alignment) (hle : address ≤ q) (hdvd : alignment ∣ q) :
    alignUp alignment address ≤ q := by
  obtain ⟨k, rfl⟩ := hdvd
  apply Nat.mul_le_mul_left
  exact (ceilDiv_le_iff_le_mul hpos).mpr hle

/-- A block fits behind `address` just when it fits at the first aligned address. -/
theorem exists_fit_iff (hpos : 0 < alignment) {size limit : ℕ} :
    (∃ q, address ≤ q ∧ alignment ∣ q ∧ q + size ≤ limit) ↔
      alignUp alignment address + size ≤ limit := by
  constructor
  · rintro ⟨q, hle, hdvd, hfit⟩
    exact Nat.le_trans (Nat.add_le_add_right (alignUp_le hpos hle hdvd) size) hfit
  · intro hfit
    exact ⟨_, le_alignUp hpos address, dvd_alignUp alignment address, hfit⟩

end alignUp

structure Block where
  address : ℕ
  size : ℕ
deriving DecidableEq, Repr

namespace Block

def limit (b : Block) : ℕ := b.address + b.size

def bytes (b : Block) : Set ℕ := Set.Ico b.address b.limit

def Apart (b c : Block) : Prop := Disjoint b.bytes c.bytes

theorem apart_of_limit_le {b c : Block} (h : c.limit ≤ b.address) : b.Apart c :=
  (Set.Ico_disjoint_Ico_same.mono_left (Set.Ico_subset_Ico_right h)).symm

end Block

/-- The blocks lie in the range from `low` to `high`, and no two share a byte. -/
structure Packed (low high : ℕ) (blocks : List Block) : Prop where
  low_le_high : low ≤ high
  low_le : ∀ b ∈ blocks, low ≤ b.address
  le_high : ∀ b ∈ blocks, b.limit ≤ high
  apart : blocks.Pairwise Block.Apart

namespace Packed

variable {low high : ℕ} {blocks : List Block} {b : Block}

theorem nil (h : low ≤ high) : Packed low high [] :=
  ⟨h, by simp, by simp, List.Pairwise.nil⟩

theorem widen {high' : ℕ} (h : Packed low high blocks) (hle : high ≤ high') :
    Packed low high' blocks :=
  ⟨Nat.le_trans h.low_le_high hle, h.low_le, fun b hb => Nat.le_trans (h.le_high b hb) hle,
    h.apart⟩

/-- A block behind the range is apart from every block in it. -/
theorem apart_of_le (h : Packed low high blocks) (hle : high ≤ b.address) :
    ∀ c ∈ blocks, b.Apart c :=
  fun c hc => Block.apart_of_limit_le (Nat.le_trans (h.le_high c hc) hle)

theorem push (h : Packed low high blocks) (hle : high ≤ b.address) :
    Packed low b.limit (b :: blocks) := by
  have hlimit : high ≤ b.limit := Nat.le_trans hle (Nat.le_add_right _ _)
  refine ⟨Nat.le_trans h.low_le_high hlimit, ?_, ?_, ?_⟩
  · intro c hc
    rcases List.mem_cons.mp hc with rfl | hc
    · exact Nat.le_trans h.low_le_high hle
    · exact h.low_le c hc
  · intro c hc
    rcases List.mem_cons.mp hc with rfl | hc
    · exact Nat.le_refl _
    · exact Nat.le_trans (h.le_high c hc) hlimit
  · exact List.pairwise_cons.mpr ⟨h.apart_of_le hle, h.apart⟩

end Packed

end Foundation
