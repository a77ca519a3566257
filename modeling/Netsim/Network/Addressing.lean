import Mathlib.Data.Nat.Basic

/-!
# IPv4 addresses and subnet masks

`network/addressing.hpp` and the parts of `addressing.cpp` that routing uses:
raw 32-bit words, the validating prefix-length constructor of a mask, and the
bit count that ranks masks in a lookup.
-/

namespace Netsim.Network

structure IPv4Address where
  toU32 : UInt32
deriving DecidableEq, Repr

structure SubnetMask where
  toU32 : UInt32
deriving DecidableEq, Repr

namespace SubnetMask

/-- `SubnetMask(int prefix_length)`; `none` is the `std::invalid_argument`. -/
def ofPrefixLength (prefixLength : ℤ) : Option SubnetMask :=
  if prefixLength < 0 ∨ prefixLength > 32 then none
  else some ⟨if prefixLength = 0 then 0
    else ~~~(0 : UInt32) <<< UInt32.ofNat (32 - prefixLength).toNat⟩

/-- The loop of `to_prefix_length`; thirty-two shifts empty a 32-bit word. -/
def countBits : ℕ → UInt32 → UInt8 → UInt8
  | 0, _, count => count
  | n + 1, m, count =>
      if m = 0 then count else countBits n (m >>> 1) (count + (m &&& 1).toUInt8)

def toPrefixLength (mask : SubnetMask) : UInt8 := countBits 32 mask.toU32 0

/-- A mask the validating constructor accepts: a block of ones, then zeros. -/
def Contiguous (mask : SubnetMask) : Prop :=
  ∃ p, ofPrefixLength p = some mask

theorem ofPrefixLength_eq_some {p : ℤ} {mask : SubnetMask}
    (h : ofPrefixLength p = some mask) : ∃ n : ℕ, n < 33 ∧ p = n := by
  unfold ofPrefixLength at h
  split at h
  · simp at h
  · exact ⟨p.toNat, by omega, by omega⟩

/-- The bit count of a mask inverts its construction from a prefix length. -/
theorem toPrefixLength_ofPrefixLength {p : ℤ} {mask : SubnetMask}
    (h : ofPrefixLength p = some mask) : (mask.toPrefixLength.toNat : ℤ) = p := by
  obtain ⟨n, hn, rfl⟩ := ofPrefixLength_eq_some h
  have hall : ∀ n : Fin 33, (ofPrefixLength (n.val : ℤ)).map
      (fun mask => mask.toPrefixLength.toNat) = some n.val := by
    decide +kernel
  have hn' := hall ⟨n, hn⟩
  rw [h] at hn'
  exact congrArg Nat.cast (Option.some.inj hn')

/-- Contiguous masks are determined by their bit count. -/
theorem Contiguous.eq_of_prefixLength {m m' : SubnetMask} (h : m.Contiguous)
    (h' : m'.Contiguous) (heq : m.toPrefixLength = m'.toPrefixLength) : m = m' := by
  obtain ⟨p, hp⟩ := h
  obtain ⟨q, hq⟩ := h'
  have hpq : p = q := by
    rw [← toPrefixLength_ofPrefixLength hp, ← toPrefixLength_ofPrefixLength hq, heq]
  rw [hpq] at hp
  exact Option.some.inj (hp.symm.trans hq)

end SubnetMask

/-- The test of `lookup_route`: `a` and `b` agree under `mask`. -/
def sameSubnet (a b : IPv4Address) (mask : SubnetMask) : Bool :=
  (a.toU32 &&& mask.toU32) == (b.toU32 &&& mask.toU32)

end Netsim.Network
