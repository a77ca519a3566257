import Netsim.Network.LongestPrefix

/-!
# The three forms of a subnet mask

A mask is written as text, as a prefix length and as a word. The constructor from text
tests the word with a bit trick, the one from a length shifts, and the length is read
back by counting bits. They agree on every word that is ones and then zeros, and on no
other.
-/

namespace Netsim.Network

open Foundation

/-- A block of ones, then a block of zeros; either may be empty. -/
def OnesThenZeros (x : BitVec 32) : Prop := ∃ n ≤ 32, ∀ i < 32, x.getMsbD i = decide (i < n)

/-- `x` and `y` have the same first `n` bits. -/
def IPv4Address.AgreeOn (n : ℕ) (x y : IPv4Address) : Prop :=
  ∀ i < n, x.bits.getMsbD i = y.bits.getMsbD i

namespace SubnetMask

/-- `to_string`. -/
def toString (mask : SubnetMask) : List UInt8 := IPv4Address.toString ⟨mask.toU32⟩

variable {mask : SubnetMask} {text : List UInt8} {n : ℕ} {a b c d : ℕ}

/-- The constructor from a length takes every length up to 32. -/
theorem exists_ofPrefixLength (hn : n ≤ 32) : ∃ mask, ofPrefixLength (n : ℤ) = some mask := by
  unfold ofPrefixLength
  rw [if_neg]
  · exact ⟨_, rfl⟩
  · omega

/-- What the constructor from a length makes is ones and then zeros, and all of that. -/
theorem contiguous_iff : mask.Contiguous ↔ OnesThenZeros mask.toU32.toBitVec := by
  constructor
  · intro h
    obtain ⟨hle, hbits⟩ := h.toBitVec_eq
    exact ⟨_, hle, (eq_mask_iff hle).mp hbits⟩
  · rintro ⟨n, hn, hbits⟩
    obtain ⟨mask', hmask'⟩ := exists_ofPrefixLength hn
    have heq : mask = mask' := by
      have hword := (eq_mask_iff hn).mpr hbits
      rw [← toBitVec_ofPrefixLength (Nat.lt_succ_of_le hn) hmask'] at hword
      exact congrArg SubnetMask.mk (UInt32.toBitVec_inj.mp hword)
    exact ⟨n, heq ▸ hmask'⟩

/-- The bit trick lets every mask of a length pass; for the longest and the shortest the
successor wraps or the inverted mask is zero. -/
theorem trick_of_contiguous (h : mask.Contiguous) :
    ~~~mask.toU32 &&& (~~~mask.toU32 + 1) = 0 := by
  have hall : ∀ n : Fin 33, (ofPrefixLength (n.val : ℤ)).all (fun mask =>
      decide (~~~mask.toU32 &&& (~~~mask.toU32 + 1) = 0)) = true := by
    decide +kernel
  obtain ⟨p, hp⟩ := h
  obtain ⟨n, hn, rfl⟩ := ofPrefixLength_eq_some hp
  have htrick := hall ⟨n, hn⟩
  rw [hp] at htrick
  exact of_decide_eq_true htrick

/-- The constructor from text reads an address and tests it. -/
theorem ofString_of_ok {addr : IPv4Address} (h : IPv4Address.ofString text = .ok addr)
    (hmask : (SubnetMask.mk addr.toU32).Contiguous) : ofString text = .ok ⟨addr.toU32⟩ := by
  have htrick : ~~~addr.toU32 &&& (~~~addr.toU32 + 1) = 0 := trick_of_contiguous hmask
  unfold ofString
  rw [h]
  dsimp only [bind, Except.bind]
  by_cases hzero : addr.toU32 = 0
  · rw [if_neg (not_not.mpr hzero)]
  · rw [if_pos hzero, if_neg (not_not.mpr htrick)]

/-- What it returns is the address that it read. -/
theorem ofString_eq_ok (h : ofString text = .ok mask) :
    IPv4Address.ofString text = .ok ⟨mask.toU32⟩ := by
  unfold ofString at h
  cases haddr : IPv4Address.ofString text with
  | error e =>
      rw [haddr] at h
      nomatch h
  | ok addr =>
      rw [haddr] at h
      dsimp only [bind, Except.bind] at h
      split_ifs at h
      · rw [← Except.ok.inj h]
      · rw [← Except.ok.inj h]

/-- Comparing under a mask is comparing as many bits as it has ones. -/
theorem Contiguous.sameSubnet_iff (h : mask.Contiguous) (x y : IPv4Address) :
    sameSubnet x y mask = true ↔ IPv4Address.AgreeOn mask.toPrefixLength.toNat x y := by
  obtain ⟨hle, hbits⟩ := h.toBitVec_eq
  have hwords : sameSubnet x y mask = true ↔
      x.bits &&& mask.toU32.toBitVec = y.bits &&& mask.toU32.toBitVec := by
    unfold sameSubnet
    rw [beq_iff_eq]
    exact UInt32.toBitVec_inj.symm
  rw [hwords, hbits, and_mask_eq_iff, ushiftRight_eq_iff, Nat.sub_sub_self hle]
  rfl

/-- Of a dotted quad a mask is made when its word is ones and then zeros. -/
theorem ofString_ok_iff (h : IPv4Address.DottedQuad text a b c d) :
    (∃ mask, ofString text = .ok mask) ↔
      OnesThenZeros (BitVec.ofNat 32 (a * 2 ^ 24 + b * 2 ^ 16 + c * 2 ^ 8 + d)) := by
  have haddr := IPv4Address.ofString_quad h
  constructor
  · rintro ⟨mask, hmask⟩
    have hread := Except.ok.inj (haddr.symm.trans (ofString_eq_ok hmask))
    obtain rfl : SubnetMask.mk _ = mask := congrArg (fun x => SubnetMask.mk x.toU32) hread
    exact contiguous_iff.mp (contiguous_ofString hmask)
  · exact fun hbits => ⟨_, ofString_of_ok haddr (contiguous_iff.mpr hbits)⟩

/-- **The three forms agree.** From text a mask is made exactly of the dotted quads whose
word is ones and then zeros, and every other text is refused. Of a mask so made the
count of its ones and its text give it back, and two addresses are the same under it if
and only if they agree on as many first bits. -/
theorem ofString_agrees (text : List UInt8) :
    ((∃ mask, ofString text = .ok mask) ↔ ∃ a b c d, IPv4Address.DottedQuad text a b c d ∧
      OnesThenZeros (BitVec.ofNat 32 (a * 2 ^ 24 + b * 2 ^ 16 + c * 2 ^ 8 + d))) ∧
    ((¬ ∃ a b c d, IPv4Address.DottedQuad text a b c d ∧
      OnesThenZeros (BitVec.ofNat 32 (a * 2 ^ 24 + b * 2 ^ 16 + c * 2 ^ 8 + d))) →
        ∃ e, ofString text = .error e) ∧
    ∀ mask, ofString text = .ok mask →
      (∀ a b c d, IPv4Address.DottedQuad text a b c d →
        mask.toU32.toNat = a * 2 ^ 24 + b * 2 ^ 16 + c * 2 ^ 8 + d) ∧
      ofPrefixLength mask.toPrefixLength.toNat = some mask ∧
      ofString mask.toString = .ok mask ∧
      ∀ x y, sameSubnet x y mask = true ↔ IPv4Address.AgreeOn mask.toPrefixLength.toNat x y := by
  have hiff : (∃ mask, ofString text = .ok mask) ↔ ∃ a b c d,
      IPv4Address.DottedQuad text a b c d ∧
        OnesThenZeros (BitVec.ofNat 32 (a * 2 ^ 24 + b * 2 ^ 16 + c * 2 ^ 8 + d)) := by
    constructor
    · rintro ⟨mask, hmask⟩
      obtain ⟨a, b, c, d, h⟩ := IPv4Address.exists_dottedQuad (ofString_eq_ok hmask)
      exact ⟨a, b, c, d, h, (ofString_ok_iff h).mp ⟨mask, hmask⟩⟩
    · rintro ⟨a, b, c, d, h, hbits⟩
      exact (ofString_ok_iff h).mpr hbits
  refine ⟨hiff, fun hnone => ?_, fun mask hmask => ⟨fun a b c d h => ?_, ?_, ?_, ?_⟩⟩
  · rw [← hiff] at hnone
    cases hmask : ofString text with
    | error e => exact ⟨e, rfl⟩
    | ok mask => exact absurd ⟨mask, hmask⟩ hnone
  · have hread := Except.ok.inj ((IPv4Address.ofString_quad h).symm.trans (ofString_eq_ok hmask))
    rw [← IPv4Address.mk.inj hread]
    exact UInt32.toNat_ofNat_of_lt' (IPv4Address.quad_lt h)
  · obtain ⟨p, hp⟩ := contiguous_ofString hmask
    rw [toPrefixLength_ofPrefixLength hp, hp]
  · exact ofString_of_ok (IPv4Address.ofString_toString ⟨mask.toU32⟩) (contiguous_ofString hmask)
  · exact (contiguous_ofString hmask).sameSubnet_iff

end SubnetMask

end Netsim.Network
