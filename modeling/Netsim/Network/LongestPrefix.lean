import Netsim.Foundation.PrefixBlock
import Netsim.Network.DottedQuad
import Netsim.Network.LookupOrder

/-!
# Longest-prefix match

A validated mask is a block of ones and then zeros, whichever constructor made it, so
a subnet is a block of addresses with a common prefix. Around one address blocks are
nested by the bit counts of their masks: the entry that a lookup answers with is the
first of those whose subnets no other containing subnet refines.
-/

namespace Netsim.Network

open Foundation

namespace SubnetMask

/-- A mask made by one of the two constructors that validate it. -/
def Validated (mask : SubnetMask) : Prop :=
  (∃ p, ofPrefixLength p = some mask) ∨ ∃ text, ofString text = .ok mask

variable {mask : SubnetMask} {n : ℕ}

/-- The bits of the mask of prefix length `n`. -/
theorem toBitVec_ofPrefixLength (hn : n < 33) (h : ofPrefixLength n = some mask) :
    mask.toU32.toBitVec = BitVec.allOnes 32 <<< (32 - n) := by
  have hall : ∀ n : Fin 33, (ofPrefixLength (n.val : ℤ)).map (fun mask => mask.toU32.toBitVec) =
      some (BitVec.allOnes 32 <<< (32 - n.val)) := by
    decide +kernel
  have hbits := hall ⟨n, hn⟩
  rw [h] at hbits
  exact Option.some.inj hbits

/-- Zeros that end in `k` ones are the complement of a mask. -/
theorem ofPrefixLength_of_inverted {k : ℕ} (hk : k < 32)
    (h : (~~~mask.toU32).toNat + 1 = 2 ^ k) : ofPrefixLength ((32 - k : ℕ) : ℤ) = some mask := by
  have hall : ∀ k : Fin 32, ofPrefixLength ((32 - k.val : ℕ) : ℤ) =
      some ⟨~~~UInt32.ofNat (2 ^ k.val - 1)⟩ := by
    decide +kernel
  have hinverted : ~~~mask.toU32 = UInt32.ofNat (2 ^ k - 1) := by
    rw [← h, Nat.add_sub_cancel, UInt32.ofNat_toNat]
  rw [hall ⟨k, hk⟩, ← hinverted, UInt32.not_not]

/-- The bit trick of the constructor from text: a mask that is not zero and passes it is a
block of ones. -/
theorem contiguous_of_trick (hzero : mask.toU32 ≠ 0)
    (htrick : ~~~mask.toU32 &&& (~~~mask.toU32 + 1) = 0) : mask.Contiguous := by
  -- the inverted mask is not all ones, so adding one does not wrap
  have hlt : (~~~mask.toU32).toNat + 1 < 2 ^ 32 := by
    have hpos : mask.toU32.toNat ≠ 0 := fun h => hzero (UInt32.toNat_inj.mp h)
    rw [UInt32.toNat_not]
    show 2 ^ 32 - 1 - mask.toU32.toNat + 1 < 2 ^ 32
    omega
  have hsucc : (~~~mask.toU32 + 1).toNat = (~~~mask.toU32).toNat + 1 := by
    rw [UInt32.toNat_add]
    exact Nat.mod_eq_of_lt hlt
  have hnat : (~~~mask.toU32).toNat &&& ((~~~mask.toU32).toNat + 1) = 0 := by
    rw [← hsucc, ← UInt32.toNat_and, htrick]
    rfl
  obtain ⟨k, hk⟩ := exists_pow_of_and_succ hnat
  have hk32 : k < 32 := (Nat.pow_lt_pow_iff_right (by decide)).mp (hk ▸ hlt)
  exact ⟨_, ofPrefixLength_of_inverted hk32 hk⟩

/-- What the constructor from text accepts is contiguous. -/
theorem contiguous_ofString {text : List UInt8} (h : ofString text = .ok mask) :
    mask.Contiguous := by
  unfold ofString at h
  cases haddr : IPv4Address.ofString text with
  | error e =>
      rw [haddr] at h
      nomatch h
  | ok addr =>
      rw [haddr] at h
      dsimp only [bind, Except.bind] at h
      by_cases hzero : addr.toU32 = 0
      · rw [if_neg (not_not.mpr hzero)] at h
        obtain rfl := Except.ok.inj h
        exact ⟨0, by rw [hzero]; decide⟩
      · rw [if_pos hzero] at h
        split_ifs at h with htrick
        obtain rfl := Except.ok.inj h
        exact contiguous_of_trick hzero (not_not.mp htrick)

theorem Validated.contiguous (h : mask.Validated) : mask.Contiguous := by
  rcases h with hprefix | ⟨text, htext⟩
  · exact hprefix
  · exact contiguous_ofString htext

/-- A contiguous mask is determined by its bit count. -/
theorem Contiguous.toBitVec_eq (h : mask.Contiguous) :
    mask.toPrefixLength.toNat ≤ 32 ∧
      mask.toU32.toBitVec = BitVec.allOnes 32 <<< (32 - mask.toPrefixLength.toNat) := by
  obtain ⟨p, hp⟩ := h
  have hcount := toPrefixLength_ofPrefixLength hp
  obtain ⟨n, hn, rfl⟩ := ofPrefixLength_eq_some hp
  obtain rfl : mask.toPrefixLength.toNat = n := Int.natCast_inj.mp hcount
  exact ⟨Nat.le_of_lt_succ hn, toBitVec_ofPrefixLength hn hp⟩

end SubnetMask

/-! ### Subnets -/

/-- The addresses that agree with the entry's under its mask. -/
def RoutingTableEntry.subnet (e : RoutingTableEntry) : Set IPv4Address :=
  {ip | ip.toU32 &&& e.mask.toU32 = e.destinationSubnet.toU32 &&& e.mask.toU32}

variable {e x : RoutingTableEntry} {dip : IPv4Address} {r : Router}

/-- The loop tests for membership in the subnet. -/
theorem matches_iff_mem_subnet : Matches dip e ↔ dip ∈ e.subnet := beq_iff_eq

/-- An address as a word of bits. -/
def IPv4Address.bits (ip : IPv4Address) : BitVec 32 := ip.toU32.toBitVec

theorem IPv4Address.bits_surjective : Function.Surjective IPv4Address.bits :=
  fun x => ⟨⟨⟨x⟩⟩, rfl⟩

/-- The subnet of an entry with a contiguous mask is a block. -/
theorem subnet_eq_block (h : e.mask.Contiguous) (hdip : dip ∈ e.subnet) :
    e.subnet = Set.preimage IPv4Address.bits
      (block (32 - e.mask.toPrefixLength.toNat) dip.bits) := by
  have hmask := h.toBitVec_eq.2
  have hblock : ∀ ip : IPv4Address, ip ∈ e.subnet ↔
      ip.bits ∈ block (32 - e.mask.toPrefixLength.toNat) e.destinationSubnet.bits := by
    intro ip
    rw [mem_block, ← and_mask_eq_iff, ← hmask]
    exact UInt32.toBitVec_inj.symm
  ext ip
  rw [hblock ip, Set.mem_preimage, block_eq_of_mem ((hblock dip).mp hdip)]

/-- **Subnets around one address** are nested by their prefix lengths. -/
theorem subnet_ssubset_iff (he : e.mask.Contiguous) (hx : x.mask.Contiguous)
    (hdip : dip ∈ e.subnet) (hdip' : dip ∈ x.subnet) :
    x.subnet ⊂ e.subnet ↔ e.mask.toPrefixLength < x.mask.toPrefixLength := by
  have hle := he.toBitVec_eq.1
  have hle' := hx.toBitVec_eq.1
  rw [subnet_eq_block he hdip, subnet_eq_block hx hdip', ssubset_iff_subset_not_subset,
    IPv4Address.bits_surjective.preimage_subset_preimage_iff,
    IPv4Address.bits_surjective.preimage_subset_preimage_iff, ← ssubset_iff_subset_not_subset,
    block_ssubset_iff (Nat.sub_le _ _), UInt8.lt_iff_toNat_lt]
  omega

/-- No containing entry is longer, if and only if none refines the subnet. -/
theorem longest_iff_not_ssubset (hmasks : ∀ x ∈ r.routingTable, x.mask.Contiguous)
    (he : e ∈ r.routingTable) (hdip : dip ∈ e.subnet) :
    Longest dip r.routingTable e ↔
      ∀ x ∈ r.routingTable, dip ∈ x.subnet → ¬ x.subnet ⊂ e.subnet := by
  constructor
  · intro hlongest x hx hx'
    rw [subnet_ssubset_iff (hmasks e he) (hmasks x hx) hdip hx', UInt8.not_lt]
    exact hlongest.le x hx (matches_iff_mem_subnet.mpr hx')
  · intro hrefined
    refine ⟨he, matches_iff_mem_subnet.mpr hdip, fun x hx hmatch => ?_⟩
    have hx' := matches_iff_mem_subnet.mp hmatch
    have hnot := hrefined x hx hx'
    rwa [subnet_ssubset_iff (hmasks e he) (hmasks x hx) hdip hx', UInt8.not_lt] at hnot

/-- **Longest-prefix match.** On every table of validated masks a lookup finds a route if
and only if some subnet contains the address; the answer is then that of the first entry
among the containing ones of maximal prefix length; and those are the entries whose
subnets no containing entry refines. -/
theorem lookupRoute_longestPrefix (r : Router) (dip : IPv4Address)
    (hmasks : ∀ e ∈ r.routingTable, e.mask.Validated) :
    ((lookupRoute r dip).1 = true ↔ ∃ e ∈ r.routingTable, dip ∈ e.subnet) ∧
    ((lookupRoute r dip).1 = true → ∃ front e back, r.routingTable = front ++ e :: back ∧
      dip ∈ e.subnet ∧
      (∀ x ∈ r.routingTable, dip ∈ x.subnet → x.mask.toPrefixLength ≤ e.mask.toPrefixLength) ∧
      (∀ x ∈ front, dip ∈ x.subnet → x.mask.toPrefixLength < e.mask.toPrefixLength) ∧
      (lookupRoute r dip).2 = e.nextHopId) ∧
    ∀ e ∈ r.routingTable, dip ∈ e.subnet →
      ((∀ x ∈ r.routingTable, dip ∈ x.subnet →
          x.mask.toPrefixLength ≤ e.mask.toPrefixLength) ↔
        ∀ x ∈ r.routingTable, dip ∈ x.subnet → ¬ x.subnet ⊂ e.subnet) := by
  have hcontiguous : ∀ e ∈ r.routingTable, e.mask.Contiguous := fun e he => (hmasks e he).contiguous
  refine ⟨?_, fun hfound => ?_, fun e he hdip => ?_⟩
  · simp only [← matches_iff_mem_subnet]
    exact lookupRoute_found_iff
  · unfold lookupRoute at hfound ⊢
    rcases foldl_lookupStep_first dip r.routingTable with
      ⟨hnone, -⟩ | ⟨front, e, back, hsplit, hlongest, hfront, hsome⟩
    · rw [hnone] at hfound
      nomatch hfound
    · simp only [← matches_iff_mem_subnet]
      exact ⟨front, e, back, hsplit, hlongest.isMatch, hlongest.le, hfront, by rw [hsome]⟩
  · rw [← longest_iff_not_ssubset hcontiguous he hdip]
    simp only [← matches_iff_mem_subnet]
    exact ⟨fun hle => ⟨he, matches_iff_mem_subnet.mpr hdip, hle⟩, fun h => h.le⟩

/-- A default route, a network and a host route. -/
def nestedTable : List RoutingTableEntry :=
  [⟨⟨0x00000000⟩, ⟨0x00000000⟩, 1, "eth0", 10⟩, ⟨⟨0x0A000000⟩, ⟨0xFF000000⟩, 2, "eth0", 5⟩,
    ⟨⟨0x0A000001⟩, ⟨0xFFFFFFFF⟩, 3, "eth0", 1⟩]

/-- The text `255.0.0.0`. -/
def classA : List UInt8 := "255.0.0.0".toUTF8.toList

theorem nestedTable_validated : ∀ e ∈ nestedTable, e.mask.Validated := by
  intro e he
  rcases List.mem_cons.mp he with rfl | he
  · exact Or.inl ⟨0, by decide⟩
  · rcases List.mem_cons.mp he with rfl | he
    · exact Or.inr ⟨classA, by decide +kernel⟩
    · obtain rfl := List.mem_singleton.mp he
      exact Or.inl ⟨32, by decide⟩

theorem lookupRoute_longestPrefix_nested :
    let r : Router := ⟨1, nestedTable, ∅⟩
    ((lookupRoute r ⟨0x0A000002⟩).1 = true ↔
      ∃ e ∈ r.routingTable, (⟨0x0A000002⟩ : IPv4Address) ∈ e.subnet) ∧
    ((lookupRoute r ⟨0x0A000002⟩).1 = true →
      ∃ front e back, r.routingTable = front ++ e :: back ∧
        (⟨0x0A000002⟩ : IPv4Address) ∈ e.subnet ∧
        (∀ x ∈ r.routingTable, ⟨0x0A000002⟩ ∈ x.subnet →
          x.mask.toPrefixLength ≤ e.mask.toPrefixLength) ∧
        (∀ x ∈ front, ⟨0x0A000002⟩ ∈ x.subnet →
          x.mask.toPrefixLength < e.mask.toPrefixLength) ∧
        (lookupRoute r ⟨0x0A000002⟩).2 = e.nextHopId) ∧
    ∀ e ∈ r.routingTable, ⟨0x0A000002⟩ ∈ e.subnet →
      ((∀ x ∈ r.routingTable, ⟨0x0A000002⟩ ∈ x.subnet →
          x.mask.toPrefixLength ≤ e.mask.toPrefixLength) ↔
        ∀ x ∈ r.routingTable, ⟨0x0A000002⟩ ∈ x.subnet → ¬ x.subnet ⊂ e.subnet) :=
  lookupRoute_longestPrefix ⟨1, nestedTable, ∅⟩ ⟨0x0A000002⟩ nestedTable_validated

end Netsim.Network
