import Mathlib.Data.Vector.Basic

/-!
# Words and blocks of memory

A 32-bit word as the machine stores it, in either byte order, and as it travels. A
block of memory is a vector of bytes; copying into it succeeds when source and
destination both hold what is copied, and only then.
-/

namespace Foundation

/-- The byte order of the machine. -/
inductive Endian where
  | little
  | big
deriving DecidableEq, Repr

/-- The number that bytes denote, most significant byte first. -/
def bigEndian (bytes : List UInt8) : ℕ := bytes.foldl (fun n b => n * 256 + b.toNat) 0

/-- The bytes of a word as it travels. -/
def networkBytes (x : UInt32) : List UInt8 :=
  [(x >>> 24).toUInt8, (x >>> 16).toUInt8, (x >>> 8).toUInt8, x.toUInt8]

/-- The bytes of a word in memory. -/
def storeWord (e : Endian) (x : UInt32) : List UInt8 :=
  match e with
  | .big => networkBytes x
  | .little => (networkBytes x).reverse

/-- The word that four bytes of memory hold. -/
def loadWord (e : Endian) (bytes : List UInt8) : UInt32 :=
  match e with
  | .big => UInt32.ofNat (bigEndian bytes)
  | .little => UInt32.ofNat (bigEndian bytes.reverse)

/-- The word whose bytes in memory are those that travel. -/
def htonl (e : Endian) (x : UInt32) : UInt32 := loadWord e (networkBytes x)

/-- The word that the bytes in memory denote when they have travelled. -/
def ntohl (e : Endian) (x : UInt32) : UInt32 := UInt32.ofNat (bigEndian (storeWord e x))

variable {e : Endian} {x : UInt32} {bytes : List UInt8}

@[simp] theorem length_networkBytes (x : UInt32) : (networkBytes x).length = 4 := rfl

@[simp] theorem length_storeWord (e : Endian) (x : UInt32) : (storeWord e x).length = 4 := by
  cases e <;> rfl

theorem bigEndian_networkBytes (x : UInt32) : bigEndian (networkBytes x) = x.toNat := by
  have hx : x.toNat < 2 ^ 32 := x.toNat_lt
  simp only [bigEndian, networkBytes, List.foldl_cons, List.foldl_nil, UInt32.toNat_toUInt8,
    UInt32.toNat_shiftRight, Nat.shiftRight_eq_div_pow, UInt32.reduceToNat, Nat.reduceMod,
    Nat.reducePow]
  omega

theorem bigEndian_lt (h : bytes.length = 4) : bigEndian bytes < 2 ^ 32 := by
  match bytes, h with
  | [a, b, c, d], _ =>
      simp only [bigEndian, List.foldl_cons, List.foldl_nil]
      have ha := a.toNat_lt
      have hb := b.toNat_lt
      have hc := c.toNat_lt
      have hd := d.toNat_lt
      omega

/-- Four bytes are those of the number they denote. -/
theorem networkBytes_bigEndian (h : bytes.length = 4) :
    networkBytes (UInt32.ofNat (bigEndian bytes)) = bytes := by
  have hbound := bigEndian_lt h
  match bytes, h with
  | [a, b, c, d], _ =>
      have ha := a.toNat_lt
      have hb := b.toNat_lt
      have hc := c.toNat_lt
      have hd := d.toNat_lt
      simp only [networkBytes, List.cons.injEq, and_true, ← UInt8.toNat_inj, UInt32.toNat_toUInt8,
        UInt32.toNat_shiftRight, Nat.shiftRight_eq_div_pow, UInt32.toNat_ofNat_of_lt' hbound,
        UInt32.reduceToNat, Nat.reduceMod, Nat.reducePow]
      simp only [bigEndian, List.foldl_cons, List.foldl_nil]
      omega

/-- What a word in network order looks like in memory. -/
theorem storeWord_htonl (e : Endian) (x : UInt32) : storeWord e (htonl e x) = networkBytes x := by
  cases e with
  | big => exact networkBytes_bigEndian (length_networkBytes x)
  | little =>
      unfold storeWord htonl loadWord
      dsimp only
      rw [networkBytes_bigEndian (by simp), List.reverse_reverse]

/-- Reading a word that has travelled. -/
theorem ntohl_loadWord (e : Endian) (h : bytes.length = 4) :
    ntohl e (loadWord e bytes) = UInt32.ofNat (bigEndian bytes) := by
  unfold ntohl
  cases e with
  | big =>
      unfold storeWord loadWord
      dsimp only
      rw [networkBytes_bigEndian h]
  | little =>
      unfold storeWord loadWord
      dsimp only
      rw [networkBytes_bigEndian (by simpa using h), List.reverse_reverse]

/-! ### Blocks -/

variable {m : ℕ}

/-- `memcpy(dst + offset, src, n)`; `none` is an access outside `dst` or `src`. -/
def memcpy (dst : List.Vector UInt8 m) (offset : ℕ) (src : List UInt8) (n : ℕ) :
    Option (List.Vector UInt8 m) :=
  if h : n ≤ src.length ∧ offset + n ≤ m then
    some ⟨dst.toList.take offset ++ src.take n ++ dst.toList.drop (offset + n), by
      simp
      omega⟩
  else none

/-- **A copy within bounds** replaces the bytes from the offset on. -/
theorem memcpy_of_le (dst : List.Vector UInt8 m) {offset n : ℕ} {src : List UInt8}
    (hsrc : n ≤ src.length) (hdst : offset + n ≤ m) :
    ∃ out, memcpy dst offset src n = some out ∧
      out.toList = dst.toList.take offset ++ src.take n ++ dst.toList.drop (offset + n) :=
  ⟨_, dif_pos ⟨hsrc, hdst⟩, rfl⟩

end Foundation
