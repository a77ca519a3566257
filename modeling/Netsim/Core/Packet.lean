import Netsim.Foundation.ByteOrder

/-!
# The packet

`core/packet.hpp` and `packet.cpp`: a packed header of six bytes and a payload of
fixed size, flattened to bytes and rebuilt from them. The byte order of the host is a
parameter. Every `memcpy` is checked against both of its ranges, and an access outside
them is a fault of its own, apart from the exceptions that `deserialize` throws.
-/

namespace Netsim.Core

open Foundation

structure PacketHeader where
  version : UInt8
  type : UInt8
  length : UInt32
deriving DecidableEq, Repr

/-- `sizeof(PacketHeader)`, which is packed. -/
def headerSize : ℕ := 6

/-- The size of the payload array. -/
def mtu : ℕ := 1500

structure Packet where
  header : PacketHeader
  payload : List.Vector UInt8 mtu
deriving DecidableEq

inductive Failure where
  | runtimeError (what : String)
  | outOfBounds
deriving DecidableEq, Repr

/-- `std::memcpy`, with its accesses checked. -/
def copy {m : ℕ} (dst : List.Vector UInt8 m) (offset : ℕ) (src : List UInt8) (n : ℕ) :
    Except Failure (List.Vector UInt8 m) :=
  match memcpy dst offset src n with
  | some out => .ok out
  | none => .error .outOfBounds

namespace PacketHeader

/-- The header in memory. -/
def image (e : Endian) (header : PacketHeader) : List.Vector UInt8 headerSize :=
  ⟨header.version :: header.type :: storeWord e header.length, by simp [headerSize]⟩

/-- The header that six bytes of memory hold. -/
def ofImage (e : Endian) (image : List.Vector UInt8 headerSize) : PacketHeader :=
  ⟨image.get ⟨0, by decide⟩, image.get ⟨1, by decide⟩, loadWord e (image.toList.drop 2)⟩

end PacketHeader

namespace Packet

/-- `Packet()`: all bytes are zero. -/
def zero : Packet := ⟨⟨0, 0, 0⟩, List.Vector.replicate mtu 0⟩

/-- The header that both data constructors write, and the copy of the data after it. -/
def withPayload (msgType : UInt8) (length : UInt32) (data : Option (List UInt8)) :
    Except Failure Packet :=
  let header : PacketHeader := ⟨1, msgType, length⟩
  match data with
  | some bytes =>
      if length > 0 then
        (copy zero.payload 0 bytes length.toNat).map fun payload => ⟨header, payload⟩
      else .ok ⟨header, zero.payload⟩
  | none => .ok ⟨header, zero.payload⟩

/-- `Packet(uint8_t, const uint8_t*, uint32_t)`; a pointer is null, or the memory that
can be read from there. -/
def ofPointer (msgType : UInt8) (data : Option (List UInt8)) (len : UInt32) :
    Except Failure Packet :=
  withPayload msgType (if len > 1500 then 1500 else len) data

/-- `Packet(uint8_t, const std::vector<uint8_t>&)`. -/
def ofVector (msgType : UInt8) (data : List UInt8) : Except Failure Packet :=
  withPayload msgType (UInt32.ofNat (if data.length > 1500 then 1500 else data.length))
    (if data ≠ [] then some data else none)

def serialize (e : Endian) (pkt : Packet) : Except Failure (List UInt8) := do
  let length := pkt.header.length
  let buffer : List.Vector UInt8 (headerSize + length.toNat) := List.Vector.replicate _ 0
  let netHeader : PacketHeader := { pkt.header with length := htonl e length }
  let buffer ← copy buffer 0 (netHeader.image e).toList headerSize
  let buffer ← (if length > 0 then copy buffer headerSize pkt.payload.toList length.toNat
    else .ok buffer)
  .ok buffer.toList

def deserialize (e : Endian) (raw : List UInt8) : Except Failure Packet :=
  if raw.length < headerSize then .error (.runtimeError "Buffer too small for header")
  else do
    let image ← copy (zero.header.image e) 0 raw headerSize
    let header := PacketHeader.ofImage e image
    let header := { header with length := ntohl e header.length }
    if header.length > 1500 then
      .error (.runtimeError "Parsed payload length exceeds MTU limit")
    else if raw.length < headerSize + header.length.toNat then
      .error (.runtimeError "Payload truncated")
    else do
      let payload ← (if header.length > 0 then
          copy zero.payload 0 (raw.drop headerSize) header.length.toNat
        else .ok zero.payload)
      .ok ⟨header, payload⟩

/-! ### What the copies do -/

/-- A payload that starts with the given bytes and is zero after them. -/
def padded (bytes : List UInt8) : List.Vector UInt8 mtu :=
  ⟨(bytes ++ List.replicate mtu 0).take mtu, by simp⟩

/-- What travels. -/
def wire (pkt : Packet) : List UInt8 :=
  pkt.header.version :: pkt.header.type ::
    (networkBytes pkt.header.length ++ pkt.payload.toList.take pkt.header.length.toNat)

variable {e : Endian} {pkt : Packet} {bytes src raw : List UInt8} {length : UInt32}
  {msgType : UInt8}

theorem toList_padded (h : bytes.length ≤ mtu) :
    (padded bytes).toList = bytes ++ List.replicate (mtu - bytes.length) 0 := by
  show (bytes ++ List.replicate mtu 0).take mtu = _
  rw [List.take_append, List.take_of_length_le h, List.take_replicate, Nat.min_eq_left]
  exact Nat.sub_le _ _

theorem copy_of_le {m : ℕ} (dst : List.Vector UInt8 m) {offset n : ℕ} (hsrc : n ≤ src.length)
    (hdst : offset + n ≤ m) :
    ∃ out, copy dst offset src n = .ok out ∧
      out.toList = dst.toList.take offset ++ src.take n ++ dst.toList.drop (offset + n) := by
  obtain ⟨out, hout, htext⟩ := memcpy_of_le dst hsrc hdst
  refine ⟨out, ?_, htext⟩
  unfold copy
  rw [hout]

/-- A copy of the bytes at the front of a source. -/
theorem copy_front {m : ℕ} (dst : List.Vector UInt8 m) {front : List UInt8} (rest : List UInt8)
    (hdst : front.length ≤ m) :
    ∃ out, copy dst 0 (front ++ rest) front.length = .ok out ∧
      out.toList = front ++ dst.toList.drop front.length := by
  have hsrc : front.length ≤ (front ++ rest).length := by
    rw [List.length_append]
    exact Nat.le_add_right _ _
  have hroom : 0 + front.length ≤ m := by rwa [Nat.zero_add]
  obtain ⟨out, hout, htext⟩ := copy_of_le dst hsrc hroom
  refine ⟨out, hout, ?_⟩
  rw [htext, List.take_zero, List.nil_append, List.take_left, Nat.zero_add]

/-- A copy into an empty payload. -/
theorem copy_zero {n : ℕ} (hsrc : n ≤ src.length) (hn : n ≤ mtu) :
    copy zero.payload 0 src n = .ok (padded (src.take n)) := by
  have hlength : (src.take n).length = n := List.length_take_of_le hsrc
  have hzero : zero.payload.toList = List.replicate mtu 0 := rfl
  obtain ⟨out, hout, htext⟩ := copy_front zero.payload (src.drop n) (hlength.symm ▸ hn)
  rw [List.take_append_drop, hlength] at hout
  rw [hout]
  refine congrArg _ (List.Vector.eq _ _ ?_)
  rw [htext, toList_padded (hlength.symm ▸ hn), hzero, List.drop_replicate]

/-- Nothing is copied when there is nothing to copy, so the guard changes nothing. -/
theorem copy_guarded {m : ℕ} (dst : List.Vector UInt8 m) {offset : ℕ} (src : List UInt8)
    (hoffset : offset ≤ m) :
    (if length > 0 then copy dst offset src length.toNat else .ok dst) =
      copy dst offset src length.toNat := by
  by_cases hpos : length > 0
  · rw [if_pos hpos]
  · have hzero : length.toNat = 0 :=
      Nat.le_zero.mp (UInt32.le_iff_toNat_le.mp (UInt32.not_lt.mp hpos))
    obtain ⟨out, hout, htext⟩ := copy_of_le dst (Nat.zero_le src.length) hoffset
    rw [if_neg hpos, hzero, hout]
    refine congrArg _ (List.Vector.eq _ _ ?_)
    rw [htext, List.take_zero, List.append_nil, Nat.add_zero, List.take_append_drop]

theorem fill_payload (hsrc : length.toNat ≤ src.length) (hlength : length.toNat ≤ mtu) :
    (if length > 0 then copy zero.payload 0 src length.toNat else .ok zero.payload) =
      .ok (padded (src.take length.toNat)) :=
  (copy_guarded zero.payload src (Nat.zero_le _)).trans (copy_zero hsrc hlength)

theorem withPayload_some (hsrc : length.toNat ≤ bytes.length) (hlength : length.toNat ≤ mtu) :
    withPayload msgType length (some bytes) =
      .ok ⟨⟨1, msgType, length⟩, padded (bytes.take length.toNat)⟩ := by
  have hfill := fill_payload hsrc hlength
  unfold withPayload
  dsimp only
  by_cases hpos : length > 0
  · rw [if_pos hpos] at hfill ⊢
    rw [hfill]
    rfl
  · rw [if_neg hpos] at hfill ⊢
    rw [Except.ok.inj hfill]

/-- **Encoding.** A packet whose length fits its payload is written out in full. -/
theorem serialize_of_le (e : Endian) (h : pkt.header.length.toNat ≤ mtu) :
    serialize e pkt = .ok pkt.wire := by
  obtain ⟨⟨version, type, length⟩, payload⟩ := pkt
  dsimp only at h
  have himage : (PacketHeader.image e ⟨version, type, htonl e length⟩).toList =
      version :: type :: networkBytes length := by
    show version :: type :: storeWord e (htonl e length) = _
    rw [storeWord_htonl]
  have hsize : (version :: type :: networkBytes length).length = headerSize := rfl
  have hroom : headerSize ≤ headerSize + length.toNat := Nat.le_add_right _ _
  -- the header, then the payload behind it
  obtain ⟨buffer, hbuffer, htext⟩ :=
    copy_front (List.Vector.replicate (headerSize + length.toNat) 0) [] (hsize.symm ▸ hroom)
  rw [List.append_nil, hsize] at hbuffer
  have hsrc : length.toNat ≤ payload.toList.length := by rwa [List.Vector.toList_length]
  obtain ⟨out, hout, hwire⟩ := copy_of_le buffer hsrc (Nat.le_refl _)
  rw [List.drop_of_length_le (Nat.le_of_eq (List.Vector.toList_length _)), List.append_nil, htext,
    List.take_left' hsize] at hwire
  unfold serialize
  dsimp only
  rw [himage, hbuffer]
  dsimp only [bind, Except.bind]
  rw [copy_guarded buffer _ hroom, hout]
  exact congrArg Except.ok hwire

/-- The header at the start of the bytes. -/
theorem copy_header (e : Endian) (version type : UInt8) {word : List UInt8}
    (hword : word.length = 4) (rest : List UInt8) :
    ∃ image, copy (zero.header.image e) 0 (version :: type :: (word ++ rest)) headerSize =
        .ok image ∧ PacketHeader.ofImage e image = ⟨version, type, loadWord e word⟩ := by
  have hsize : (version :: type :: word).length = headerSize := by
    rw [List.length_cons, List.length_cons, hword]
    rfl
  obtain ⟨image, himage, htext⟩ :=
    copy_front (zero.header.image e) rest (Nat.le_of_eq hsize)
  rw [hsize] at himage
  refine ⟨image, himage, ?_⟩
  have hvalue : image = ⟨version :: type :: word, hsize⟩ := by
    apply List.Vector.eq
    rw [htext, hsize, List.drop_of_length_le (Nat.le_of_eq (List.Vector.toList_length _)),
      List.append_nil]
    rfl
  rw [hvalue]
  rfl

theorem deserialize_short (e : Endian) (h : raw.length < headerSize) :
    deserialize e raw = .error (.runtimeError "Buffer too small for header") := by
  unfold deserialize
  rw [if_pos h]

/-- **Decoding**, read off the bytes. -/
theorem deserialize_eq (e : Endian) (version type : UInt8) {word : List UInt8}
    (hword : word.length = 4) (rest : List UInt8) :
    deserialize e (version :: type :: (word ++ rest)) =
      if bigEndian word > mtu then
        .error (.runtimeError "Parsed payload length exceeds MTU limit")
      else if rest.length < bigEndian word then .error (.runtimeError "Payload truncated")
      else .ok ⟨⟨version, type, UInt32.ofNat (bigEndian word)⟩,
        padded (rest.take (bigEndian word))⟩ := by
  have hlength : (UInt32.ofNat (bigEndian word)).toNat = bigEndian word :=
    UInt32.toNat_ofNat_of_lt' (bigEndian_lt hword)
  have hsize : (version :: type :: (word ++ rest)).length = headerSize + rest.length := by
    rw [List.length_cons, List.length_cons, List.length_append, hword]
    unfold headerSize
    omega
  have hdrop : (version :: type :: (word ++ rest)).drop headerSize = rest := by
    show (word ++ rest).drop 4 = rest
    exact List.drop_left' hword
  have hlarge : UInt32.ofNat (bigEndian word) > 1500 ↔ bigEndian word > mtu := by
    rw [gt_iff_lt, UInt32.lt_iff_toNat_lt, hlength]
    rfl
  obtain ⟨image, himage, hheader⟩ := copy_header e version type hword rest
  unfold deserialize
  rw [if_neg (by rw [hsize]; exact Nat.not_lt.mpr (Nat.le_add_right _ _)), himage]
  dsimp only [bind, Except.bind]
  rw [hheader]
  dsimp only
  rw [ntohl_loadWord e hword, hsize, hdrop, hlength]
  by_cases hmtu : bigEndian word > mtu
  · rw [if_pos (hlarge.mpr hmtu), if_pos hmtu]
  · rw [if_neg (mt hlarge.mp hmtu), if_neg hmtu]
    by_cases hshort : rest.length < bigEndian word
    · rw [if_pos hshort, if_pos (Nat.add_lt_add_left hshort _)]
    · have hfill := @fill_payload rest (UInt32.ofNat (bigEndian word))
      rw [hlength] at hfill
      rw [if_neg hshort, if_neg (fun h => hshort (Nat.lt_of_add_lt_add_left h)),
        hfill (Nat.not_lt.mp hshort) (Nat.not_lt.mp hmtu)]

/-! ### Round trips -/

/-- The packet that a data constructor makes. -/
structure Carries (msgType : UInt8) (data : List UInt8) (pkt : Packet) : Prop where
  version : pkt.header.version = 1
  type : pkt.header.type = msgType
  length : pkt.header.length.toNat = min data.length 1500
  data : pkt.payload.toList.take pkt.header.length.toNat = data.take pkt.header.length.toNat
  rest : ∀ b ∈ pkt.payload.toList.drop pkt.header.length.toNat, b = 0

/-- Decoding the encoded packet gives the packet back, all of it. -/
def RoundTrips (e : Endian) (pkt : Packet) : Prop :=
  ∃ bytes, serialize e pkt = .ok bytes ∧ deserialize e bytes = .ok pkt

/-- The packets that the constructors and `deserialize` return. -/
inductive Produced (e : Endian) : Packet → Prop where
  | zero : Produced e zero
  | ofPointer {msgType : UInt8} {data : Option (List UInt8)} {len : UInt32} {pkt : Packet}
      (h : ofPointer msgType data len = .ok pkt) : Produced e pkt
  | ofVector {msgType : UInt8} {data : List UInt8} {pkt : Packet}
      (h : ofVector msgType data = .ok pkt) : Produced e pkt
  | deserialize {raw : List UInt8} {pkt : Packet} (h : deserialize e raw = .ok pkt) :
      Produced e pkt

theorem deserialize_wire (e : Endian) (version type : UInt8) (hlength : length.toNat ≤ mtu)
    (hbytes : bytes.length = length.toNat) :
    RoundTrips e ⟨⟨version, type, length⟩, padded bytes⟩ := by
  refine ⟨_, serialize_of_le e hlength, ?_⟩
  have htake : (padded bytes).toList.take length.toNat = bytes := by
    rw [toList_padded (hbytes ▸ hlength), ← hbytes, List.take_left]
  unfold wire
  dsimp only
  rw [htake, deserialize_eq e version type (length_networkBytes length), bigEndian_networkBytes,
    if_neg (Nat.not_lt.mpr hlength), if_neg (Nat.not_lt.mpr (Nat.le_of_eq hbytes.symm)),
    UInt32.ofNat_toNat, List.take_of_length_le (Nat.le_of_eq hbytes)]

theorem carries_padded (hdata : length.toNat = min bytes.length 1500) :
    Carries msgType bytes ⟨⟨1, msgType, length⟩, padded (bytes.take length.toNat)⟩ := by
  have hlength : (bytes.take length.toNat).length = length.toNat :=
    List.length_take_of_le (hdata ▸ Nat.min_le_left _ _)
  have hpayload : (padded (bytes.take length.toNat)).toList =
      bytes.take length.toNat ++ List.replicate (mtu - length.toNat) 0 := by
    rw [toList_padded, hlength]
    rw [hlength, hdata]
    exact Nat.min_le_right _ _
  refine ⟨rfl, rfl, hdata, ?_, ?_⟩
  · dsimp only
    rw [hpayload, List.take_left' hlength]
  · dsimp only
    rw [hpayload, List.drop_left' hlength]
    exact fun b hb => List.eq_of_mem_replicate hb

/-- What a data constructor makes of enough data. -/
theorem withPayload_carries (e : Endian) (rest : List UInt8)
    (hdata : length.toNat = min bytes.length 1500) :
    ∃ pkt, withPayload msgType length (some (bytes ++ rest)) = .ok pkt ∧
      Carries msgType bytes pkt ∧ RoundTrips e pkt := by
  have hbytes : length.toNat ≤ bytes.length := hdata ▸ Nat.min_le_left _ _
  have hlength : length.toNat ≤ mtu := hdata ▸ Nat.min_le_right _ _
  have hsrc : length.toNat ≤ (bytes ++ rest).length := by
    rw [List.length_append]
    exact Nat.le_trans hbytes (Nat.le_add_right _ _)
  have hsome : withPayload msgType length (some (bytes ++ rest)) = _ :=
    withPayload_some hsrc hlength
  rw [List.take_append_of_le_length hbytes] at hsome
  exact ⟨_, hsome, carries_padded hdata,
    deserialize_wire e 1 msgType hlength (List.length_take_of_le hbytes)⟩

theorem toNat_clampPointer (len : UInt32) :
    (if len > 1500 then 1500 else len : UInt32).toNat = min len.toNat 1500 := by
  by_cases h : len > 1500
  · rw [if_pos h]
    exact (Nat.min_eq_right (Nat.le_of_lt (UInt32.lt_iff_toNat_lt.mp h))).symm
  · rw [if_neg h]
    exact (Nat.min_eq_left (UInt32.le_iff_toNat_le.mp (UInt32.not_lt.mp h))).symm

theorem toNat_clampVector (n : ℕ) :
    (UInt32.ofNat (if n > 1500 then 1500 else n)).toNat = min n 1500 := by
  by_cases h : n > 1500
  · rw [if_pos h, Nat.min_eq_right (Nat.le_of_lt h)]
    rfl
  · rw [if_neg h, Nat.min_eq_left (Nat.not_lt.mp h)]
    exact UInt32.toNat_ofNat_of_lt' (Nat.lt_of_le_of_lt (Nat.not_lt.mp h) (by decide))

/-- An empty vector has no data to copy, and its length says so too. -/
theorem ofVector_eq (msgType : UInt8) (data : List UInt8) :
    ofVector msgType data =
      withPayload msgType (UInt32.ofNat (if data.length > 1500 then 1500 else data.length))
        (some data) := by
  unfold ofVector
  by_cases hempty : data = []
  · subst hempty
    rfl
  · rw [if_pos hempty]

theorem withPayload_length {data : Option (List UInt8)}
    (h : withPayload msgType length data = .ok pkt) : pkt.header.length = length := by
  unfold withPayload at h
  cases data with
  | none => rw [← Except.ok.inj h]
  | some bytes =>
      dsimp only at h
      split_ifs at h
      · cases hcopy : copy zero.payload 0 bytes length.toNat with
        | error f =>
            rw [hcopy] at h
            nomatch h
        | ok payload =>
            rw [hcopy] at h
            rw [← Except.ok.inj h]
      · rw [← Except.ok.inj h]

/-- Six bytes hold a header. -/
theorem exists_header (h : headerSize ≤ raw.length) :
    ∃ version type word rest, word.length = 4 ∧ raw = version :: type :: (word ++ rest) := by
  match raw, h with
  | version :: type :: a :: b :: c :: d :: rest, _ =>
      exact ⟨version, type, [a, b, c, d], rest, rfl, rfl⟩

/-- The bytes two to five. -/
theorem take_word {version type : UInt8} {word rest : List UInt8} (hword : word.length = 4) :
    ((version :: type :: (word ++ rest)).drop 2).take 4 = word := by
  show (word ++ rest).take 4 = word
  exact List.take_left' hword

/-- **What is accepted**, and the packet made of it. -/
theorem deserialize_ok (h : deserialize e raw = .ok pkt) :
    ∃ version type word rest, word.length = 4 ∧ raw = version :: type :: (word ++ rest) ∧
      bigEndian word ≤ mtu ∧ bigEndian word ≤ rest.length ∧
      pkt = ⟨⟨version, type, UInt32.ofNat (bigEndian word)⟩,
        padded (rest.take (bigEndian word))⟩ := by
  by_cases hshort : raw.length < headerSize
  · rw [deserialize_short e hshort] at h
    nomatch h
  · obtain ⟨version, type, word, rest, hword, rfl⟩ := exists_header (Nat.not_lt.mp hshort)
    rw [deserialize_eq e version type hword] at h
    split_ifs at h with hmtu hrest
    exact ⟨version, type, word, rest, hword, rfl, Nat.not_lt.mp hmtu, Nat.not_lt.mp hrest,
      (Except.ok.inj h).symm⟩

/-- No copy of `deserialize` leaves its bounds. -/
theorem deserialize_ne_outOfBounds (e : Endian) (raw : List UInt8) :
    deserialize e raw ≠ .error .outOfBounds := by
  by_cases hshort : raw.length < headerSize
  · rw [deserialize_short e hshort]
    simp
  · obtain ⟨version, type, word, rest, hword, rfl⟩ := exists_header (Nat.not_lt.mp hshort)
    rw [deserialize_eq e version type hword]
    split_ifs <;> simp

/-- The header decides what is refused. -/
theorem deserialize_error_iff (e : Endian) (version type : UInt8) {word : List UInt8}
    (hword : word.length = 4) (rest : List UInt8) :
    (∃ what, deserialize e (version :: type :: (word ++ rest)) = .error (.runtimeError what)) ↔
      bigEndian word > mtu ∨ rest.length < bigEndian word := by
  rw [deserialize_eq e version type hword]
  split_ifs with hmtu hrest
  · exact iff_of_true ⟨_, rfl⟩ (Or.inl hmtu)
  · exact iff_of_true ⟨_, rfl⟩ (Or.inr hrest)
  · exact iff_of_false (fun ⟨_, h⟩ => nomatch h) (not_or.mpr ⟨hmtu, hrest⟩)

/-- What follows an accepted packet is not looked at. -/
theorem deserialize_append (h : deserialize e raw = .ok pkt) (more : List UInt8) :
    deserialize e (raw ++ more) = .ok pkt := by
  obtain ⟨version, type, word, rest, hword, rfl, hmtu, hrest, rfl⟩ := deserialize_ok h
  have hmore : version :: type :: (word ++ rest) ++ more =
      version :: type :: (word ++ (rest ++ more)) := by simp
  have hlonger : bigEndian word ≤ (rest ++ more).length := by
    rw [List.length_append]
    exact Nat.le_trans hrest (Nat.le_add_right _ _)
  rw [hmore, deserialize_eq e version type hword, if_neg (Nat.not_lt.mpr hmtu),
    if_neg (Nat.not_lt.mpr hlonger), List.take_append_of_le_length hrest]

/-- An accepted packet is written back as its header and payload were read. -/
theorem serialize_of_deserialize {version type : UInt8} {word rest : List UInt8}
    (hword : word.length = 4) (hmtu : bigEndian word ≤ mtu)
    (hrest : bigEndian word ≤ rest.length) :
    serialize e ⟨⟨version, type, UInt32.ofNat (bigEndian word)⟩,
        padded (rest.take (bigEndian word))⟩ =
      .ok (version :: type :: (word ++ rest.take (bigEndian word))) := by
  have hlength := UInt32.toNat_ofNat_of_lt' (bigEndian_lt hword)
  have htake : (rest.take (bigEndian word)).length = bigEndian word :=
    List.length_take_of_le hrest
  rw [serialize_of_le e (hlength.symm ▸ hmtu)]
  unfold wire
  dsimp only
  rw [networkBytes_bigEndian hword, hlength, toList_padded (htake.symm ▸ hmtu),
    List.take_left' htake]

/-- Every packet that is produced has a length its payload can hold. -/
theorem Produced.length_le (h : Produced e pkt) : pkt.header.length.toNat ≤ mtu := by
  cases h with
  | zero => exact Nat.zero_le _
  | ofPointer h =>
      rw [withPayload_length h, toNat_clampPointer]
      exact Nat.min_le_right _ _
  | ofVector h =>
      rw [withPayload_length h, toNat_clampVector]
      exact Nat.min_le_right _ _
  | deserialize h =>
      obtain ⟨version, type, word, rest, hword, -, hmtu, -, rfl⟩ := deserialize_ok h
      dsimp only
      rwa [UInt32.toNat_ofNat_of_lt' (bigEndian_lt hword)]

/-- **Decoding undoes encoding.** Both data constructors make a packet that carries the
data up to 1500 bytes, and that comes back from its encoding with every byte; and no
packet that is produced makes `serialize` read past its payload. -/
theorem packet_roundTrip (e : Endian) (msgType : UInt8) (data : List UInt8) :
    (∃ pkt, ofVector msgType data = .ok pkt ∧ Carries msgType data pkt ∧ RoundTrips e pkt) ∧
    (∀ (len : UInt32) (beyond : List UInt8), len.toNat = data.length →
      ∃ pkt, ofPointer msgType (some (data ++ beyond)) len = .ok pkt ∧
        Carries msgType data pkt ∧ RoundTrips e pkt) ∧
    ∀ pkt, Produced e pkt →
      pkt.header.length ≤ 1500 ∧ ∃ bytes, serialize e pkt = .ok bytes := by
  refine ⟨?_, fun len beyond hlen => ?_, fun pkt hpkt => ?_⟩
  · have hcarries := @withPayload_carries data _ msgType e [] (toNat_clampVector data.length)
    rw [List.append_nil] at hcarries
    rw [ofVector_eq]
    exact hcarries
  · exact withPayload_carries e beyond (hlen ▸ toNat_clampPointer len)
  · exact ⟨UInt32.le_iff_toNat_le.mpr hpkt.length_le, _, serialize_of_le e hpkt.length_le⟩

/-- **Decoding loses nothing.** With `L` the number in bytes two to five, the bytes are
refused exactly when they are fewer than a header, `L` exceeds the payload, or they end
before `L` more bytes; no copy leaves its bounds; and an accepted packet is written
back as the bytes it was read from, whatever follows them. -/
theorem deserialize_accepts (e : Endian) (raw : List UInt8) :
    ((∃ what, deserialize e raw = .error (.runtimeError what)) ↔
      raw.length < 6 ∨ bigEndian ((raw.drop 2).take 4) > 1500 ∨
        raw.length < 6 + bigEndian ((raw.drop 2).take 4)) ∧
    deserialize e raw ≠ .error .outOfBounds ∧
    ∀ pkt, deserialize e raw = .ok pkt →
      serialize e pkt = .ok (raw.take (6 + bigEndian ((raw.drop 2).take 4))) ∧
      ∀ more, deserialize e (raw ++ more) = .ok pkt := by
  by_cases hshort : raw.length < headerSize
  · refine ⟨iff_of_true ⟨_, deserialize_short e hshort⟩ (Or.inl hshort),
      deserialize_ne_outOfBounds e raw, fun pkt hok => ?_⟩
    rw [deserialize_short e hshort] at hok
    nomatch hok
  · refine ⟨?_, deserialize_ne_outOfBounds e raw, fun pkt hok => ⟨?_, deserialize_append hok⟩⟩
    · obtain ⟨version, type, word, rest, hword, rfl⟩ := exists_header (Nat.not_lt.mp hshort)
      have hlength : (version :: type :: (word ++ rest)).length = 6 + rest.length := by
        rw [List.length_cons, List.length_cons, List.length_append, hword]
        omega
      rw [deserialize_error_iff e version type hword, take_word hword, hlength,
        Nat.add_lt_add_iff_left]
      exact (or_iff_right (Nat.not_lt.mpr (Nat.le_add_right 6 _))).symm
    · obtain ⟨version, type, word, rest, hword, rfl, hmtu, hrest, rfl⟩ := deserialize_ok hok
      rw [serialize_of_deserialize hword hmtu hrest, take_word hword, Nat.add_comm]
      have hword4 : word.take (bigEndian word + 4) = word :=
        List.take_of_length_le (hword ▸ Nat.le_add_left _ _)
      show Except.ok _ = Except.ok (version :: type :: (word ++ rest).take (bigEndian word + 4))
      rw [List.take_append, hword4, hword, Nat.add_sub_cancel]

end Packet

end Netsim.Core
