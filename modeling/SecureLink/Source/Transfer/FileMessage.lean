import SecureLink.Library.Files
import SecureLink.Source.Store.Codec
import SecureLink.Source.Wire.Fields

/-!
# File transfer messages

src/sl_file_meta.c:28-95 and src/sl_file_chunk.c:17-60. A name is what its array holds in front of
the terminator; the data pointer of an empty chunk, `NULL`, is the empty list.
-/
namespace SecureLink.Source.Transfer
open Library.BigEndian Library.Files Wire
open Store (slCrc32c)

def slFileMetaFixedLen : Nat := 82
def slFileNameMax : Nat := 256
def slFileChunkMin : UInt32 := 1024
def slFileChunkMax : UInt32 := 65536
def slFileChunkHeaderLen : Nat := 16
def slFileChunkFlagLast : UInt8 := 0x01
def slSha256DigestLen : Nat := 32

structure SlFileMeta where
  totalSize : UInt64
  chunkSize : UInt32
  totalChunks : UInt32
  mode : UInt32
  mtimeS : UInt32
  sha256 : FixedBytes slSha256DigestLen
  name : Bytes
  nameLen : UInt16
deriving DecidableEq

/-- The characters a name may have. -/
def nameCharOk (c : UInt8) : Bool := !(c == 0x2F || c == 0x5C || c == 0) && !(c < 0x20)

/-- The loop over the characters of a name. -/
def nameOk (name : Bytes) : Bool :=
  name.all nameCharOk && !(name[0]? == some dot && name[1]? == some dot)

def slFileMetaValidate (m : SlFileMeta) : Bool :=
  if m.chunkSize < slFileChunkMin || m.chunkSize > slFileChunkMax then false
  else if m.nameLen == 0 || m.nameLen.toNat > slFileNameMax then false
  else if !nameOk (m.name.take m.nameLen.toNat) then false
  else
    -- the sum wraps for a size close to 2^64
    let expected := (m.totalSize + m.chunkSize.toUInt64 - 1) / m.chunkSize.toUInt64
    if m.totalSize == 0 then m.totalChunks == 0 else m.totalChunks.toUInt64 == expected

def slFileMetaPack (m : SlFileMeta) (outCap : Nat) : Option Bytes :=
  if !slFileMetaValidate m then none
  else if outCap < slFileMetaFixedLen + m.nameLen.toNat then none
  else some (packU64 m.totalSize ++ packU32 m.chunkSize ++ packU32 m.totalChunks ++
    packU32 m.mode ++ packU32 m.mtimeS ++ m.sha256.1 ++ packU16 m.nameLen ++
    List.replicate (slFileMetaFixedLen - 58) 0 ++ m.name.take m.nameLen.toNat)

/-- The digest field of a header. -/
def sha256Field (bytes : Bytes) (long : ¬ bytes.length < slFileMetaFixedLen) :
    FixedBytes slSha256DigestLen :=
  ⟨(bytes.drop 24).take 32, by
    rw [List.length_take, List.length_drop]
    unfold slFileMetaFixedLen at long
    exact Nat.min_eq_left (by omega)⟩

def slFileMetaUnpack (bytes : Bytes) : Option SlFileMeta :=
  if long : bytes.length < slFileMetaFixedLen then none
  else
    let nameLen := unpackU16 (bytes.drop 56)
    if nameLen.toNat > slFileNameMax then none
    else if bytes.length < slFileMetaFixedLen + nameLen.toNat then none
    else
      let m : SlFileMeta :=
        { totalSize := unpackU64 bytes
          chunkSize := unpackU32 (bytes.drop 8)
          totalChunks := unpackU32 (bytes.drop 12)
          mode := unpackU32 (bytes.drop 16)
          mtimeS := unpackU32 (bytes.drop 20)
          sha256 := sha256Field bytes long
          name := (bytes.drop slFileMetaFixedLen).take nameLen.toNat
          nameLen }
      if slFileMetaValidate m then some m else none

/-- What the check asks for. -/
theorem slFileMetaValidate_iff {m : SlFileMeta} :
    slFileMetaValidate m = true ↔
      (slFileChunkMin ≤ m.chunkSize ∧ m.chunkSize ≤ slFileChunkMax) ∧
      (m.nameLen ≠ 0 ∧ m.nameLen.toNat ≤ slFileNameMax) ∧
      nameOk (m.name.take m.nameLen.toNat) = true ∧
      (if m.totalSize = 0 then m.totalChunks = 0
        else m.totalChunks.toUInt64 =
          (m.totalSize + m.chunkSize.toUInt64 - 1) / m.chunkSize.toUInt64) := by
  unfold slFileMetaValidate
  simp only [Bool.or_eq_true, decide_eq_true_eq, beq_iff_eq, Bool.not_eq_true', gt_iff_lt,
    Bool.if_false_left, Bool.and_eq_true, decide_eq_false_iff_not, not_or, UInt32.not_lt,
    Nat.not_lt, Bool.not_eq_false]
  split <;> simp

/-- What the check guarantees. -/
theorem slFileMetaValidate_spec {m : SlFileMeta} (valid : slFileMetaValidate m = true) :
    (slFileChunkMin ≤ m.chunkSize ∧ m.chunkSize ≤ slFileChunkMax) ∧
      m.nameLen.toNat ≤ slFileNameMax := by
  obtain ⟨sizes, ⟨_, named⟩, _⟩ := slFileMetaValidate_iff.mp valid
  exact ⟨sizes, named⟩

structure SlFileChunk where
  chunkIndex : UInt32
  dataLen : UInt32
  crc32c : UInt32
  flags : UInt8
  data : Bytes
deriving DecidableEq

def slFileChunkPack (c : SlFileChunk) (outCap : Nat) : Option Bytes :=
  if c.dataLen > 0 && c.data.isEmpty then none
  else if outCap < slFileChunkHeaderLen + c.dataLen.toNat then none
  else
    let data := c.data.take c.dataLen.toNat
    let crc := if c.dataLen > 0 then slCrc32c data else 0
    some (packU32 c.chunkIndex ++ packU32 c.dataLen ++ packU32 crc ++ [c.flags, 0, 0, 0] ++ data)

def slFileChunkUnpack (bytes : Bytes) : Option SlFileChunk :=
  if bytes.length < slFileChunkHeaderLen then none
  else if bytes.getD 13 0 != 0 || bytes.getD 14 0 != 0 || bytes.getD 15 0 != 0 then none
  else
    let dataLen := unpackU32 (bytes.drop 4)
    if dataLen > slFileChunkMax then none
    else if bytes.length < slFileChunkHeaderLen + dataLen.toNat then none
    else some
      { chunkIndex := unpackU32 bytes
        dataLen
        crc32c := unpackU32 (bytes.drop 8)
        flags := bytes.getD 12 0
        data := (bytes.drop slFileChunkHeaderLen).take dataLen.toNat }

def slFileChunkCrcOk (c : SlFileChunk) : Bool :=
  if c.dataLen == 0 then c.crc32c == 0 else slCrc32c c.data == c.crc32c

theorem nameCharOk_iff {c : UInt8} : nameCharOk c = true ↔ c ≠ 0x2F ∧ c ≠ 0x5C ∧ 0x20 ≤ c := by
  simp only [nameCharOk, Bool.and_eq_true, Bool.not_eq_true', Bool.or_eq_false_iff,
    beq_eq_false_iff_ne, decide_eq_false_iff_not, UInt8.not_lt, and_assoc]
  constructor
  · intro ok
    obtain ⟨separator, backslash, _, printable⟩ := ok
    exact ⟨separator, backslash, printable⟩
  · intro safe
    obtain ⟨separator, backslash, printable⟩ := safe
    refine ⟨separator, backslash, ?_, printable⟩
    rintro rfl
    exact absurd printable (by decide)

theorem nameOk_iff {name : Bytes} :
    nameOk name = true ↔ (∀ c ∈ name, c ≠ 0x2F ∧ c ≠ 0x5C ∧ 0x20 ≤ c) ∧ ¬ [dot, dot] <+: name := by
  have dots : (name[0]? == some dot && name[1]? == some dot) = true ↔ [dot, dot] <+: name := by
    match name with
    | [] => simp
    | [c] => simp
    | c :: d :: rest =>
      simp only [List.getElem?_cons_zero, List.getElem?_cons_succ, Bool.and_eq_true, beq_iff_eq,
        Option.some.injEq, List.cons_prefix_cons, List.nil_prefix, and_true, eq_comm (b := dot)]
  rw [nameOk, Bool.and_eq_true, List.all_eq_true, Bool.not_eq_true', ← Bool.not_eq_true, dots]
  simp only [nameCharOk_iff]

/-- Accepted metadata have passed the check, and their name is as long as it says. -/
theorem slFileMetaUnpack_some {bytes : Bytes} {m : SlFileMeta}
    (accepted : slFileMetaUnpack bytes = some m) :
    slFileMetaValidate m = true ∧ m.name.length = m.nameLen.toNat := by
  unfold slFileMetaUnpack at accepted
  split at accepted
  · cases accepted
  · dsimp only at accepted
    split_ifs at accepted with short large valid
    cases accepted
    refine ⟨valid, List.length_take_of_le ?_⟩
    rw [List.length_drop]
    omega

/-- The name array that `sl_file_meta_unpack` leaves behind: zeroed, with the name copied to its
front and a terminator put behind it. -/
def nameArray (name : Bytes) : Bytes :=
  (writeAt (List.replicate (slFileNameMax + 1) 0) 0 name).set name.length 0

/-- The encoding of metadata, field behind field. -/
def SlFileMeta.wire (m : SlFileMeta) : Bytes :=
  packU64 m.totalSize ++ (packU32 m.chunkSize ++ (packU32 m.totalChunks ++ (packU32 m.mode ++
    (packU32 m.mtimeS ++ (m.sha256.1 ++ (packU16 m.nameLen ++
      (List.replicate (slFileMetaFixedLen - 58) 0 ++ m.name.take m.nameLen.toNat)))))))

theorem slFileMetaPack_eq {m : SlFileMeta} (valid : slFileMetaValidate m = true) {outCap : Nat}
    (room : slFileMetaFixedLen + m.nameLen.toNat ≤ outCap) : slFileMetaPack m outCap = some m.wire := by
  rw [slFileMetaPack, if_neg (by simp [valid]), if_neg (Nat.not_lt.mpr room), SlFileMeta.wire]
  simp only [List.append_assoc]

/-- Metadata that pass the check come back from their encoding, whatever follows it, with as much
of the name array as is the name. -/
theorem slFileMetaUnpack_wire {m : SlFileMeta} (valid : slFileMetaValidate m = true)
    (held : m.nameLen.toNat ≤ m.name.length) (rest : Bytes) :
    slFileMetaUnpack (m.wire ++ rest) = some { m with name := m.name.take m.nameLen.toNat } := by
  have named := (slFileMetaValidate_spec valid).2
  have digest : m.sha256.1.length = 32 := m.sha256.2
  have taken : (m.name.take m.nameLen.toNat).length = m.nameLen.toNat := List.length_take_of_le held
  obtain ⟨wire, layout⟩ : ∃ wire, wire = m.wire ++ rest := ⟨_, rfl⟩
  rw [← layout]
  have size : wire.length = slFileMetaFixedLen + m.nameLen.toNat + rest.length := by
    rw [layout, List.length_append, SlFileMeta.wire]
    simp [digest, held, slFileMetaFixedLen]
    omega
  have chunkSize : unpackU32 (wire.drop 8) = m.chunkSize := by
    rw [layout]
    exact unpackU32_pack m.chunkSize _
  have totalChunks : unpackU32 (wire.drop 12) = m.totalChunks := by
    rw [layout]
    exact unpackU32_pack m.totalChunks _
  have mode : unpackU32 (wire.drop 16) = m.mode := by
    rw [layout]
    exact unpackU32_pack m.mode _
  have mtime : unpackU32 (wire.drop 20) = m.mtimeS := by
    rw [layout]
    exact unpackU32_pack m.mtimeS _
  have atDigest : wire.drop 24 = m.sha256.1 ++ (packU16 m.nameLen ++
      (List.replicate (slFileMetaFixedLen - 58) 0 ++ (m.name.take m.nameLen.toNat ++ rest))) := by
    rw [layout, SlFileMeta.wire]
    simp only [List.append_assoc]
    rfl
  have atNameLen : wire.drop 56 = packU16 m.nameLen ++
      (List.replicate (slFileMetaFixedLen - 58) 0 ++ (m.name.take m.nameLen.toNat ++ rest)) := by
    rw [show 56 = 24 + 32 from rfl, ← List.drop_drop, atDigest, List.drop_left' digest]
  have atName : wire.drop slFileMetaFixedLen = m.name.take m.nameLen.toNat ++ rest := by
    rw [show slFileMetaFixedLen = 56 + 26 from rfl, ← List.drop_drop, atNameLen]
    rfl
  have nameLen : unpackU16 (wire.drop 56) = m.nameLen := by rw [atNameLen, unpackU16_pack]
  have sha : (wire.drop 24).take 32 = m.sha256.1 := by rw [atDigest, List.take_left' digest]
  have totalSize : unpackU64 wire = m.totalSize := by
    rw [layout, SlFileMeta.wire, List.append_assoc, unpackU64_pack]
  rw [slFileMetaUnpack, dif_neg (by omega)]
  simp only [nameLen, totalSize, chunkSize, totalChunks, mode, mtime, atName, sha256Field, sha,
    List.take_left' taken]
  rw [if_neg (by omega), if_neg (by omega)]
  -- the check looks at the same part of the name
  have still : slFileMetaValidate { m with name := m.name.take m.nameLen.toNat } = true := by
    rw [slFileMetaValidate_iff] at valid ⊢
    simp only [List.take_take, Nat.min_self]
    exact valid
  exact if_pos still

/-- Metadata that pass the check come back from their wire. -/
theorem slFileMetaUnpack_pack {m : SlFileMeta} (valid : slFileMetaValidate m = true)
    (name : m.name.length = m.nameLen.toNat) :
    ∃ wire, slFileMetaPack m (slFileMetaFixedLen + m.nameLen.toNat) = some wire ∧
      slFileMetaUnpack wire = some m := by
  refine ⟨m.wire, slFileMetaPack_eq valid (Nat.le_refl _), ?_⟩
  have back := slFileMetaUnpack_wire valid (Nat.le_of_eq name.symm) []
  rw [List.append_nil, ← name, List.take_length] at back
  exact back

/-- The octets of a chunk. -/
def SlFileChunk.bytes (c : SlFileChunk) : Bytes := c.data.take c.dataLen.toNat

/-- The checksum that goes with a chunk. -/
def SlFileChunk.checksum (c : SlFileChunk) : UInt32 := if c.dataLen > 0 then slCrc32c c.bytes else 0

/-- The encoding of a chunk. -/
def SlFileChunk.wire (c : SlFileChunk) : Bytes :=
  packU32 c.chunkIndex ++ (packU32 c.dataLen ++ (packU32 c.checksum ++
    (c.flags :: 0 :: 0 :: 0 :: c.bytes)))

section Chunk
variable {c : SlFileChunk} (held : c.dataLen.toNat ≤ c.data.length)
include held

theorem SlFileChunk.length_bytes : c.bytes.length = c.dataLen.toNat := List.length_take_of_le held

theorem slFileChunkPack_eq {outCap : Nat} (room : slFileChunkHeaderLen + c.dataLen.toNat ≤ outCap) :
    slFileChunkPack c outCap = some c.wire := by
  have pointer : ¬ (decide (c.dataLen > 0) && c.data.isEmpty) = true := by
    simp only [Bool.and_eq_true, decide_eq_true_eq, List.isEmpty_iff, not_and]
    intro positive absent
    rw [absent] at held
    have some_data := UInt32.lt_iff_toNat_lt.mp positive
    exact absurd some_data (Nat.not_lt.mpr held)
  rw [slFileChunkPack, if_neg pointer, if_neg (Nat.not_lt.mpr room)]
  simp only [SlFileChunk.wire, SlFileChunk.checksum, SlFileChunk.bytes, List.append_assoc,
    List.cons_append, List.nil_append]

/-- A chunk within the limit comes back from its encoding with its checksum. -/
theorem slFileChunkUnpack_wire (fits : c.dataLen ≤ slFileChunkMax) (rest : Bytes) :
    slFileChunkUnpack (c.wire ++ rest) = some { c with crc32c := c.checksum, data := c.bytes } := by
  have taken := SlFileChunk.length_bytes held
  obtain ⟨wire, layout⟩ : ∃ wire, wire = c.wire ++ rest := ⟨_, rfl⟩
  rw [← layout]
  have size : wire.length = slFileChunkHeaderLen + c.dataLen.toNat + rest.length := by
    rw [layout, List.length_append, SlFileChunk.wire]
    simp [slFileChunkHeaderLen, taken]
    omega
  have length : unpackU32 (wire.drop 4) = c.dataLen := by
    rw [layout]
    exact unpackU32_pack _ _
  have crc : unpackU32 (wire.drop 8) = c.checksum := by
    rw [layout]
    exact unpackU32_pack _ _
  have atData : wire.drop slFileChunkHeaderLen = c.bytes ++ rest := by rw [layout]; rfl
  have index : unpackU32 wire = c.chunkIndex := by
    rw [layout, SlFileChunk.wire, List.append_assoc, unpackU32_pack]
  have flag : wire.getD 12 0 = c.flags := by rw [layout]; rfl
  have reserved : (wire.getD 13 0 != 0 || wire.getD 14 0 != 0 || wire.getD 15 0 != 0) = false := by
    rw [layout]
    rfl
  rw [slFileChunkUnpack, if_neg (by omega), reserved, if_neg Bool.false_ne_true]
  simp only [length, crc, atData, index, flag, List.take_left' taken]
  rw [if_neg (UInt32.not_lt.mpr fits), if_neg (by omega)]

end Chunk

theorem slFileChunkCrcOk_wire (c : SlFileChunk) :
    slFileChunkCrcOk { c with crc32c := c.checksum, data := c.bytes } = true := by
  unfold slFileChunkCrcOk SlFileChunk.checksum
  by_cases empty : c.dataLen = 0
  · simp [empty]
  · have positive : c.dataLen > 0 := UInt32.pos_iff_ne_zero.mpr empty
    simp [empty, positive]

/-- A chunk within the limit comes back from its wire with its checksum. -/
theorem slFileChunkUnpack_pack (chunkIndex : UInt32) (flags : UInt8) {data : Bytes}
    (nonempty : data ≠ []) (fits : data.length ≤ slFileChunkMax.toNat) :
    ∃ wire,
      slFileChunkPack
        { chunkIndex, dataLen := UInt32.ofNat data.length, crc32c := 0, flags, data }
        (slFileChunkHeaderLen + data.length) = some wire ∧
      slFileChunkUnpack wire = some
        { chunkIndex, dataLen := UInt32.ofNat data.length, crc32c := slCrc32c data, flags, data } := by
  have dataLen : (UInt32.ofNat data.length).toNat = data.length :=
    UInt32.toNat_ofNat_of_lt' (Nat.lt_of_le_of_lt fits (by decide))
  have positive : UInt32.ofNat data.length > 0 := by
    rw [gt_iff_lt, UInt32.lt_iff_toNat_lt, dataLen]
    exact List.length_pos_iff.mpr nonempty
  have small : UInt32.ofNat data.length ≤ slFileChunkMax := by
    rw [UInt32.le_iff_toNat_le, dataLen]
    exact fits
  let c : SlFileChunk := { chunkIndex, dataLen := UInt32.ofNat data.length, crc32c := 0, flags, data }
  have held : c.dataLen.toNat ≤ c.data.length := Nat.le_of_eq dataLen
  have bytes : c.bytes = data := by simp only [c, SlFileChunk.bytes, dataLen, List.take_length]
  have checksum : c.checksum = slCrc32c data := by
    rw [SlFileChunk.checksum, if_pos positive, bytes]
  have back := slFileChunkUnpack_wire held small []
  rw [List.append_nil, bytes, checksum] at back
  exact ⟨c.wire, slFileChunkPack_eq held (by rw [dataLen]), back⟩

/-- Metadata that can be evaluated. -/
def toyMeta (totalSize : UInt64) (totalChunks : UInt32) : SlFileMeta where
  totalSize
  chunkSize := 1024
  totalChunks
  mode := 0
  mtimeS := 0
  sha256 := ⟨List.replicate 32 1, rfl⟩
  name := [0x61]
  nameLen := 1

end SecureLink.Source.Transfer
