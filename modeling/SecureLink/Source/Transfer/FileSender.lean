import SecureLink.Source.Transfer.FileReceiver

/-!
# File sender

src/file_sender.cpp:14-124. The source file is its contents, which do not change. What `fstat` tells
about it, the answer of the token bucket, how much a `read` transfers and the answer of the
send function are arguments.
-/
namespace SecureLink.Source.Transfer
open Library.BigEndian Library.Files
open Store (slCrc32c)

structure FileSenderStats where
  chunksSent : UInt32 := 0
  bytesSent : UInt64 := 0
  throttleHits : UInt32 := 0

structure FileSender where
  source : Bytes
  wireName : Bytes
  chunkSize : UInt32 := 16 * 1024
  info : SlFileMeta := FileReceiver.initial.info
  nextIdx : UInt32 := 0
  stats : FileSenderStats := {}

namespace FileSender

/-- The metadata that are filled in from the file. -/
def metaOf (sha : Sha256) (s : FileSender) (mode mtimeS : UInt32) : SlFileMeta :=
  let totalSize := UInt64.ofNat s.source.length
  { totalSize
    chunkSize := s.chunkSize
    totalChunks := if totalSize == 0 then 0
      else ((totalSize + s.chunkSize.toUInt64 - 1) / s.chunkSize.toUInt64).toUInt32
    mode := mode &&& 0x1FF
    mtimeS
    sha256 := sha s.source
    name := s.wireName
    nameLen := UInt16.ofNat s.wireName.length }

def computeMeta (sha : Sha256) (s : FileSender) (mode mtimeS : UInt32) : Option FileSender :=
  if s.wireName.length > slFileNameMax then none
  else
    let info := s.metaOf sha mode mtimeS
    if slFileMetaValidate info then some { s with info, nextIdx := 0 } else none

/-- `open`, for a source file that can be opened. -/
def openSource (sha : Sha256) (s : FileSender) (mode mtimeS : UInt32) : Option FileSender :=
  if s.chunkSize < slFileChunkMin || s.chunkSize > slFileChunkMax then none
  else s.computeMeta sha mode mtimeS

/-- What is passed to the send function. -/
def sendMeta (s : FileSender) : Option Bytes :=
  slFileMetaPack s.info (slFileMetaFixedLen + s.info.nameLen.toNat)

def hasMore (s : FileSender) : Bool := s.nextIdx < s.info.totalChunks

/-- The message of the next chunk, if `got` octets of it are read. -/
def chunkWire (s : FileSender) (got : Nat) : Option Bytes :=
  let off := s.nextIdx.toUInt64 * s.chunkSize.toUInt64
  let data := ((s.source.drop off.toNat).take s.chunkSize.toNat).take got
  if data.isEmpty then none
  else
    slFileChunkPack
      { chunkIndex := s.nextIdx
        dataLen := UInt32.ofNat data.length
        crc32c := 0
        flags := if s.nextIdx + 1 == s.info.totalChunks then slFileChunkFlagLast else 0
        data } (slFileChunkHeaderLen + data.length)

/-- The sender afterwards, and what was passed to the send function. -/
def sendNextChunk (s : FileSender) (throttled : Bool) (got : Nat) (sent : Bool) :
    FileSender × Option Bytes :=
  if !s.hasMore then (s, none)
  else if throttled then
    ({ s with stats := { s.stats with throttleHits := s.stats.throttleHits + 1 } }, none)
  else
    match s.chunkWire got with
    | none => (s, none)
    | some wire =>
      if !sent then (s, some wire)
      else
        ({ s with
            nextIdx := s.nextIdx + 1
            stats := { s.stats with
              chunksSent := s.stats.chunksSent + 1
              bytesSent := s.stats.bytesSent +
                UInt64.ofNat (wire.length - slFileChunkHeaderLen) } }, some wire)

def seekChunk (s : FileSender) (chunkIndex : UInt32) : FileSender × Bool :=
  if chunkIndex > s.info.totalChunks then (s, false)
  else ({ s with nextIdx := chunkIndex }, true)

/-- The message of a chunk, read in full. -/
def messageOf (s : FileSender) (i : UInt32) : Option Bytes :=
  ((s.seekChunk i).1.sendNextChunk false s.chunkSize.toNat true).2

/-- What an opened sender announces about its file. -/
structure Announces (sha : Sha256) (s : FileSender) : Prop where
  valid : slFileMetaValidate s.info = true
  size : s.info.totalSize.toNat = s.source.length
  chunkSize : s.info.chunkSize = s.chunkSize
  chunks : s.info.totalChunks.toNat = blockCount s.source.length s.chunkSize.toNat
  digest : s.info.sha256 = sha s.source
  name : s.info.name = s.wireName
  nameLen : s.info.name.length = s.info.nameLen.toNat
  sizes : slFileChunkMin ≤ s.chunkSize ∧ s.chunkSize ≤ slFileChunkMax

/-- A name the check lets through. -/
structure ValidName (name : Bytes) : Prop where
  nonempty : name ≠ []
  short : name.length ≤ slFileNameMax
  characters : nameOk name = true

/-- The number of chunks as the code computes it. -/
theorem expected_toNat {length : Nat} {chunkSize : UInt32} (least : 0 < chunkSize.toNat)
    (small : length + chunkSize.toNat < 2 ^ 64) :
    ((UInt64.ofNat length + chunkSize.toUInt64 - 1) / chunkSize.toUInt64).toNat =
      blockCount length chunkSize.toNat := by
  have size : (UInt64.ofNat length).toNat = length :=
    UInt64.toNat_ofNat_of_lt' (Nat.lt_of_le_of_lt (Nat.le_add_right _ _) small)
  have sum : (UInt64.ofNat length + chunkSize.toUInt64).toNat = length + chunkSize.toNat := by
    rw [UInt64.toNat_add, size, UInt32.toNat_toUInt64, Nat.mod_eq_of_lt small]
  have less : (UInt64.ofNat length + chunkSize.toUInt64 - 1).toNat = length + chunkSize.toNat - 1 := by
    rw [UInt64.toNat_sub_of_le _ _ (by rw [UInt64.le_iff_toNat_le, sum, UInt64.toNat_one]; omega), sum]
    rfl
  rw [UInt64.toNat_div, less, UInt32.toNat_toUInt64, blockCount]

/-- Few chunks make a small file. -/
theorem length_lt_of_few {length size : Nat} (positive : 0 < size) (largest : size ≤ 65536)
    (few : blockCount length size < 2 ^ 32) : length + size < 2 ^ 49 := by
  have bound : length + size - 1 < 2 ^ 32 * size := (Nat.div_lt_iff_lt_mul positive).mp few
  have product : 2 ^ 32 * size ≤ 2 ^ 32 * 65536 := Nat.mul_le_mul_left _ largest
  omega

/-- A non-empty file with few enough chunks can be announced under every valid name. -/
theorem openSource_announces (sha : Sha256) {s : FileSender} (nonempty : s.source ≠ [])
    (name : ValidName s.wireName) (sizes : slFileChunkMin ≤ s.chunkSize ∧ s.chunkSize ≤ slFileChunkMax)
    (few : blockCount s.source.length s.chunkSize.toNat < 2 ^ 32) (mode mtimeS : UInt32) :
    ∃ s', s.openSource sha mode mtimeS = some s' ∧ s'.source = s.source ∧
      s'.wireName = s.wireName ∧ s'.chunkSize = s.chunkSize ∧ Announces sha s' := by
  have least : 1024 ≤ s.chunkSize.toNat := sizes.1
  have largest : s.chunkSize.toNat ≤ 65536 := sizes.2
  have positive := List.length_pos_iff.mpr nonempty
  have small := length_lt_of_few (by omega) largest few
  have size : (UInt64.ofNat s.source.length).toNat = s.source.length :=
    UInt64.toNat_ofNat_of_lt' (Nat.lt_of_le_of_lt (Nat.le_add_right _ _)
      (Nat.lt_trans small (by decide)))
  have nonzero : (UInt64.ofNat s.source.length == 0) = false := by
    rw [beq_eq_false_iff_ne]
    intro zero
    rw [zero] at size
    simp at size
    omega
  have expected := expected_toNat (by omega) (Nat.lt_trans small (by decide))
  have chunks : (s.metaOf sha mode mtimeS).totalChunks.toNat =
      blockCount s.source.length s.chunkSize.toNat := by
    simp only [metaOf, nonzero, Bool.false_eq_true, if_false]
    rw [UInt64.toNat_toUInt32, expected, Nat.mod_eq_of_lt few]
  have nameLen : (UInt16.ofNat s.wireName.length).toNat = s.wireName.length :=
    UInt16.toNat_ofNat_of_lt' (Nat.lt_of_le_of_lt name.short (by decide))
  have named : UInt16.ofNat s.wireName.length ≠ 0 := by
    intro zero
    rw [zero] at nameLen
    exact name.nonempty (List.length_eq_zero_iff.mp nameLen.symm)
  have low : ¬ s.chunkSize < slFileChunkMin := UInt32.not_lt.mpr sizes.1
  have high : ¬ s.chunkSize > slFileChunkMax := UInt32.not_lt.mpr sizes.2
  have short := Nat.not_lt.mpr name.short
  have total : (s.metaOf sha mode mtimeS).totalChunks.toUInt64 =
      (UInt64.ofNat s.source.length + s.chunkSize.toUInt64 - 1) / s.chunkSize.toUInt64 := by
    rw [← UInt64.toNat_inj, UInt32.toNat_toUInt64, chunks, expected]
  have valid : slFileMetaValidate (s.metaOf sha mode mtimeS) = true := by
    rw [slFileMetaValidate, if_neg (by simp [metaOf, low, high]),
      if_neg (by simpa [metaOf, named, nameLen] using name.short),
      if_neg (by simp [metaOf, nameLen, name.characters])]
    dsimp only
    rw [if_neg (by simpa [metaOf] using beq_eq_false_iff_ne.mp nonzero), beq_iff_eq]
    exact total
  refine ⟨{ s with info := s.metaOf sha mode mtimeS, nextIdx := 0 }, ?_, rfl, rfl, rfl,
    ⟨valid, size, rfl, chunks, rfl, rfl, nameLen.symm, sizes⟩⟩
  rw [openSource, if_neg (by simp [low, high]), computeMeta, if_neg short]
  exact if_pos valid

variable {sha : Sha256} {s : FileSender} {i : UInt32}

theorem Announces.positive (h : Announces sha s) : 0 < s.chunkSize.toNat :=
  Nat.lt_of_lt_of_le (by decide) (show 1024 ≤ s.chunkSize.toNat from h.sizes.1)

/-- The receiver can make a file with few enough chunks as long as the source. -/
theorem Announces.canTruncate (h : Announces sha s)
    (few : blockCount s.source.length s.chunkSize.toNat < 2 ^ 32) :
    FileReceiver.canTruncate s.info = true := by
  have bound : s.source.length + s.chunkSize.toNat < 2 ^ 49 :=
    length_lt_of_few h.positive h.sizes.2 few
  rw [FileReceiver.canTruncate, decide_eq_true_eq, h.size]
  omega

/-- The chunk with an index, as it is read back: the block of the file with that number. -/
def chunkAt (s : FileSender) (i : UInt32) (flags : UInt8) : SlFileChunk where
  chunkIndex := i
  dataLen := UInt32.ofNat (block s.source s.chunkSize.toNat i.toNat).length
  crc32c := slCrc32c (block s.source s.chunkSize.toNat i.toNat)
  flags := flags
  data := block s.source s.chunkSize.toNat i.toNat

theorem Announces.chunkWire (h : Announces sha s) (hi : i < s.info.totalChunks) :
    ∃ flags wire, ({ s with nextIdx := i }).chunkWire s.chunkSize.toNat = some wire ∧
      slFileChunkUnpack wire = some (s.chunkAt i flags) := by
  have number : i.toNat < blockCount s.source.length s.chunkSize.toNat := h.chunks ▸ hi
  have nonempty := block_ne_nil h.positive number
  have off : (i.toUInt64 * s.chunkSize.toUInt64).toNat = i.toNat * s.chunkSize.toNat := by
    rw [← h.chunkSize]
    exact toNat_chunkOffset s.info i
  have data : ((s.source.drop (i.toUInt64 * s.chunkSize.toUInt64).toNat).take s.chunkSize.toNat).take
      s.chunkSize.toNat = block s.source s.chunkSize.toNat i.toNat := by
    rw [off, List.take_take, Nat.min_self, block]
  have fits : (block s.source s.chunkSize.toNat i.toNat).length ≤ slFileChunkMax.toNat := by
    rw [length_block]
    exact Nat.le_trans (Nat.min_le_left _ _) h.sizes.2
  obtain ⟨wire, packed, unpacked⟩ := slFileChunkUnpack_pack i
    (if i + 1 == s.info.totalChunks then slFileChunkFlagLast else 0) nonempty fits
  refine ⟨_, wire, ?_, unpacked⟩
  simp only [FileSender.chunkWire, data, List.isEmpty_iff, nonempty, if_false]
  exact packed

/-- Every message of the sender passes the receiver's checks, with its index and its block. -/
theorem Announces.messageOf (h : Announces sha s) (hi : i < s.info.totalChunks) :
    ∃ flags wire, s.messageOf i = some wire ∧
      checkChunk s.info wire = some (s.chunkAt i flags) := by
  obtain ⟨flags, wire, built, unpacked⟩ := h.chunkWire hi
  have number : i.toNat < blockCount s.source.length s.chunkSize.toNat := h.chunks ▸ hi
  have most : (block s.source s.chunkSize.toNat i.toNat).length ≤ s.chunkSize.toNat := by
    rw [length_block]
    exact Nat.min_le_left _ _
  have dataLen : (s.chunkAt i flags).dataLen.toNat =
      (block s.source s.chunkSize.toNat i.toNat).length :=
    UInt32.toNat_ofNat_of_lt' (Nat.lt_of_le_of_lt most s.chunkSize.toNat_lt)
  refine ⟨flags, wire, ?_, ?_⟩
  · have seek : (s.seekChunk i).1 = { s with nextIdx := i } := by
      rw [seekChunk, if_neg (UInt32.not_lt.mpr (UInt32.le_of_lt hi))]
    have more : ({ s with nextIdx := i }).hasMore = true := decide_eq_true hi
    simp only [FileSender.messageOf, seek, sendNextChunk, more, built, Bool.not_true,
      Bool.false_eq_true, if_false]
  · have index : ¬ (s.chunkAt i flags).chunkIndex ≥ s.info.totalChunks := UInt32.not_le.mpr hi
    have short : ¬ (s.chunkAt i flags).dataLen > s.info.chunkSize := by
      rw [h.chunkSize, gt_iff_lt, UInt32.lt_iff_toNat_lt, dataLen]
      omega
    -- only the last chunk may be shorter than the others
    have whole : i + 1 < s.info.totalChunks → (s.chunkAt i flags).dataLen = s.info.chunkSize := by
      intro notLast
      have next : (i + 1).toNat = i.toNat + 1 := by
        have bound := s.info.totalChunks.toNat_lt
        have small : i.toNat < s.info.totalChunks.toNat := hi
        rw [UInt32.toNat_add]
        exact Nat.mod_eq_of_lt (by simp; omega)
      have later : i.toNat + 1 < blockCount s.source.length s.chunkSize.toNat := by
        rw [← next, ← h.chunks]
        exact notLast
      rw [h.chunkSize, ← UInt32.toNat_inj, dataLen, block_whole h.positive later]
    have crc : slFileChunkCrcOk (s.chunkAt i flags) = true := by
      rw [slFileChunkCrcOk, if_neg]
      · exact beq_self_eq_true _
      · intro zero
        have length := congrArg UInt32.toNat (beq_iff_eq.mp zero)
        rw [dataLen] at length
        exact block_ne_nil h.positive number (List.length_eq_zero_iff.mp length)
    simp only [checkChunk, unpacked, crc, Bool.not_true, Bool.false_eq_true, if_false]
    rw [if_neg index, if_neg short, if_neg]
    simp only [Bool.and_eq_true, decide_eq_true_eq, bne_iff_ne, ne_eq, not_and, not_not]
    exact whole

theorem Announces.sendMeta (h : Announces sha s) :
    ∃ wire, s.sendMeta = some wire ∧ slFileMetaUnpack wire = some s.info :=
  slFileMetaUnpack_pack h.valid h.nameLen

end FileSender

end SecureLink.Source.Transfer
