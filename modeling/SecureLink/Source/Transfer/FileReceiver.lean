import SecureLink.Source.Transfer.FileMessage
import SecureLink.Source.Transfer.ResumeMap

/-!
# File receiver

src/file_receiver.cpp:14-118 and the hash stream of src/sl_sha256_stream.c:12-49. The destination
file is the contents behind the open descriptor. What the system calls do is an argument: whether
the file can be made, how much each `pwrite` transfers, and where reading back fails.
-/
namespace SecureLink.Source.Transfer
open Library.BigEndian Library.Files

abbrev Sha256 := Bytes → FixedBytes slSha256DigestLen

/-- What the hash was given so far. -/
structure Sha256Stream where
  fed : Bytes := []
  finalized : Bool := false
deriving DecidableEq

def slSha256StreamUpdate (h : Sha256Stream) (data : Bytes) : Sha256Stream :=
  if h.finalized then h else { h with fed := h.fed ++ data }

def slSha256StreamFinalize (sha : Sha256) (h : Sha256Stream) :
    Option (FixedBytes slSha256DigestLen × Sha256Stream) :=
  if h.finalized then none else some (sha h.fed, { h with finalized := true })

inductive FileRxResult where
  | accepted
  | duplicate
  | badChunk
  | badMeta
  | complete
  | hashMismatch
  | ioError
deriving DecidableEq

structure FileReceiverStats where
  chunksReceived : UInt32 := 0
  duplicates : UInt32 := 0
  badChunks : UInt32 := 0
  bytesReceived : UInt64 := 0
deriving DecidableEq

structure FileReceiver where
  metaSet : Bool := false
  info : SlFileMeta :=
    { totalSize := 0, chunkSize := 0, totalChunks := 0, mode := 0, mtimeS := 0
      sha256 := ⟨List.replicate 32 0, rfl⟩, name := [], nameLen := 0 }
  resume : SlResumeMap := {}
  hasher : Sha256Stream := {}
  hashDone : Bool := false
  file : Bytes := []
  stats : FileReceiverStats := {}

/-- The number of octets each `pwrite` transfers, where 0 or the end of the list is a failure,
and how many octets are read back before reading fails, if it does. -/
structure TransferIo where
  writes : List Nat
  reads : Option Nat

/-- The loop around `pwrite`; the flag says whether all was written. -/
def pwriteLoop : List Nat → Bytes → Nat → Bytes → Bytes × Bool
  | _, file, _, [] => (file, true)
  | [], file, _, _ :: _ => (file, false)
  | n :: writes, file, off, b :: rest =>
    let data := b :: rest
    if n = 0 then (file, false)
    else pwriteLoop writes (writeAt file off (data.take n)) (off + (data.take n).length) (data.drop n)

/-- The checks of `on_chunk` in front of the resume map; `none` is a bad chunk. -/
def checkChunk (m : SlFileMeta) (wire : Bytes) : Option SlFileChunk :=
  match slFileChunkUnpack wire with
  | none => none
  | some c =>
    if c.chunkIndex ≥ m.totalChunks then none
    else if c.dataLen > m.chunkSize then none
    else if c.chunkIndex + 1 < m.totalChunks && c.dataLen != m.chunkSize then none
    else if !slFileChunkCrcOk c then none
    else some c

/-- Where a chunk goes. -/
def chunkOffset (m : SlFileMeta) (chunkIndex : UInt32) : UInt64 :=
  chunkIndex.toUInt64 * m.chunkSize.toUInt64

/-- `dest_path_`, as `open_dest_file` puts it together. -/
def destPath (destDir : Bytes) (m : SlFileMeta) : Bytes := destDir ++ 0x2F :: m.name

namespace FileReceiver

/-- `ftruncate` refuses a size that is negative as an `off_t`. -/
def canTruncate (m : SlFileMeta) : Bool := m.totalSize.toNat < 2 ^ 63

/-- A receiver as it is constructed. -/
def initial : FileReceiver := {}

/-- The receiver of a transfer that begins. -/
def start (r : FileReceiver) (m : SlFileMeta) : FileReceiver :=
  { r with
    metaSet := true
    info := m
    resume := slResumeMapInit m.totalChunks
    hasher := {}
    file := List.replicate m.totalSize.toNat 0 }

/-- `opened` is whether the system grants the memory and opens `dest_path_`. What a failed call leaves
behind is not read, and the next one overwrites it. -/
def onMeta (r : FileReceiver) (wire : Bytes) (opened : Bool) : FileReceiver × FileRxResult :=
  if r.metaSet then (r, .badMeta)
  else
    match slFileMetaUnpack wire with
    | none => (r, .badMeta)
    | some m =>
      if !(opened && canTruncate m) then (r, .ioError) else (r.start m, .accepted)

/-- The file is streamed from disk and its digest compared. -/
def verify (sha : Sha256) (r : FileReceiver) : Option Nat → FileReceiver × FileRxResult
  | some n => ({ r with hasher := slSha256StreamUpdate r.hasher (r.file.take n) }, .ioError)
  | none =>
    let hasher := slSha256StreamUpdate r.hasher r.file
    match slSha256StreamFinalize sha hasher with
    | none => ({ r with hasher }, .ioError)
    | some (digest, hasher) =>
      let r := { r with hasher, hashDone := true }
      if digest != r.info.sha256 then (r, .hashMismatch) else (r, .complete)

/-- `none` is undefined. -/
def onChunk (sha : Sha256) (r : FileReceiver) (wire : Bytes) (io : TransferIo) :
    Option (FileReceiver × FileRxResult) :=
  if !r.metaSet then some (r, .badMeta)
  else
    match checkChunk r.info wire with
    | none => some ({ r with stats := { r.stats with badChunks := r.stats.badChunks + 1 } }, .badChunk)
    | some c =>
      (slResumeMapHas r.resume c.chunkIndex).bind fun has =>
        if has then
          some ({ r with stats := { r.stats with duplicates := r.stats.duplicates + 1 } }, .duplicate)
        else
          let stored := pwriteLoop io.writes r.file (chunkOffset r.info c.chunkIndex).toNat c.data
          let r := { r with file := stored.1 }
          if !stored.2 then some (r, .ioError)
          else
            (slResumeMapSet r.resume c.chunkIndex).map fun resume =>
              let r := { r with
                resume
                stats := { r.stats with
                  chunksReceived := r.stats.chunksReceived + 1
                  bytesReceived := r.stats.bytesReceived + c.dataLen.toUInt64 } }
              if !slResumeMapComplete r.resume then (r, .accepted)
              else if r.hashDone then (r, .complete)
              else r.verify sha io.reads

def isComplete (r : FileReceiver) : Bool :=
  r.metaSet && slResumeMapComplete r.resume && r.hashDone

end FileReceiver

/-- Whatever the pieces, all the data is written where one write would have put it. -/
theorem pwriteLoop_all {writes : List Nat} {file data file' : Bytes} {off : Nat}
    (written : pwriteLoop writes file off data = (file', true)) : file' = writeAt file off data := by
  induction writes generalizing file off data with
  | nil =>
    cases data with
    | nil => exact (Prod.mk.inj written).1.symm
    | cons b rest => cases written
  | cons n writes ih =>
    cases data with
    | nil => exact (Prod.mk.inj written).1.symm
    | cons b rest =>
      rw [pwriteLoop] at written
      split at written
      · cases written
      · rw [ih written, writeAt_writeAt, List.take_append_drop]

/-- One `pwrite` that takes all the data. -/
theorem pwriteLoop_full {n : Nat} (writes : List Nat) (file : Bytes) (off : Nat) {data : Bytes}
    (fits : data.length ≤ n) (positive : 0 < n) :
    pwriteLoop (n :: writes) file off data = (writeAt file off data, true) := by
  cases data with
  | nil => rfl
  | cons b rest =>
    rw [pwriteLoop, if_neg (Nat.pos_iff_ne_zero.mp positive), List.take_of_length_le fits,
      List.drop_of_length_le fits]
    cases writes <;> rfl

theorem checkChunk_index {m : SlFileMeta} {wire : Bytes} {c : SlFileChunk}
    (checked : checkChunk m wire = some c) : c.chunkIndex < m.totalChunks := by
  unfold checkChunk at checked
  cases unpacked : slFileChunkUnpack wire with
  | none =>
    rw [unpacked] at checked
    cases checked
  | some c' =>
    rw [unpacked] at checked
    dsimp only at checked
    split_ifs at checked with high
    cases checked
    exact UInt32.not_le.mp high

theorem toNat_chunkOffset (m : SlFileMeta) (i : UInt32) :
    (chunkOffset m i).toNat = i.toNat * m.chunkSize.toNat := by
  have bound : i.toNat * m.chunkSize.toNat < 2 ^ 32 * 2 ^ 32 :=
    Nat.mul_lt_mul_of_lt_of_lt i.toNat_lt m.chunkSize.toNat_lt
  rw [chunkOffset, UInt64.toNat_mul, UInt32.toNat_toUInt64, UInt32.toNat_toUInt64]
  exact Nat.mod_eq_of_lt bound

namespace FileReceiver

/-- The map records the given chunks, and nothing is hashed before it is full. -/
structure Tracks (r : FileReceiver) (seen : List UInt32) : Prop where
  isSet : r.metaSet = true
  marks : r.resume.Marks seen
  total : r.resume.totalChunks = r.info.totalChunks
  fresh : slResumeMapComplete r.resume = false → r.hasher = {} ∧ r.hashDone = false

theorem tracks_start {r : FileReceiver} (unhashed : r.hashDone = false) (m : SlFileMeta) :
    Tracks (r.start m) [] where
  isSet := rfl
  marks := SlResumeMap.marks_init m.totalChunks
  total := rfl
  fresh _ := ⟨rfl, unhashed⟩

theorem onMeta_unpacked {r : FileReceiver} (unset : r.metaSet = false) {wire : Bytes} {m : SlFileMeta}
    (unpacked : slFileMetaUnpack wire = some m) (fits : canTruncate m = true) (opened : Bool) :
    r.onMeta wire opened = if opened then (r.start m, .accepted) else (r, .ioError) := by
  simp only [onMeta, unset, unpacked, fits, Bool.false_eq_true, if_false, Bool.and_true]
  cases opened <;> rfl

/-- Metadata begin a transfer, or change nothing. -/
theorem onMeta_cases (r : FileReceiver) (wire : Bytes) (opened : Bool) :
    (r.onMeta wire opened).1 = r ∨
      r.metaSet = false ∧ ∃ m, (r.onMeta wire opened).1 = r.start m := by
  unfold onMeta
  split_ifs with isSet
  · exact Or.inl rfl
  · split
    · exact Or.inl rfl
    next m _ =>
      split_ifs
      · exact Or.inl rfl
      · exact Or.inr ⟨Bool.eq_false_of_not_eq_true isSet, m, rfl⟩

variable (sha : Sha256) {r : FileReceiver} {seen : List UInt32} {wire : Bytes} {io : TransferIo}
  {c : SlFileChunk}

/-- The file and the counters do not matter to the map. -/
theorem Tracks.frame (h : Tracks r seen) (file : Bytes) (stats : FileReceiverStats) :
    Tracks { r with file, stats } seen :=
  ⟨h.isSet, h.marks, h.total, h.fresh⟩

/-- A full map says nothing about the hash. -/
theorem tracks_full (isSet : r.metaSet = true) (marks : r.resume.Marks seen)
    (total : r.resume.totalChunks = r.info.totalChunks)
    (full : slResumeMapComplete r.resume = true) : Tracks r seen where
  isSet := isSet
  marks := marks
  total := total
  fresh missing := absurd full (by simp [missing])

theorem Tracks.index (h : Tracks r seen) (checked : checkChunk r.info wire = some c) :
    c.chunkIndex < r.resume.totalChunks := by
  rw [h.total]
  exact checkChunk_index checked

theorem Tracks.has (h : Tracks r seen) (checked : checkChunk r.info wire = some c)
    (inside : r.resume.Covers c.chunkIndex) :
    slResumeMapHas r.resume c.chunkIndex = some (decide (c.chunkIndex ∈ seen)) :=
  h.marks.has (h.index checked) inside

/-- While a chunk is missing the map is not full. -/
theorem Tracks.missing (h : Tracks r seen) (checked : checkChunk r.info wire = some c)
    (new : c.chunkIndex ∉ seen) : slResumeMapComplete r.resume = false := by
  rw [← Bool.not_eq_true, h.marks.complete_iff]
  exact fun all => new (all _ (h.index checked))

theorem onChunk_bad (isSet : r.metaSet = true) (bad : checkChunk r.info wire = none) :
    onChunk sha r wire io =
      some ({ r with stats := { r.stats with badChunks := r.stats.badChunks + 1 } }, .badChunk) := by
  simp only [onChunk, isSet, bad, Bool.not_true, Bool.false_eq_true, if_false]

theorem onChunk_undefined (h : Tracks r seen) (checked : checkChunk r.info wire = some c)
    (outside : ¬ r.resume.Covers c.chunkIndex) : onChunk sha r wire io = none := by
  have has := SlResumeMap.has_uncovered (h.index checked) outside
  simp only [onChunk, h.isSet, checked, has, Bool.not_true, Bool.false_eq_true, if_false,
    Option.bind_none]

theorem onChunk_unset (unset : r.metaSet = false) :
    onChunk sha r wire io = some (r, .badMeta) := by
  simp only [onChunk, unset, Bool.not_false, if_true]

theorem onChunk_duplicate (h : Tracks r seen) (checked : checkChunk r.info wire = some c)
    (inside : r.resume.Covers c.chunkIndex) (known : c.chunkIndex ∈ seen) :
    onChunk sha r wire io =
      some ({ r with stats := { r.stats with duplicates := r.stats.duplicates + 1 } }, .duplicate) := by
  have has := h.has checked inside
  rw [decide_eq_true known] at has
  simp only [onChunk, h.isSet, checked, has, Bool.not_true, Bool.false_eq_true, if_false,
    Option.bind_some, if_true]

/-- A new chunk that could not be written. -/
theorem onChunk_unwritten (h : Tracks r seen) (checked : checkChunk r.info wire = some c)
    (inside : r.resume.Covers c.chunkIndex) (new : c.chunkIndex ∉ seen) {file : Bytes}
    (failed : pwriteLoop io.writes r.file (chunkOffset r.info c.chunkIndex).toNat c.data =
      (file, false)) :
    onChunk sha r wire io = some ({ r with file }, .ioError) := by
  have has := h.has checked inside
  rw [decide_eq_false new] at has
  simp only [onChunk, h.isSet, checked, has, failed, Bool.not_true, Bool.false_eq_true, if_false,
    Option.bind_some, Bool.not_false, if_true]

/-- A new chunk that was written is recorded; the last one is followed by the verification. -/
theorem onChunk_written (h : Tracks r seen) (checked : checkChunk r.info wire = some c)
    (inside : r.resume.Covers c.chunkIndex) (new : c.chunkIndex ∉ seen) {file : Bytes}
    (stored : pwriteLoop io.writes r.file (chunkOffset r.info c.chunkIndex).toNat c.data =
      (file, true)) :
    ∃ resume stats, resume.Marks (c.chunkIndex :: seen) ∧
      resume.totalChunks = r.info.totalChunks ∧ resume.bits.length = r.resume.bits.length ∧
      onChunk sha r wire io = some (
        if slResumeMapComplete resume then ({ r with file, resume, stats }).verify sha io.reads
        else ({ r with file, resume, stats }, .accepted)) := by
  have has := h.has checked inside
  rw [decide_eq_false new] at has
  obtain ⟨resume, set, marks, total, bits⟩ := h.marks.set (h.index checked) inside new
  have unhashed := (h.fresh (h.missing checked new)).2
  refine ⟨resume, { r.stats with
    chunksReceived := r.stats.chunksReceived + 1
    bytesReceived := r.stats.bytesReceived + c.dataLen.toUInt64 }, marks, total.trans h.total,
    bits, ?_⟩
  simp only [onChunk, h.isSet, checked, has, stored, set, unhashed, Bool.not_true,
    Bool.false_eq_true, if_false, Option.bind_some, Option.map_some]
  cases slResumeMapComplete resume <;> rfl

/-- The verification of a full file whose hash was not begun. -/
theorem verify_fresh (fresh : r.hasher = {}) :
    r.verify sha none =
      ({ r with hasher := { fed := r.file, finalized := true }, hashDone := true },
        if sha r.file = r.info.sha256 then .complete else .hashMismatch) := by
  simp only [verify, fresh, slSha256StreamUpdate, slSha256StreamFinalize,
    Bool.false_eq_true, if_false, List.nil_append]
  by_cases same : sha r.file = r.info.sha256
  · rw [if_neg (by simp [same]), if_pos same]
  · rw [if_pos (by simpa using same), if_neg same]

theorem verify_result (reads : Option Nat) : (verify sha r reads).2 ≠ .badChunk := by
  unfold verify
  cases reads with
  | some n => simp
  | none =>
    dsimp only
    split
    · simp
    · split_ifs <;> simp

/-- Only the checks give a bad chunk. -/
theorem onChunk_badChunk (h : Tracks r seen)
    (rejected : (onChunk sha r wire io).map Prod.snd = some .badChunk) :
    checkChunk r.info wire = none := by
  cases checked : checkChunk r.info wire with
  | none => rfl
  | some c =>
    exfalso
    by_cases inside : r.resume.Covers c.chunkIndex
    · by_cases known : c.chunkIndex ∈ seen
      · simp [onChunk_duplicate sha h checked inside known] at rejected
      · cases stored : pwriteLoop io.writes r.file (chunkOffset r.info c.chunkIndex).toNat c.data with
        | mk file written =>
          cases written with
          | false => simp [onChunk_unwritten sha h checked inside known stored] at rejected
          | true =>
            obtain ⟨resume, stats, _, _, _, step⟩ := onChunk_written sha h checked inside known stored
            rw [step, Option.map_some, Option.some.injEq] at rejected
            split_ifs at rejected
            exact verify_result sha io.reads rejected
    · simp [onChunk_undefined sha h checked inside] at rejected

end FileReceiver

end SecureLink.Source.Transfer
