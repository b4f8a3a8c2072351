import SecureLink.Library.Files
import SecureLink.Library.Runs
import SecureLink.Source.Store.Codec
import SecureLink.Source.Wire.Fields

/-!
# Snapshot files

src/sl_snapshot.c:31-129, and `save_now` and `restore` of src/snapshot_manager.cpp:18-88. A save is
the sequence of its file operations, so that two saves can be interleaved; the operations themselves
succeed, except that a rename needs its source. The two names are the configured path and the same
path with the suffix ".tmp", which is assumed to fit in its buffer.
-/
namespace SecureLink.Source.Store
open Library.BigEndian Library.Files Library.Runs Wire

def slSnapshotMagic : Bytes := ascii "SLSS"
def slSnapshotVersion : UInt32 := 1
def snapshotHeaderLen : Nat := 16
def snapshotCrcLen : Nat := 4

/-- A payload whose length is a `size_t`. -/
abbrev SnapshotPayload := { bytes : Bytes // bytes.length < 2 ^ 64 }

def snapshotHeader (payloadLen : Nat) : Bytes :=
  slSnapshotMagic ++ packU32 slSnapshotVersion ++ packU64 (UInt64.ofNat payloadLen)

def snapshotCrc (header payload : Bytes) : UInt32 :=
  slCrc32cFinalize (slCrc32cUpdate (slCrc32cUpdate slCrc32cInit header) payload)

/-- The three buffers `sl_snapshot_save` writes. -/
structure SnapshotParts where
  header : Bytes
  payload : Bytes
  crc : Bytes
  deriving DecidableEq, Repr

def SnapshotParts.whole (parts : SnapshotParts) : Bytes := parts.header ++ parts.payload ++ parts.crc

def snapshotParts (payload : SnapshotPayload) : SnapshotParts where
  header := snapshotHeader payload.1.length
  payload := payload.1
  crc := packU32 (snapshotCrc (snapshotHeader payload.1.length) payload.1)

/-- The complete file of a payload. -/
def snapshotFile (payload : SnapshotPayload) : Bytes := (snapshotParts payload).whole

/-- What a load leaves with the caller. -/
structure SnapshotLoaded where
  rc : Int
  outLen : Option Nat := none
  buf : Bytes := []
  deriving DecidableEq, Repr

def readHeader (file : Bytes) : Option Nat :=
  let header := file.take snapshotHeaderLen
  if header.length ≠ snapshotHeaderLen then none
  else if header.take 4 ≠ slSnapshotMagic then none
  else if unpackU32 (header.drop 4) ≠ slSnapshotVersion then none
  else some (unpackU64 (header.drop 8)).toNat

/-- `none` is a file that cannot be opened. -/
def slSnapshotLoad (file : Option Bytes) (bufCap : Nat) : SnapshotLoaded :=
  match file with
  | none => { rc := -1 }
  | some file =>
    match readHeader file with
    | none => { rc := -1 }
    | some plen =>
      if bufCap < plen then { rc := -2, outLen := some plen }
      else
        let buf := (file.drop snapshotHeaderLen).take plen
        if buf.length ≠ plen then { rc := -1, outLen := some plen, buf }
        else
          let crcBuf := (file.drop (snapshotHeaderLen + plen)).take snapshotCrcLen
          if crcBuf.length ≠ snapshotCrcLen then { rc := -1, outLen := some plen, buf }
          else if unpackU32 crcBuf ≠ snapshotCrc (file.take snapshotHeaderLen) buf then
            { rc := -1, outLen := some plen, buf }
          else { rc := 0, outLen := some plen, buf }

def slSnapshotVerify (file : Option Bytes) : Int :=
  match file with
  | none => -1
  | some bytes =>
    if bytes.length < snapshotHeaderLen + snapshotCrcLen then -1
    else (slSnapshotLoad file (bytes.length - (snapshotHeaderLen + snapshotCrcLen))).rc

inductive SnapshotName where
  | path | tmp
  deriving DecidableEq, Repr

/-- The threads that call `save_now`: the manager's loop, and a direct caller. -/
inductive Saver where
  | background | direct
  deriving DecidableEq, Repr

inductive SaveStep where
  | openTmp | writeHeader | writePayload | writeCrc | renameTmp
  deriving DecidableEq, Repr

/-- An open file and the offset of the next write. -/
structure OpenFile where
  inode : Nat
  off : Nat
  deriving DecidableEq, Repr

structure SnapshotManagerStats where
  savesOk : UInt64 := 0
  savesFailed : UInt64 := 0
  lastSizeBytes : UInt64 := 0
  deriving DecidableEq, Repr

/-- The files, the open file of each save, and the counters of the manager. -/
structure SnapshotManager where
  files : Directory SnapshotName UInt8
  fp : Saver → Option OpenFile := fun _ => none
  stats : SnapshotManagerStats := {}

namespace SnapshotManager

def fwrite (m : SnapshotManager) (who : Saver) (data : Bytes) : SnapshotManager :=
  match m.fp who with
  | none => m
  | some f =>
    { m with
      files := m.files.write f.inode f.off data
      fp := Function.update m.fp who (some { f with off := f.off + data.length }) }

/-- Locked counting at the end of `save_now`; it touches no file and is one step with the
rename here. -/
def account (m : SnapshotManager) (ok : Bool) (size : Nat) : SnapshotManager :=
  if ok then
    { m with stats := { m.stats with savesOk := m.stats.savesOk + 1, lastSizeBytes := UInt64.ofNat size } }
  else { m with stats := { m.stats with savesFailed := m.stats.savesFailed + 1 } }

/-- One file operation of a save; the last one returns what `save_now` returns. -/
def saveStep (parts : Saver → SnapshotParts) (m : SnapshotManager) :
    Saver × SaveStep → SnapshotManager × Option Bool
  | (who, .openTmp) =>
    let opened := m.files.openTruncate .tmp
    ({ m with
       files := opened.1
       fp := Function.update m.fp who (some { inode := opened.2, off := 0 }) }, none)
  | (who, .writeHeader) => (m.fwrite who (parts who).header, none)
  | (who, .writePayload) => (m.fwrite who (parts who).payload, none)
  | (who, .writeCrc) => (m.fwrite who (parts who).crc, none)
  | (who, .renameTmp) =>
    let m := { m with fp := Function.update m.fp who none }
    match m.files.rename .tmp .path with
    | none =>
      ({ m with files := m.files.unlink .tmp }.account false (parts who).payload.length, some false)
    | some files => ({ m with files }.account true (parts who).payload.length, some true)

@[simp] theorem files_account (m : SnapshotManager) (ok : Bool) (size : Nat) :
    (m.account ok size).files = m.files := by
  cases ok <;> rfl

end SnapshotManager

/-- The operations of a save up to its last write. -/
def writingSteps (who : Saver) : List (Saver × SaveStep) :=
  [(who, .openTmp), (who, .writeHeader), (who, .writePayload), (who, .writeCrc)]

/-- The operations of one `save_now`, in order. -/
def saveSteps (who : Saver) : List (Saver × SaveStep) := writingSteps who ++ [(who, .renameTmp)]

/-- How a save on its own goes: it completes; the temporary file cannot be opened; or an operation
fails or the process dies, behind some steps and a first part of the next write. -/
inductive SaveEnd where
  | completes
  | unopened
  | fails (done : Nat) (torn : Bytes)
  | dies (done : Nat) (torn : Bytes)
  deriving DecidableEq, Repr

structure Attempt where
  who : Saver
  payload : SnapshotPayload
  how : SaveEnd

namespace SnapshotManager

def stopped (m : SnapshotManager) (a : Attempt) (done : Nat) (torn : Bytes) : SnapshotManager :=
  (run (saveStep fun _ => snapshotParts a.payload) m
    ((writingSteps a.who).take (done + 1))).fwrite a.who torn

/-- A failure removes the temporary file; behind a death the manager is a new one. -/
def saveNow (m : SnapshotManager) (a : Attempt) : SnapshotManager :=
  match a.how with
  | .completes => run (saveStep fun _ => snapshotParts a.payload) m (saveSteps a.who)
  | .unopened => m.account false a.payload.1.length
  | .fails done torn =>
    let m := m.stopped a done torn
    { m with files := m.files.unlink .tmp, fp := Function.update m.fp a.who none }.account false
      a.payload.1.length
  | .dies done torn => { files := (m.stopped a done torn).files }

end SnapshotManager

/-- What `restore` comes to: true with nothing to restore, false, or what the deserializer answers
to a payload. -/
inductive Restored where
  | nothing
  | failed
  | handed (payload : Bytes)
  deriving DecidableEq, Repr

def restore (file : Option Bytes) : Restored :=
  let first := slSnapshotLoad file 0
  if first.rc = -1 then .nothing
  else
    let second := slSnapshotLoad file (first.outLen.getD 0)
    if second.rc ≠ 0 then .failed else .handed second.buf

theorem length_snapshotHeader (payloadLen : Nat) :
    (snapshotHeader payloadLen).length = snapshotHeaderLen := rfl

theorem readHeader_header {n : Nat} (small : n < 2 ^ 64) (rest : Bytes) :
    readHeader (snapshotHeader n ++ rest) = some n := by
  have header : (snapshotHeader n ++ rest).take snapshotHeaderLen = snapshotHeader n :=
    List.take_left' (length_snapshotHeader n)
  have length : (unpackU64 ((snapshotHeader n).drop 8)).toNat = n := by
    have field : (snapshotHeader n).drop 8 = packU64 (UInt64.ofNat n) ++ [] := rfl
    rw [field, unpackU64_pack, UInt64.toNat_ofNat_of_lt' small]
  have version : unpackU32 ((snapshotHeader n).drop 4) = slSnapshotVersion :=
    unpackU32_pack slSnapshotVersion _
  have magic : (snapshotHeader n).take 4 = slSnapshotMagic := rfl
  simp only [readHeader, header, length_snapshotHeader, magic, version, length, ne_eq,
    not_true_eq_false, if_false]

/-- Behind a header that fits, the payload is loaded whatever it is, and the checksum decides. -/
theorem slSnapshotLoad_framed {payload stored : Bytes} (small : payload.length < 2 ^ 64)
    (width : stored.length = snapshotCrcLen) {bufCap : Nat} (room : payload.length ≤ bufCap) :
    slSnapshotLoad (some (snapshotHeader payload.length ++ (payload ++ stored))) bufCap =
      { rc := if unpackU32 stored = snapshotCrc (snapshotHeader payload.length) payload then 0 else -1,
        outLen := some payload.length, buf := payload } := by
  have header : (snapshotHeader payload.length ++ (payload ++ stored)).take snapshotHeaderLen =
      snapshotHeader payload.length := List.take_left' (length_snapshotHeader _)
  have behind : (snapshotHeader payload.length ++ (payload ++ stored)).drop snapshotHeaderLen =
      payload ++ stored := List.drop_left' (length_snapshotHeader _)
  have crc : (snapshotHeader payload.length ++ (payload ++ stored)).drop
      (snapshotHeaderLen + payload.length) = stored := by
    rw [← List.drop_drop, behind, List.drop_left]
  have whole : stored.take snapshotCrcLen = stored := List.take_of_length_le (Nat.le_of_eq width)
  simp only [slSnapshotLoad, readHeader_header small, if_neg (Nat.not_lt.mpr room), behind,
    List.take_left, header, crc, whole, width, ne_eq, not_true_eq_false, if_false]
  by_cases same : unpackU32 stored = snapshotCrc (snapshotHeader payload.length) payload
  · rw [if_neg (not_not.mpr same), if_pos same]
  · rw [if_pos same, if_neg same]

theorem snapshotFile_eq (payload : SnapshotPayload) :
    snapshotFile payload = snapshotHeader payload.1.length ++
      (payload.1 ++ packU32 (snapshotCrc (snapshotHeader payload.1.length) payload.1)) := by
  simp only [snapshotFile, SnapshotParts.whole, snapshotParts, List.append_assoc]

/-- A complete file is loaded back into any buffer that is large enough. -/
theorem slSnapshotLoad_snapshotFile (payload : SnapshotPayload) {bufCap : Nat}
    (room : payload.1.length ≤ bufCap) :
    slSnapshotLoad (some (snapshotFile payload)) bufCap =
      { rc := 0, outLen := some payload.1.length, buf := payload.1 } := by
  have stored : unpackU32 (packU32 (snapshotCrc (snapshotHeader payload.1.length) payload.1)) =
      snapshotCrc (snapshotHeader payload.1.length) payload.1 := unpackU32_pack _ []
  rw [snapshotFile_eq, slSnapshotLoad_framed payload.2 (length_packU32 _) room, if_pos stored]

theorem slSnapshotVerify_snapshotFile (payload : SnapshotPayload) :
    slSnapshotVerify (some (snapshotFile payload)) = 0 := by
  have size : (snapshotFile payload).length =
      snapshotHeaderLen + payload.1.length + snapshotCrcLen := by
    simp only [snapshotFile_eq, List.length_append, length_snapshotHeader, length_packU32,
      snapshotCrcLen, Nat.add_assoc]
  simp only [slSnapshotVerify, size]
  rw [if_neg (by omega), slSnapshotLoad_snapshotFile payload (by omega)]

end SecureLink.Source.Store
