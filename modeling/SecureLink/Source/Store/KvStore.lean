import SecureLink.Library.Chains
import SecureLink.Source.Store.Codec

/-!
# Append-only key-value store

src/sl_kvstore.c:29-236 over the bytes of its file. Every operation seeks before it reads or
writes, so the position in the file is no part of the store between calls. Allocations
succeed. A write fails only when the file would pass the largest `long` offset; what a
failed write leaves in the file is not modelled. The index is a table of chains, an entry
pointer is the key it was found under.
-/
namespace SecureLink.Source.Store
open Library Library.BigEndian

def slKvBuckets : Nat := 4096

def slKvFlagTomb : UInt8 := 0x01

/-- `sizeof(hdr)`: two variable-length numbers and the flags. -/
def hdrSize : Nat := slVarintMaxLen * 2 + 1

/-- `sizeof(buf)` of the replay: no longer key is read back. -/
def replayKeyMax : Nat := 4096

/-- Offsets are `long`: 64 bits, signed. -/
def longBound : Nat := 2 ^ 63

structure KvEntry where
  key : Bytes
  fileOffset : Nat := 0
  vlen : Nat := 0
  flags : UInt8 := 0
  deriving DecidableEq, Repr

def KvEntry.live (e : KvEntry) : Bool := e.flags &&& slKvFlagTomb = 0

structure SlKvstore where
  file : Bytes
  buckets : Nat → List KvEntry := fun _ => []
  count : Nat := 0

def hashBytes (data : Bytes) : UInt32 :=
  data.foldl (fun h b => (h ^^^ b.toUInt32) * 16777619) 2166136261

def bucketOf (key : Bytes) : Nat := (hashBytes key).toNat % slKvBuckets

/-- The conversion of a 64-bit number to `long`. -/
def toLong (n : Nat) : Int := if n < longBound then n else (n : Int) - 2 ^ 64

/-- `fseek` to an absolute position, which may lie behind the end of the file. -/
def fseek : Int → Option Nat
  | .ofNat target => if target < longBound then some target else none
  | .negSucc _ => none

theorem fseek_cast (n : Nat) : fseek n = if n < longBound then some n else none := rfl

theorem fseek_nat {n : Nat} (inside : n < longBound) : fseek n = some n := by
  rw [fseek_cast, if_pos inside]

theorem fseek_far {n : Nat} (outside : longBound ≤ n) : fseek n = none := by
  rw [fseek_cast, if_neg (Nat.not_lt.mpr outside)]

/-- The at most `size` bytes the file has from a position on. -/
def fread (file : Bytes) (pos size : Nat) : Bytes := (file.drop pos).take size

/-- The two lengths at the start of a record, and the octets each of them took. -/
structure Lengths where
  klen : Nat
  kn : Nat
  vlen : Nat
  vn : Nat
  deriving DecidableEq, Repr

def readLengths (hdr : Bytes) : Option Lengths :=
  match slVarintDecodeU64 hdr with
  | none => none
  | some (klen, kn) =>
    match slVarintDecodeU64 (hdr.drop kn) with
    | none => none
    | some (vlen, vn) => some { klen, kn, vlen, vn }

def recordHeader (klen vlen : Nat) (flags : UInt8) : Option Bytes :=
  match slVarintEncodeU64 klen hdrSize with
  | none => none
  | some k =>
    match slVarintEncodeU64 vlen (hdrSize - k.length) with
    | none => none
    | some v => some (k ++ v ++ [flags])

def recordCrc (hdr key value : Bytes) : Bytes :=
  let crc := slCrc32cUpdate slCrc32cInit hdr
  let crc := slCrc32cUpdate crc key
  let crc := slCrc32cUpdate crc value
  encode 4 (slCrc32cFinalize crc).toNat

/-- The file after the record and the offset it starts at. -/
def writeRecord (file key value : Bytes) (flags : UInt8) : Option (Bytes × Nat) :=
  match recordHeader key.length value.length flags with
  | none => none
  | some hdr =>
    let record := hdr ++ key ++ value ++ recordCrc hdr key value
    if file.length + record.length < longBound then some (file ++ record, file.length) else none

namespace SlKvstore

def findEntry (kv : SlKvstore) (key : Bytes) : Option KvEntry :=
  Chains.find bucketOf KvEntry.key kv.buckets key

/-- Writes through the pointer that `find_entry` returns, if it returns one. -/
def modifyEntry (kv : SlKvstore) (key : Bytes) (f : KvEntry → KvEntry) : SlKvstore :=
  { kv with buckets := Chains.modify bucketOf KvEntry.key kv.buckets key f }

def upsertEntry (kv : SlKvstore) (key : Bytes) : SlKvstore :=
  match kv.findEntry key with
  | some _ => kv
  | none =>
    { kv with
      buckets := Chains.push bucketOf KvEntry.key kv.buckets { key }
      count := kv.count + 1 }

/-- The entry of a key, made if missing, set to a value in the file. -/
def setEntry (kv : SlKvstore) (key : Bytes) (fileOffset vlen : Nat) : SlKvstore :=
  (kv.upsertEntry key).modifyEntry key fun e => { e with fileOffset, vlen, flags := 0 }

def slKvstorePut (kv : SlKvstore) (key value : Bytes) : SlKvstore × Int :=
  match writeRecord kv.file key value 0 with
  | none => (kv, -1)
  | some (file, off) => ({ kv with file }.setEntry key off value.length, 0)

def slKvstoreDelete (kv : SlKvstore) (key : Bytes) : SlKvstore × Int :=
  match writeRecord kv.file key [] slKvFlagTomb with
  | none => (kv, -1)
  | some (file, _) =>
    ({ kv with file }.modifyEntry key fun e =>
      { e with flags := e.flags ||| slKvFlagTomb, vlen := 0 }, 0)

/-- What a read leaves with the caller: `vlenOut` if it was written, and the bytes
stored from the start of the buffer on. -/
structure Got where
  rc : Int
  vlenOut : Option Nat := none
  buf : Bytes := []
  deriving DecidableEq, Repr

/-- The read of the file in `sl_kvstore_get`, from the offset in the entry. -/
def readValue (file : Bytes) (fileOffset : Nat) : Int × Bytes :=
  match fseek fileOffset with
  | none => (-1, [])
  | some start =>
    let hdr := fread file start hdrSize
    if hdr.length = 0 then (-1, [])
    else
      match readLengths hdr with
      | none => (-1, [])
      | some l =>
        match fseek (fileOffset + l.kn + l.vn + 1 + toLong l.klen) with
        | none => (-1, [])
        | some valueOff =>
          let buf := fread file valueOff l.vlen
          (if buf.length = l.vlen then 0 else -1, buf)

def slKvstoreGet (kv : SlKvstore) (key : Bytes) (bufCap : Nat) : Got :=
  match kv.findEntry key with
  | none => { rc := -2 }
  | some e =>
    if !e.live then { rc := -2 }
    else if bufCap < e.vlen then { rc := -3, vlenOut := some e.vlen }
    else
      let read := readValue kv.file e.fileOffset
      { rc := read.1, vlenOut := some e.vlen, buf := read.2 }

def slKvstoreHas (kv : SlKvstore) (key : Bytes) : Bool :=
  match kv.findEntry key with
  | none => false
  | some e => e.live

def slKvstoreSize (kv : SlKvstore) : Nat := Chains.total KvEntry.live slKvBuckets kv.buckets

/-- What stays of a closed store is its file. -/
def slKvstoreClose (kv : SlKvstore) : Bytes := kv.file

/-- A record of which header and key could be read. -/
structure RecordHead where
  key : Bytes
  flags : UInt8
  keyOff : Nat
  vlen : Nat
  deriving DecidableEq, Repr

/-- The first half of the replay loop's body; `none` leaves the loop. -/
def readHead (file : Bytes) (recOff : Nat) : Option RecordHead :=
  let hdr := fread file recOff hdrSize
  if hdr.length = 0 then none
  else
    match readLengths hdr with
    | none => none
    | some l =>
      if l.kn + l.vn + 1 > hdr.length then none
      else
        match fseek (recOff + l.kn + l.vn + 1 : Nat) with
        | none => none
        | some keyOff =>
          if l.klen > replayKeyMax then none
          else
            let key := fread file keyOff l.klen
            if key.length ≠ l.klen then none
            else some { key, flags := hdr.getD (l.kn + l.vn) 0, keyOff, vlen := l.vlen }

/-- One round of the replay loop: the store after it and where the next record is looked
for. The checksum is skipped, and the entry changes before the seeks that can still fail. -/
def replayRecord (kv : SlKvstore) (recOff : Nat) : SlKvstore × Option Nat :=
  match readHead kv.file recOff with
  | none => (kv, none)
  | some h =>
    let keyEnd := h.keyOff + h.key.length
    if h.flags &&& slKvFlagTomb ≠ 0 then
      (kv.modifyEntry h.key fun e => { e with flags := e.flags ||| slKvFlagTomb },
        fseek (keyEnd + 4 : Nat))
    else
      (kv.setEntry h.key keyEnd h.vlen,
        (fseek (keyEnd + toLong h.vlen)).bind fun valueEnd => fseek (valueEnd + 4 : Nat))

/-- The replay loop; `none` if it is still running after that many rounds. -/
def replay : Nat → SlKvstore → Nat → Option SlKvstore
  | 0, _, _ => none
  | fuel + 1, kv, pos =>
    match kv.replayRecord pos with
    | (kv, none) => some kv
    | (kv, some next) => kv.replay fuel next

def slKvstoreOpen (fuel : Nat) (file : Bytes) : Option SlKvstore := replay fuel { file } 0

end SlKvstore

end SecureLink.Source.Store
