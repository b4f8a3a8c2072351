import SecureLink.Library.Scan
import SecureLink.Source.Store.KvStore

/-!
# Ordered event log

src/sl_event_log.c:40-149 over the bytes of the log file. Two scanners read it: opening the log
looks for the next sequence number and skips from record to record, iterating reads every
record and hands it to a visitor. As in the key-value store a write fails only when the
file would pass the largest `long` offset. An offset that leaves the range of `long` is a
seek that fails, and a failed seek leaves the position behind the header that was read.
Time readings are arguments, and the visitor is a function of the caller's data.
-/
namespace SecureLink.Source.Store
open Library.BigEndian Library.Scan Library.Varint

/-- `sizeof(hdr)` of the writer and `sizeof(hdr_buf)` of the iteration. -/
def eventHdrSize : Nat := slVarintMaxLen * 4

/-- `sizeof(hdr)` of the scan on opening. -/
def openHdrSize : Nat := 64

def eventPayloadMax : Nat := 2 ^ 20

structure SlEventLog where
  file : Bytes
  nextSeq : UInt64 := 1
  deriving DecidableEq

/-- The type is an enumeration of 32 bits that any value can be stored in. -/
structure SlEventRecord where
  seq : UInt64
  timestampNs : UInt64
  type : UInt32
  payload : Bytes
  deriving DecidableEq, Repr

/-- One more number in a header buffer. -/
def putVarint (hdr : Bytes) (v : Nat) : Option Bytes :=
  (slVarintEncodeU64 v (eventHdrSize - hdr.length)).map (hdr ++ ·)

def eventHeader (r : SlEventRecord) : Option Bytes :=
  (putVarint [] r.seq.toNat).bind fun hdr =>
    (putVarint hdr r.timestampNs.toNat).bind fun hdr =>
      (putVarint hdr r.type.toNat).bind fun hdr => putVarint hdr r.payload.length

def eventCrc (hdr payload : Bytes) : Bytes :=
  let crc := slCrc32cUpdate slCrc32cInit hdr
  let crc := slCrc32cUpdate crc payload
  encode 4 (slCrc32cFinalize crc).toNat

/-- What an append writes. -/
def eventRecord (r : SlEventRecord) : Option Bytes :=
  (eventHeader r).map fun hdr => hdr ++ r.payload ++ eventCrc hdr r.payload

def slEventLogAppend (log : SlEventLog) (nowNs : UInt64) (type : UInt32) (payload : Bytes) :
    SlEventLog × Int :=
  if payload.length > eventPayloadMax then (log, -1)
  else
    match eventRecord { seq := log.nextSeq, timestampNs := nowNs, type, payload } with
    | none => (log, -1)
    | some record =>
      if log.file.length + record.length < longBound then
        ({ file := log.file ++ record, nextSeq := log.nextSeq + 1 }, 0)
      else (log, -1)

/-- The numbers of a header and how many octets they took together. -/
structure EventHead where
  seq : Nat
  ts : Nat
  type : Nat
  plen : Nat
  size : Nat
  deriving DecidableEq, Repr

/-- The number at an offset of a header, and the offset behind it. -/
def getVarint (hdr : Bytes) (o : Nat) : Option (Nat × Nat) :=
  (slVarintDecodeU64 (hdr.drop o)).map fun read => (read.1, o + read.2)

def readEventHead (hdr : Bytes) : Option EventHead :=
  (getVarint hdr 0).bind fun seq =>
    (getVarint hdr seq.2).bind fun ts =>
      (getVarint hdr ts.2).bind fun type =>
        (getVarint hdr type.2).map fun plen =>
          { seq := seq.1, ts := ts.1, type := type.1, plen := plen.1, size := plen.2 }

/-- The scan on opening, from a position and the sequence number so far; `none` if it is still
running after that many rounds. -/
def openLoop (file : Bytes) : Nat → Nat → UInt64 → Option UInt64
  | 0, _, _ => none
  | fuel + 1, pos, nextSeq =>
    let hdr := fread file pos openHdrSize
    if hdr.length = 0 then some nextSeq
    else
      match readEventHead hdr with
      | none => some nextSeq
      | some head =>
        let next := (fseek (pos + head.size + toLong head.plen + 4)).getD (pos + hdr.length)
        let seq := UInt64.ofNat head.seq
        openLoop file fuel next (if seq ≥ nextSeq then seq + 1 else nextSeq)

def slEventLogOpen (fuel : Nat) (file : Bytes) : Option SlEventLog :=
  (openLoop file fuel 0 1).map fun nextSeq => { file, nextSeq }

/-- What stays of a closed log is its file. -/
def slEventLogClose (log : SlEventLog) : Bytes := log.file

/-- One round of the iteration: the record to visit and where the next one starts; `none` leaves
the loop. The stored checksum is read and not compared. -/
def readEvent (file : Bytes) (pos : Nat) : Option (SlEventRecord × Nat) :=
  let hdr := fread file pos eventHdrSize
  if hdr.length = 0 then none
  else
    match readEventHead hdr with
    | none => none
    | some head =>
      if head.plen > eventPayloadMax then none
      else
        let start := (fseek (pos + head.size)).getD (pos + hdr.length)
        let payload := fread file start head.plen
        if payload.length ≠ head.plen then none
        else
          let crc := fread file (start + head.plen) 4
          if crc.length ≠ 4 then none
          else
            some ({ seq := UInt64.ofNat head.seq, timestampNs := UInt64.ofNat head.ts,
                    type := UInt32.ofNat head.type, payload }, start + head.plen + 4)

section Iterate
variable {υ : Type*} (visitor : SlEventRecord → υ → υ × Int)

def iterateLoop (file : Bytes) : Nat → Nat → υ → Option υ
  | 0, _, _ => none
  | fuel + 1, pos, user =>
    match readEvent file pos with
    | none => some user
    | some (record, next) =>
      if (visitor record user).2 ≠ 0 then some (visitor record user).1
      else iterateLoop file fuel next (visitor record user).1

/-- The visitor's data when the iteration has returned 0. -/
def slEventLogIterate (fuel : Nat) (file : Bytes) (user : υ) : Option υ :=
  iterateLoop visitor file fuel 0 user

end Iterate

theorem putVarint_spells (hdr : Bytes) {v : Nat} (room : hdr.length + slVarintMaxLen ≤ eventHdrSize)
    (small : v < 2 ^ 64) :
    ∃ bytes, putVarint hdr v = some (hdr ++ bytes) ∧ Spells bytes v ∧
      bytes.length ≤ slVarintMaxLen := by
  have digits : v < 128 ^ slVarintMaxLen := Nat.lt_of_lt_of_le small (by decide)
  have left : slVarintMaxLen ≤ eventHdrSize - hdr.length := by omega
  obtain ⟨bytes, written, spells, short⟩ := slVarintEncodeU64_spells digits (by decide) left
  exact ⟨bytes, by rw [putVarint, written, Option.map_some], spells, short⟩

theorem getVarint_spells (hdr : Bytes) {bytes : Bytes} {v : Nat} (spells : Spells bytes v)
    (short : bytes.length ≤ slVarintMaxLen) (small : v < 2 ^ 64) (rest : Bytes) :
    getVarint (hdr ++ bytes ++ rest) hdr.length = some (v, (hdr ++ bytes).length) := by
  rw [getVarint, List.append_assoc, List.drop_left, slVarintDecodeU64_spells spells rest short small,
    Option.map_some, List.length_append]

/-- Every header can be written, and is read back. -/
theorem readEventHead_header (r : SlEventRecord) (fits : r.payload.length ≤ eventPayloadMax) :
    ∃ hdr, eventHeader r = some hdr ∧ readEventHead hdr = some
      { seq := r.seq.toNat, ts := r.timestampNs.toNat, type := r.type.toNat,
        plen := r.payload.length, size := hdr.length } := by
  have type : r.type.toNat < 2 ^ 64 := Nat.lt_trans r.type.toNat_lt (by decide)
  have plen : r.payload.length < 2 ^ 64 := Nat.lt_of_le_of_lt fits (by decide)
  obtain ⟨a, putA, spellsA, shortA⟩ :=
    putVarint_spells [] (by decide) r.seq.toNat_lt
  rw [List.nil_append] at putA
  obtain ⟨b, putB, spellsB, shortB⟩ := putVarint_spells a
    (by rw [eventHdrSize]; omega) r.timestampNs.toNat_lt
  obtain ⟨c, putC, spellsC, shortC⟩ := putVarint_spells (a ++ b)
    (by rw [eventHdrSize, List.length_append]; omega) type
  obtain ⟨d, putD, spellsD, shortD⟩ := putVarint_spells (a ++ b ++ c)
    (by rw [eventHdrSize, List.length_append, List.length_append]; omega) plen
  refine ⟨a ++ b ++ c ++ d, ?_, ?_⟩
  · simp only [eventHeader, putA, putB, putC, putD, Option.bind_some]
  · have getA := getVarint_spells [] spellsA shortA r.seq.toNat_lt (b ++ (c ++ d))
    have getB := getVarint_spells a spellsB shortB r.timestampNs.toNat_lt (c ++ d)
    have getC := getVarint_spells (a ++ b) spellsC shortC type d
    have getD := getVarint_spells (a ++ b ++ c) spellsD shortD plen []
    simp only [List.append_assoc, List.nil_append, List.append_nil,
      List.length_nil] at getA getB getC getD ⊢
    simp only [readEventHead, getA, getB, getC, getD, Option.bind_some, Option.map_some]

/-- Payload and checksum of an event with this head are there, and it is not too long. -/
def EventHead.Complete (head : EventHead) (file : Bytes) (pos : Nat) : Prop :=
  head.plen ≤ eventPayloadMax ∧ pos + head.size + head.plen + 4 ≤ file.length

/-- The four bytes behind header and payload are their checksum. -/
def EventHead.Checked (head : EventHead) (file : Bytes) (pos : Nat) : Prop :=
  fread file (pos + head.size + head.plen) 4 =
    eventCrc (fread file pos head.size) (fread file (pos + head.size) head.plen)

def EventHead.record (head : EventHead) (file : Bytes) (pos : Nat) : SlEventRecord :=
  { seq := UInt64.ofNat head.seq, timestampNs := UInt64.ofNat head.ts,
    type := UInt32.ofNat head.type, payload := fread file (pos + head.size) head.plen }

theorem getVarint_front {hdr : Bytes} {o : Nat} (start : o ≤ hdr.length) {read : Nat × Nat}
    (got : getVarint hdr o = some read) :
    o ≤ read.2 ∧ read.2 ≤ o + slVarintMaxLen ∧ read.2 ≤ hdr.length ∧
      ∀ m, read.2 ≤ m → ∀ more, getVarint (hdr.take m ++ more) o = some read := by
  obtain ⟨⟨v, n⟩, decoded, rfl⟩ := Option.map_eq_some_iff.mp got
  obtain ⟨short, inside, again⟩ := slVarintDecodeU64_front decoded
  rw [List.length_drop] at inside
  dsimp only
  refine ⟨by omega, by omega, by omega, fun m enough more => ?_⟩
  have kept : o ≤ (hdr.take m).length := by
    rw [List.length_take]
    omega
  rw [getVarint, List.drop_append_of_le_length kept, List.drop_take, again (m - o) (by omega),
    Option.map_some]

/-- A header lies within the bytes it was read from and the buffer, and is read again from any
bytes that have it in front. -/
theorem readEventHead_front {hdr : Bytes} {head : EventHead} (read : readEventHead hdr = some head) :
    head.size ≤ hdr.length ∧ head.size ≤ eventHdrSize ∧
      ∀ more, readEventHead (hdr.take head.size ++ more) = some head := by
  unfold readEventHead at read
  obtain ⟨seq, first, read⟩ := Option.bind_eq_some_iff.mp read
  obtain ⟨ts, second, read⟩ := Option.bind_eq_some_iff.mp read
  obtain ⟨type, third, read⟩ := Option.bind_eq_some_iff.mp read
  obtain ⟨plen, fourth, rfl⟩ := Option.map_eq_some_iff.mp read
  obtain ⟨_, short₁, inside₁, again₁⟩ := getVarint_front (Nat.zero_le _) first
  obtain ⟨up₂, short₂, inside₂, again₂⟩ := getVarint_front inside₁ second
  obtain ⟨up₃, short₃, inside₃, again₃⟩ := getVarint_front inside₂ third
  obtain ⟨up₄, short₄, inside₄, again₄⟩ := getVarint_front inside₃ fourth
  refine ⟨inside₄, by simp only [eventHdrSize]; omega, fun more => ?_⟩
  simp only [readEventHead, again₁ plen.2 (by omega) more, again₂ plen.2 (by omega) more,
    again₃ plen.2 up₄ more, again₄ plen.2 (Nat.le_refl _) more, Option.bind_some, Option.map_some]

/-- A round of the iteration delivers a record exactly if one is there, whatever its checksum. -/
theorem readEvent_iff {file : Bytes} (small : file.length < longBound) {pos : Nat}
    {r : SlEventRecord} {next : Nat} :
    readEvent file pos = some (r, next) ↔
      ∃ head ∈ readEventHead (fread file pos eventHdrSize), head.Complete file pos ∧
        r = head.record file pos ∧ next = pos + head.size + head.plen + 4 := by
  cases read : readEventHead (fread file pos eventHdrSize) with
  | none => simp [readEvent, read]
  | some head =>
    have octets : ¬ (fread file pos eventHdrSize).length = 0 := by
      intro empty
      rw [List.length_eq_zero_iff.mp empty] at read
      cases read
    have size := (readEventHead_front read).1
    have inside : pos + head.size ≤ file.length := by
      rw [fread, List.length_take, List.length_drop] at size octets
      omega
    have seek : fseek ((pos : Int) + head.size) = some (pos + head.size) := fseek_nat (by omega)
    have long : (fread file (pos + head.size) head.plen).length ≠ head.plen ↔
        file.length < pos + head.size + head.plen := by
      rw [fread, List.length_take, List.length_drop]
      omega
    have cut : (fread file (pos + head.size + head.plen) 4).length ≠ 4 ↔
        file.length < pos + head.size + head.plen + 4 := by
      rw [fread, List.length_take, List.length_drop]
      omega
    simp only [readEvent, if_neg octets, read, seek, Option.getD_some, long, cut, Option.mem_def,
      Option.some.injEq, exists_eq_left', EventHead.Complete,
      EventHead.record]
    by_cases fits : head.plen ≤ eventPayloadMax
    · by_cases there : pos + head.size + head.plen + 4 ≤ file.length
      · rw [if_neg (Nat.not_lt.mpr fits), if_neg (by omega), if_neg (by omega)]
        simp [fits, there, eq_comm]
      · rw [if_neg (Nat.not_lt.mpr fits)]
        simp [there, Nat.not_le.mp there]
    · rw [if_pos (Nat.not_le.mp fits)]
      simp [fits]

/-- One round of the scan on opening, whatever the file holds. -/
def eventLook (file : Bytes) (pos : Nat) : Option (EventHead × Option Nat) :=
  (readEventHead (fread file pos openHdrSize)).map fun head =>
    (head, (fseek (pos + head.size + toLong head.plen + 4)).getD
      (pos + (fread file pos openHdrSize).length))

/-- The sequence number to go on with after a record. -/
def seqAfter (nextSeq : UInt64) (head : EventHead) : UInt64 :=
  if UInt64.ofNat head.seq ≥ nextSeq then UInt64.ofNat head.seq + 1 else nextSeq

theorem openLoop_eq_scan (file : Bytes) (fuel pos : Nat) (nextSeq : UInt64) :
    openLoop file fuel pos nextSeq = (scan (eventLook file) fuel pos).map fun items =>
      items.foldl (fun nextSeq item => seqAfter nextSeq item.2) nextSeq := by
  induction fuel generalizing pos nextSeq with
  | zero => rfl
  | succ fuel ih =>
    cases read : readEventHead (fread file pos openHdrSize) with
    | none =>
      have look : eventLook file pos = none := by rw [eventLook, read, Option.map_none]
      simp only [openLoop, read, scan, look, Option.map_some, List.foldl_nil, ite_self]
    | some head =>
      have octets : ¬ (fread file pos openHdrSize).length = 0 := by
        intro empty
        rw [List.length_eq_zero_iff.mp empty] at read
        cases read
      simp only [openLoop, if_neg octets, read, scan, eventLook, Option.map_some, ih, Option.map_map]
      rfl

end SecureLink.Source.Store
