import SecureLink.Source.Store.KvIndex

/-!
# The log of the key-value store

The record each put and delete appends, and what the readers make of it at any offset of
a file, whole or cut short.
-/
namespace SecureLink.Source.Store
open Library.BigEndian Library.Varint

inductive KvOp where
  | put (key value : Bytes)
  | delete (key : Bytes)
  deriving DecidableEq, Repr

namespace KvOp

def key : KvOp → Bytes
  | .put key _ => key
  | .delete key => key

/-- A tombstone has an empty value. -/
def value : KvOp → Bytes
  | .put _ value => value
  | .delete _ => []

def flags : KvOp → UInt8
  | .put _ _ => 0
  | .delete _ => slKvFlagTomb

/-- Both lengths and the flags. -/
def header (op : KvOp) : Bytes := (recordHeader op.key.length op.value.length op.flags).getD []

def record (op : KvOp) : Bytes :=
  op.header ++ op.key ++ op.value ++ recordCrc op.header op.key op.value

/-- What the key has after the operation. -/
def stored : KvOp → Option Bytes
  | .put _ value => some value
  | .delete _ => none

/-- The replay reads back keys that fit its buffer. -/
def short (op : KvOp) : Bool := op.key.length ≤ replayKeyMax

theorem length_record (op : KvOp) :
    op.record.length = op.header.length + op.key.length + op.value.length + 4 := by
  simp [record, recordCrc, Nat.add_assoc]

end KvOp

/-- Two seeks forward arrive where one would. -/
theorem fseek_skip (n skip : Nat) :
    ((fseek n).bind fun reached => fseek (reached + skip : Nat)) = fseek (n + skip : Nat) := by
  by_cases inside : n < longBound
  · rw [fseek_nat inside, Option.bind_some]
  · rw [fseek_far (Nat.not_lt.mp inside), fseek_far (by omega), Option.bind_none]

theorem toLong_nat {n : Nat} (inside : n < longBound) : toLong n = n := by
  rw [toLong, if_pos inside]

/-- The shape of a header whose lengths fit 64 bits. -/
theorem recordHeader_spells {klen vlen : Nat} (flags : UInt8) (hk : klen < 2 ^ 64)
    (hv : vlen < 2 ^ 64) :
    ∃ k v, recordHeader klen vlen flags = some (k ++ v ++ [flags]) ∧ Spells k klen ∧ Spells v vlen ∧
      k.length ≤ slVarintMaxLen ∧ v.length ≤ slVarintMaxLen := by
  have ten : ∀ n < 2 ^ 64, n < 128 ^ slVarintMaxLen := fun n small =>
    Nat.lt_of_lt_of_le small (by decide)
  have wide : slVarintMaxLen ≤ hdrSize := by decide
  obtain ⟨k, kWritten, kSpells, kShort⟩ :=
    slVarintEncodeU64_spells (ten klen hk) (by decide) wide
  have room : slVarintMaxLen ≤ hdrSize - k.length := by
    have sizes : hdrSize = slVarintMaxLen + slVarintMaxLen + 1 := rfl
    omega
  obtain ⟨v, vWritten, vSpells, vShort⟩ :=
    slVarintEncodeU64_spells (ten vlen hv) (by decide) room
  exact ⟨k, v, by simp only [recordHeader, kWritten, vWritten], kSpells, vSpells, kShort, vShort⟩

section Header
variable {op : KvOp} (fits : op.record.length < longBound)
include fits

theorem KvOp.header_spells :
    ∃ k v, op.header = k ++ v ++ [op.flags] ∧ Spells k op.key.length ∧ Spells v op.value.length ∧
      k.length ≤ slVarintMaxLen ∧ v.length ≤ slVarintMaxLen ∧
      op.key.length < 2 ^ 64 ∧ op.value.length < 2 ^ 64 := by
  have lengths := op.length_record
  have bound : longBound < 2 ^ 64 := by decide
  have hk : op.key.length < 2 ^ 64 := by omega
  have hv : op.value.length < 2 ^ 64 := by omega
  obtain ⟨k, v, written, spells⟩ := recordHeader_spells op.flags hk hv
  refine ⟨k, v, ?_, spells.1, spells.2.1, spells.2.2.1, spells.2.2.2, hk, hv⟩
  rw [KvOp.header, written, Option.getD_some]

theorem KvOp.header_length : 0 < op.header.length ∧ op.header.length ≤ hdrSize := by
  obtain ⟨k, v, header, -, -, kShort, vShort, -⟩ := op.header_spells fits
  have sizes : hdrSize = slVarintMaxLen + slVarintMaxLen + 1 := rfl
  rw [header, List.length_append, List.length_append, List.length_singleton]
  omega

/-- A reader that finds the header gets both lengths and the flags, whatever follows. -/
theorem readLengths_header {file : Bytes} {pos : Nat} {rest : Bytes}
    (here : file.drop pos = op.header ++ rest) :
    ∃ kn vn, kn + vn + 1 = op.header.length ∧
      readLengths (fread file pos hdrSize) = some ⟨op.key.length, kn, op.value.length, vn⟩ ∧
      (fread file pos hdrSize).getD (kn + vn) 0 = op.flags ∧
      op.header.length ≤ (fread file pos hdrSize).length := by
  have room := (op.header_length fits).2
  obtain ⟨k, v, header, kSpells, vSpells, kShort, vShort, hk, hv⟩ := op.header_spells fits
  have kept : fread file pos hdrSize =
      k ++ (v ++ (op.flags :: rest.take (hdrSize - op.header.length))) := by
    rw [fread, here, List.take_append, List.take_of_length_le room]
    simp only [header, List.append_assoc, List.singleton_append]
  refine ⟨k.length, v.length, ?_, ?_, ?_, ?_⟩
  · rw [header, List.length_append, List.length_append, List.length_singleton]
  · rw [kept, readLengths, slVarintDecodeU64_spells kSpells _ kShort hk]
    simp only [List.drop_left, slVarintDecodeU64_spells vSpells _ vShort hv]
  · rw [kept, List.getD_eq_getElem?_getD, List.getElem?_append_right (by omega),
      List.getElem?_append_right (by omega)]
    simp
  · rw [fread, here, List.length_take, List.length_append]
    omega

/-- From a header cut short a reader gets nothing, or lengths that reach beyond the cut. -/
theorem readLengths_cut {n : Nat} (cut : n < op.header.length) {l : Lengths}
    (read : readLengths (op.header.take n) = some l) : n < l.kn + l.vn + 1 := by
  obtain ⟨k, v, header, kSpells, vSpells, kShort, vShort, hk, hv⟩ := op.header_spells fits
  rw [header, List.length_append, List.length_append, List.length_singleton] at cut
  rw [header, List.append_assoc] at read
  by_cases inKey : n < k.length
  · rw [List.take_append_of_le_length (by omega), readLengths, slVarintDecodeU64_cut kSpells inKey] at read
    cases read
  · rw [List.take_append, List.take_of_length_le (by omega), readLengths,
      slVarintDecodeU64_spells kSpells _ kShort hk] at read
    simp only [List.drop_left] at read
    by_cases inValue : n - k.length < v.length
    · rw [List.take_append_of_le_length (by omega), slVarintDecodeU64_cut vSpells inValue] at read
      cases read
    · rw [List.take_append, List.take_of_length_le (by omega),
        slVarintDecodeU64_spells vSpells _ vShort hv] at read
      obtain rfl := Option.some.inj read
      simp only
      omega

end Header

/-- Lengths that were read are read again if the input goes on. -/
theorem readLengths_grows {hdr : Bytes} {l : Lengths} (read : readLengths hdr = some l) (more : Bytes) :
    readLengths (hdr ++ more) = some l := by
  unfold readLengths at read ⊢
  cases first : slVarintDecodeU64 hdr with
  | none =>
    rw [first] at read
    cases read
  | some key =>
    obtain ⟨klen, kn⟩ := key
    obtain ⟨inside, again⟩ := slVarintDecodeU64_grows first
    rw [first] at read
    dsimp only at read
    cases second : slVarintDecodeU64 (hdr.drop kn) with
    | none =>
      rw [second] at read
      cases read
    | some value =>
      obtain ⟨vlen, vn⟩ := value
      rw [second] at read
      simp only [again, List.drop_append_of_le_length inside,
        (slVarintDecodeU64_grows second).2 more]
      exact read

theorem fread_grows {file : Bytes} {pos size : Nat} (complete : (fread file pos size).length = size)
    (more : Bytes) : fread (file ++ more) pos size = fread file pos size := by
  rw [fread, List.length_take, List.length_drop] at complete
  rw [fread, fread, List.drop_append, List.take_append_of_le_length]
  rw [List.length_drop]
  omega

theorem writeRecord_eq (file : Bytes) (op : KvOp) :
    writeRecord file op.key op.value op.flags =
      if file.length + op.record.length < longBound then some (file ++ op.record, file.length)
      else none := by
  cases written : recordHeader op.key.length op.value.length op.flags with
  | some hdr =>
    have header : op.header = hdr := by rw [KvOp.header, written, Option.getD_some]
    simp only [writeRecord, written, KvOp.record, header]
  | none =>
    -- a header that cannot be written belongs to a record no file has room for
    have tooLong : ¬ file.length + op.record.length < longBound := by
      intro room
      have lengths := op.length_record
      have bound : longBound < 2 ^ 64 := by decide
      obtain ⟨k, v, some_header, -⟩ := recordHeader_spells op.flags
        (show op.key.length < 2 ^ 64 by omega) (show op.value.length < 2 ^ 64 by omega)
      rw [written] at some_header
      cases some_header
    simp only [writeRecord, written, if_neg tooLong]

namespace SlKvstore

section Heads
variable {op : KvOp} {file : Bytes} {pos : Nat} (fits : op.record.length < longBound)
include fits

/-- What the replay makes of a header: it reads the key behind it, if that fits the
buffer and is there. -/
theorem readHead_header {rest : Bytes} (here : file.drop pos = op.header ++ rest) :
    readHead file pos =
      if pos + op.header.length < longBound ∧ op.short = true ∧ op.key.length ≤ rest.length then
        some ⟨rest.take op.key.length, op.flags, pos + op.header.length, op.value.length⟩
      else none := by
  obtain ⟨kn, vn, size, lengths, flags, got⟩ := readLengths_header fits here
  have room := op.header_length fits
  have nonempty : ¬ (fread file pos hdrSize).length = 0 := by omega
  have complete : ¬ kn + vn + 1 > (fread file pos hdrSize).length := by omega
  have start : pos + kn + vn + 1 = pos + op.header.length := by omega
  have keyRead : fread file (pos + op.header.length) op.key.length = rest.take op.key.length := by
    rw [fread, ← List.drop_drop, here, List.drop_left]
  have long : op.key.length > replayKeyMax ↔ ¬ op.short = true := by simp [KvOp.short]
  have missing : (rest.take op.key.length).length ≠ op.key.length ↔ ¬ op.key.length ≤ rest.length := by
    rw [List.length_take]
    omega
  simp only [readHead, lengths, flags, if_neg nonempty, if_neg complete, start, fseek_cast]
  by_cases offset : pos + op.header.length < longBound
  · simp only [if_pos offset, keyRead, long, missing]
    by_cases short : op.short = true <;> by_cases there : op.key.length ≤ rest.length <;>
      simp [offset, short, there]
  · simp only [offset, false_and, if_false]

/-- Header and key are all the replay needs of a record. -/
theorem readHead_key (offset : pos + op.header.length < longBound) (short : op.short = true)
    {rest : Bytes} (here : file.drop pos = op.header ++ op.key ++ rest) :
    readHead file pos = some ⟨op.key, op.flags, pos + op.header.length, op.value.length⟩ := by
  rw [List.append_assoc] at here
  rw [readHead_header fits here, if_pos ⟨offset, short, by simp⟩, List.take_left]

/-- A key that does not fit the replay's buffer ends the replay. -/
theorem readHead_long (long : op.short = false) {rest : Bytes}
    (here : file.drop pos = op.header ++ rest) : readHead file pos = none := by
  rw [readHead_header fits here, if_neg]
  simp [long]

/-- A record cut before the end of its key ends the replay. -/
theorem readHead_cut {n : Nat} (cut : n < op.header.length + op.key.length)
    (here : file.drop pos = (op.header ++ op.key).take n) : readHead file pos = none := by
  have room := op.header_length fits
  by_cases inHeader : n < op.header.length
  · have hdr : fread file pos hdrSize = op.header.take n := by
      rw [fread, here, List.take_append_of_le_length (by omega), List.take_of_length_le]
      rw [List.length_take]
      omega
    have got : (op.header.take n).length = n := by
      rw [List.length_take]
      omega
    simp only [readHead, hdr, got]
    cases read : readLengths (op.header.take n) with
    | none => simp
    | some l => simp [readLengths_cut fits inHeader read]
  · rw [List.take_append, List.take_of_length_le (by omega)] at here
    rw [readHead_header fits here, if_neg]
    rintro ⟨-, -, there⟩
    rw [List.length_take] at there
    omega

end Heads

variable {kv : SlKvstore} {file rest key : Bytes} {off pos : Nat} {op : KvOp}

/-- A read that starts at a record returns the value in it. -/
theorem readValue_record (offset : off + op.record.length < longBound)
    (here : file.drop off = op.record ++ rest) : readValue file off = (0, op.value) := by
  have lengths := op.length_record
  have fits : op.record.length < longBound := by omega
  have room := op.header_length fits
  have opening : file.drop off =
      op.header ++ (op.key ++ (op.value ++ (recordCrc op.header op.key op.value ++ rest))) := by
    rw [here, KvOp.record]
    simp only [List.append_assoc]
  obtain ⟨kn, vn, size, read, -, got⟩ := readLengths_header fits opening
  have nonempty : ¬ (fread file off hdrSize).length = 0 := by omega
  have asLong : toLong op.key.length = op.key.length := toLong_nat (by omega)
  have valueOff : (off : Int) + kn + vn + 1 + op.key.length =
      (off + op.header.length + op.key.length : Nat) := by omega
  have valueRead : fread file (off + op.header.length + op.key.length) op.value.length = op.value := by
    rw [fread, Nat.add_assoc, ← List.drop_drop, opening, ← List.drop_drop, List.drop_left,
      List.drop_left, List.take_left]
  have seekRecord : fseek off = some off := fseek_nat (by omega)
  have seekValue : fseek (off + op.header.length + op.key.length : Nat) =
      some (off + op.header.length + op.key.length) := fseek_nat (by omega)
  simp only [readValue, seekRecord, if_neg nonempty, read, asLong, valueOff, seekValue, valueRead,
    if_true]

/-- The bytes from an offset on, taken for a record with two lengths and a flag byte in front: the
lengths, and where the value would be. -/
structure LeadsTo (file : Bytes) (off : Nat) (l : Lengths) (valueOff : Nat) : Prop where
  inside : off < longBound
  lengths : readLengths (fread file off hdrSize) = some l
  target : fseek (off + l.kn + l.vn + 1 + toLong l.klen) = some valueOff

theorem LeadsTo.readValue {valueOff : Nat} {l : Lengths} (leads : LeadsTo file off l valueOff) :
    SlKvstore.readValue file off = (if (fread file valueOff l.vlen).length = l.vlen then 0 else -1,
      fread file valueOff l.vlen) := by
  have octets : ¬ (fread file off hdrSize).length = 0 := by
    intro empty
    have lengths := leads.lengths
    rw [List.length_eq_zero_iff.mp empty] at lengths
    cases lengths
  simp only [SlKvstore.readValue, fseek_nat leads.inside, if_neg octets, leads.lengths, leads.target]

/-- Bytes that lead nowhere are a read that fails. -/
theorem readValue_lost (lost : ∀ l valueOff, ¬ LeadsTo file off l valueOff) :
    readValue file off = (-1, []) := by
  unfold readValue
  by_cases inside : off < longBound
  · rw [fseek_nat inside]
    dsimp only
    split
    · rfl
    · cases lengths : readLengths (fread file off hdrSize) with
      | none => rfl
      | some l =>
        cases target : fseek (off + l.kn + l.vn + 1 + toLong l.klen) with
        | none => simp only [target]
        | some valueOff => exact absurd ⟨inside, lengths, target⟩ (lost l valueOff)
  · rw [fseek_far (Nat.not_lt.mp inside)]

/-- A read succeeds exactly if the bytes at the offset can be taken for two lengths, and where
these lead there are as many bytes as the second one says. -/
theorem readValue_ok {value : Bytes} :
    readValue file off = (0, value) ↔ ∃ l valueOff, LeadsTo file off l valueOff ∧
      value.length = l.vlen ∧ fread file valueOff l.vlen = value := by
  constructor
  · intro read
    by_cases leads : ∃ l valueOff, LeadsTo file off l valueOff
    · obtain ⟨l, valueOff, leads⟩ := leads
      rw [leads.readValue] at read
      obtain ⟨complete, rfl⟩ := Prod.mk.inj read
      refine ⟨l, valueOff, leads, ?_, rfl⟩
      by_contra short
      rw [if_neg short] at complete
      cases complete
    · rw [readValue_lost fun l valueOff found => leads ⟨l, valueOff, found⟩] at read
      cases read
  · intro read
    obtain ⟨l, valueOff, leads, size, rfl⟩ := read
    rw [leads.readValue, if_pos size]

/-- Lengths can only be read where the file still has bytes. -/
theorem inside_of_readLengths {l : Lengths} (read : readLengths (fread file off hdrSize) = some l) :
    off < file.length := by
  by_contra outside
  have nothing : fread file off hdrSize = [] := by
    rw [fread, List.drop_of_length_le (Nat.not_lt.mp outside), List.take_nil]
  rw [nothing] at read
  cases read

/-- A read that succeeds gives the same when the file grows. -/
theorem readValue_grows {value : Bytes} (read : readValue file off = (0, value)) (more : Bytes) :
    readValue (file ++ more) off = (0, value) := by
  obtain ⟨l, valueOff, leads, size, bytes⟩ := readValue_ok.mp read
  have here := inside_of_readLengths leads.lengths
  have header : fread (file ++ more) off hdrSize =
      fread file off hdrSize ++ more.take (hdrSize - (file.drop off).length) := by
    rw [fread, List.drop_append_of_le_length (Nat.le_of_lt here), List.take_append, fread]
  refine readValue_ok.mpr ⟨l, valueOff, ⟨leads.inside, ?_, leads.target⟩, size, ?_⟩
  · rw [header]
    exact readLengths_grows leads.lengths _
  · rw [fread_grows (by rw [bytes, size]), bytes]

theorem readHead_end (done : file.length ≤ pos) : readHead file pos = none := by
  have nothing : fread file pos hdrSize = [] := by
    rw [fread, List.drop_of_length_le done, List.take_nil]
  simp only [readHead, nothing, List.length_nil, if_true]

/-- A put or a delete, with its return value. -/
def kvStep (kv : SlKvstore) : KvOp → SlKvstore × Int
  | .put key value => kv.slKvstorePut key value
  | .delete key => kv.slKvstoreDelete key

/-- What a put or a delete makes of the index: a put's entry points at the record. -/
def liveOp (kv : SlKvstore) (off : Nat) : KvOp → SlKvstore
  | .put key value => kv.setEntry key off value.length
  | .delete key =>
    kv.modifyEntry key fun e => { e with flags := e.flags ||| slKvFlagTomb, vlen := 0 }

/-- Both operations append their record, or fail. -/
theorem kvStep_eq (kv : SlKvstore) (op : KvOp) :
    kv.kvStep op =
      if kv.file.length + op.record.length < longBound then
        (liveOp { kv with file := kv.file ++ op.record } kv.file.length op, 0)
      else (kv, -1) := by
  cases op with
  | put key value =>
    have written : writeRecord kv.file key value 0 = _ := writeRecord_eq kv.file (.put key value)
    by_cases room : kv.file.length + (KvOp.put key value).record.length < longBound
    · simp only [kvStep, slKvstorePut, written, if_pos room, liveOp]
    · simp only [kvStep, slKvstorePut, written, if_neg room]
  | delete key =>
    have written : writeRecord kv.file key [] slKvFlagTomb = _ := writeRecord_eq kv.file (.delete key)
    by_cases room : kv.file.length + (KvOp.delete key).record.length < longBound
    · simp only [kvStep, slKvstoreDelete, written, if_pos room, liveOp]
    · simp only [kvStep, slKvstoreDelete, written, if_neg room]

@[simp] theorem file_liveOp (kv : SlKvstore) (off : Nat) (op : KvOp) :
    (kv.liveOp off op).file = kv.file := by
  cases op <;> simp [liveOp]

theorem slot_liveOp (kv : SlKvstore) (off : Nat) (op : KvOp) (key : Bytes) :
    (kv.liveOp off op).slot key =
      if key = op.key then op.stored.map fun value => (off, value.length) else kv.slot key := by
  cases op with
  | put _ value => exact slot_setEntry kv _ key off value.length
  | delete _ =>
    exact slot_modifyEntry kv _ key (fun _ => rfl) fun e => decide_eq_false (tomb_or e.flags)

theorem Placed.liveOp (placed : kv.Placed) (off : Nat) (op : KvOp) : (kv.liveOp off op).Placed := by
  cases op with
  | put key value => exact placed.setEntry key off value.length
  | delete key => exact placed.modifyEntry key fun _ => rfl

/-- An operation that succeeds leaves the key with an entry that reads back, or with none. -/
theorem kvStep_own (succeeds : (kv.kvStep op).2 = 0) :
    (kv.kvStep op).1.slot op.key = op.stored.map (fun value => (kv.file.length, value.length)) ∧
      ∀ value, op.stored = some value →
        readValue (kv.kvStep op).1.file kv.file.length = (0, value) := by
  rw [kvStep_eq] at succeeds ⊢
  by_cases room : kv.file.length + op.record.length < longBound
  · rw [if_pos room]
    refine ⟨by rw [slot_liveOp, if_pos rfl], ?_⟩
    intro value stored
    have here : (kv.file ++ op.record).drop kv.file.length = op.record ++ [] := by
      rw [List.drop_left, List.append_nil]
    rw [file_liveOp, readValue_record room here]
    cases op with
    | put key v => rw [Option.some.inj stored.symm]; rfl
    | delete key => cases stored
  · rw [if_neg room] at succeeds
    cases succeeds

/-- An operation on another key, or one that fails, leaves the entry; the file may have grown. -/
theorem kvStep_other (other : op.key = key → (kv.kvStep op).2 ≠ 0) :
    (kv.kvStep op).1.slot key = kv.slot key ∧ ∃ more, (kv.kvStep op).1.file = kv.file ++ more := by
  rw [kvStep_eq] at other ⊢
  by_cases room : kv.file.length + op.record.length < longBound
  · rw [if_pos room] at other ⊢
    have different : key ≠ op.key := fun same => other same.symm rfl
    refine ⟨?_, op.record, file_liveOp _ _ _⟩
    rw [slot_liveOp, if_neg different]
    rfl
  · rw [if_neg room]
    exact ⟨rfl, [], (List.append_nil _).symm⟩

/-- The entry, if there is one, has the length that a read of it copies. -/
def ReadsBack (key : Bytes) (kv : SlKvstore) : Prop :=
  ∀ off len, kv.slot key = some (off, len) → ∃ value, readValue kv.file off = (0, value) ∧
    value.length = len

theorem readsBack_own (succeeds : (kv.kvStep op).2 = 0) : ReadsBack op.key (kv.kvStep op).1 := by
  obtain ⟨slot, reads⟩ := kvStep_own succeeds
  intro off len present
  rw [slot] at present
  obtain ⟨value, stored, place⟩ := Option.map_eq_some_iff.mp present
  obtain ⟨rfl, rfl⟩ := Prod.mk.inj place
  exact ⟨value, reads value stored, rfl⟩

theorem ReadsBack.step (reads : ReadsBack key kv) (op : KvOp) : ReadsBack key (kv.kvStep op).1 := by
  by_cases own : op.key = key ∧ (kv.kvStep op).2 = 0
  · rw [← own.1]
    exact readsBack_own own.2
  · have other : op.key = key → (kv.kvStep op).2 ≠ 0 := fun same failed => own ⟨same, failed⟩
    obtain ⟨slot, more, file⟩ := kvStep_other other
    intro off len present
    rw [slot] at present
    obtain ⟨value, read, size⟩ := reads off len present
    rw [file]
    exact ⟨value, readValue_grows read more, size⟩

end SlKvstore

end SecureLink.Source.Store
