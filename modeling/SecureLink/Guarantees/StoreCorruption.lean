import SecureLink.Library.Runs
import SecureLink.Source.Store.KvLog
import SecureLink.Source.Store.KvScan

/-!
# The key-value store on a damaged file

Opening a file skips the checksums (src/sl_kvstore.c:140-141), and no read looks at one. An entry
that the replay made points at the value, where src/sl_kvstore.c:205-217 expects a record
again: the read takes both its place and its length from bytes of the value. So what is
returned need not be the value of a record, and the bytes copied need not fit the buffer,
which was compared with the length in the index.
-/
namespace SecureLink.Guarantees.StoreCorruption
open Library.BigEndian Library.Runs Library.Scan Source.Store Source.Store.SlKvstore

section Intact

/-- The value of the record at an offset, if it is a complete record for this key, no
tombstone, and its stored checksum is that of its header, key and value. -/
def intactRecord (file key : Bytes) (off : Nat) : Option Bytes :=
  (readLengths (fread file off hdrSize)).bind fun l =>
    let hdr := fread file off (l.kn + l.vn + 1)
    let keyOff := off + (l.kn + l.vn + 1)
    let value := fread file (keyOff + l.klen) l.vlen
    if hdr.length = l.kn + l.vn + 1 ∧ hdr.getD (l.kn + l.vn) 0 &&& slKvFlagTomb = 0 ∧
        l.klen = key.length ∧ fread file keyOff l.klen = key ∧ value.length = l.vlen ∧
        fread file (keyOff + l.klen + l.vlen) 4 = recordCrc hdr key value
    then some value else none

/-- What the caller finds in the buffer: as many bytes as the length says, of which a read may
have left some as they were. -/
def valueOf (got : Got) (before : Bytes) : Bytes :=
  (got.buf ++ before.drop got.buf.length).take (got.vlenOut.getD 0)

/-- On any file: the reads of a key of the opened store that succeed return the value of an intact
record of the key, exactly if the key has no entry, or the value bytes of the record it comes from,
taken for a record, lead to no value that is there as a whole, or what the buffer then holds is the
value of an intact record of the key. -/
theorem reopened_read_intact_iff (fuel : Nat) (file : Bytes) (kv : SlKvstore)
    (opened : slKvstoreOpen fuel file = some kv) (key before : Bytes) :
    (∀ bufCap, (kv.slKvstoreGet key bufCap).rc = 0 →
      ∃ off, intactRecord file key off = some (valueOf (kv.slKvstoreGet key bufCap) before)) ↔
    ∀ recOff h, indexedRecord fuel file key = some (recOff, h) → h.tomb = false →
      ∀ l valueOff, LeadsTo file h.keyEnd l valueOff →
        (fread file valueOff l.vlen).length = l.vlen →
        ∃ off, intactRecord file key off =
          some ((fread file valueOff l.vlen ++ before.drop l.vlen).take h.vlen) := by
  have same : kv.file = file := (slKvstoreOpen_scan opened).1
  constructor
  · intro intact recOff h indexed live l valueOff leads whole
    have slot := (slot_opened opened).mpr ⟨recOff, h, indexed, live, rfl, rfl⟩
    have read := intact h.vlen
    rw [slKvstoreGet_some slot, if_neg (Nat.lt_irrefl _), same, leads.readValue, if_pos whole] at read
    have found := read rfl
    rwa [valueOf, whole] at found
  · intro rereads bufCap succeeds
    cases slot : kv.slot key with
    | none =>
      rw [slKvstoreGet_none slot] at succeeds
      cases succeeds
    | some entry =>
      obtain ⟨off, len⟩ := entry
      obtain ⟨recOff, h, indexed, live, rfl, rfl⟩ := (slot_opened opened).mp slot
      rw [slKvstoreGet_some slot, same] at succeeds ⊢
      by_cases large : bufCap < h.vlen
      · rw [if_pos large] at succeeds
        cases succeeds
      · rw [if_neg large] at succeeds ⊢
        obtain ⟨l, valueOff, leads, size, bytes⟩ := readValue_ok.mp (Prod.ext succeeds rfl)
        have found := rereads recOff h indexed live l valueOff leads (by rw [bytes, size])
        rwa [bytes, ← size] at found

/-- Two records with the value `07 02`, both with checksums of zeros. Taken for a record, the
value of the first leads to that of the second. -/
def zeroChecksums : Bytes :=
  [1, 2, 0, 0x61, 7, 2, 0, 0, 0, 0] ++ [1, 2, 0, 0x62, 7, 2, 0, 0, 0, 0]

/-- The value is returned though no record of the key in the file has the right checksum. -/
theorem corrupted_record_read :
    (slKvstoreOpen 64 zeroChecksums).map (fun kv => kv.slKvstoreGet (ascii "a") 16) =
        some ⟨0, some 2, [7, 2]⟩ ∧
    ∀ off, intactRecord zeroChecksums (ascii "a") off = none := by
  refine ⟨by decide +kernel, fun off => ?_⟩
  by_cases inside : off < 20
  · have all : ∀ off < 20, intactRecord zeroChecksums (ascii "a") off = none := by decide +kernel
    exact all off inside
  · cases lengths : readLengths (fread zeroChecksums off hdrSize) with
    | none => rw [intactRecord, lengths, Option.bind_none]
    | some l => exact absurd (inside_of_readLengths lengths) inside

/-- The same two records with their checksums. -/
def rightChecksums : Bytes :=
  (KvOp.put (ascii "a") [7, 2]).record ++ (KvOp.put (ascii "b") [7, 2]).record

theorem intact_record_read :
    ∃ kv, slKvstoreOpen 64 rightChecksums = some kv ∧ (kv.slKvstoreGet (ascii "a") 2).rc = 0 ∧
      ∃ off, intactRecord rightChecksums (ascii "a") off =
        some (valueOf (kv.slKvstoreGet (ascii "a") 2) [0, 0]) := by
  have answer : (slKvstoreOpen 64 rightChecksums).map (fun kv => (kv.slKvstoreGet (ascii "a") 2).rc) =
      some 0 := by decide +kernel
  obtain ⟨kv, opened, succeeds⟩ := Option.map_eq_some_iff.mp answer
  refine ⟨kv, opened, succeeds, ?_⟩
  apply (reopened_read_intact_iff 64 rightChecksums kv opened (ascii "a") [0, 0]).mpr _ 2 succeeds
  intro recOff h indexed _ l valueOff leads _
  have first : indexedRecord 64 rightChecksums (ascii "a") = some (0, ⟨ascii "a", 0, 3, 2⟩) := by
    decide +kernel
  obtain ⟨rfl, rfl⟩ := Prod.mk.inj (Option.some.inj (first.symm.trans indexed))
  have lengths : readLengths (fread rightChecksums 4 hdrSize) = some ⟨7, 1, 2, 1⟩ := by decide +kernel
  obtain rfl := Option.some.inj (lengths.symm.trans leads.lengths)
  obtain rfl := Option.some.inj ((show fseek 14 = some 14 from by decide).symm.trans leads.target)
  exact ⟨0, by decide +kernel⟩

end Intact

section Bounds

/-- Every read of the key stays within its buffer. -/
def StaysWithin (kv : SlKvstore) (key : Bytes) : Prop :=
  ∀ bufCap, (kv.slKvstoreGet key bufCap).buf.length ≤ bufCap

theorem staysWithin_iff (kv : SlKvstore) (key : Bytes) :
    StaysWithin kv key ↔
      ∀ off len, kv.slot key = some (off, len) → (readValue kv.file off).2.length ≤ len := by
  unfold StaysWithin
  cases slot : kv.slot key with
  | none => simp [slKvstoreGet_none slot]
  | some entry =>
    obtain ⟨off, len⟩ := entry
    simp only [slKvstoreGet_some slot, Option.some.injEq, Prod.mk.injEq]
    constructor
    · intro within off' len' same
      obtain ⟨rfl, rfl⟩ := same
      have tight := within len
      rwa [if_neg (Nat.lt_irrefl len)] at tight
    · intro within bufCap
      by_cases large : bufCap < len
      · rw [if_pos large]
        exact Nat.zero_le _
      · rw [if_neg large]
        exact Nat.le_trans (within off len ⟨rfl, rfl⟩) (Nat.not_lt.mp large)

/-- The length that the bytes at an offset lead to, cut at the end of the file, is no more than
this. -/
def LeadsWithin (file : Bytes) (off len : Nat) : Prop :=
  ∀ l valueOff, LeadsTo file off l valueOff → min l.vlen (file.length - valueOff) ≤ len

theorem length_readValue_le (file : Bytes) (off len : Nat) :
    (readValue file off).2.length ≤ len ↔ LeadsWithin file off len := by
  by_cases leads : ∃ l valueOff, LeadsTo file off l valueOff
  · obtain ⟨l, valueOff, leads⟩ := leads
    rw [leads.readValue, fread, List.length_take, List.length_drop]
    constructor
    · intro within l' valueOff' leads'
      obtain rfl := Option.some.inj (leads.lengths.symm.trans leads'.lengths)
      obtain rfl := Option.some.inj (leads.target.symm.trans leads'.target)
      exact within
    · intro within
      exact within l valueOff leads
  · have lost : ∀ l valueOff, ¬ LeadsTo file off l valueOff := fun l valueOff found =>
      leads ⟨l, valueOff, found⟩
    rw [readValue_lost lost]
    exact iff_of_true (Nat.zero_le _) fun l valueOff found => absurd found (lost l valueOff)

/-- None of the operations is a put or a delete of the key that succeeds. -/
def Untouched (kv : SlKvstore) (key : Bytes) (ops : List KvOp) : Prop :=
  AllSteps kvStep (fun kv op => op.key = key → (kv.kvStep op).2 ≠ 0) kv ops

theorem slot_untouched {kv : SlKvstore} {key : Bytes} {ops : List KvOp}
    (untouched : Untouched kv key ops) : (run kvStep kv ops).slot key = kv.slot key :=
  untouched.invariant (fun after => after.slot key = kv.slot key)
    (fun _ _ same other => (kvStep_other other).1.trans same) rfl

theorem readsBack_touched {kv : SlKvstore} {key : Bytes} {ops : List KvOp}
    (touched : ¬ Untouched kv key ops) : ReadsBack key (run kvStep kv ops) := by
  induction ops generalizing kv with
  | nil => exact absurd trivial touched
  | cons op rest ih =>
    rw [run_cons]
    by_cases own : op.key = key ∧ (kv.kvStep op).2 = 0
    · apply run_invariant (ReadsBack key) (fun _ op reads => reads.step op) rest
      rw [← own.1]
      exact readsBack_own own.2
    · apply ih
      intro later
      exact touched ⟨fun same failed => own ⟨same, failed⟩, later⟩

theorem staysWithin_of_readsBack {key : Bytes} {kv : SlKvstore} (reads : ReadsBack key kv) :
    StaysWithin kv key := by
  apply (staysWithin_iff kv key).mpr
  intro off len present
  obtain ⟨value, read, size⟩ := reads off len present
  rw [read]
  exact Nat.le_of_eq size

/-- Opens, puts and deletes on a file, in any order: the store as the last open left it, and
the operations since. -/
inductive History (file : Bytes) : SlKvstore → List KvOp → Prop
  | opened {fuel : Nat} {kv : SlKvstore} : slKvstoreOpen fuel file = some kv → History file kv []
  | wrote {kv : SlKvstore} {ops : List KvOp} (op : KvOp) : History file kv ops →
      History file kv (ops ++ [op])
  | reopened {kv kv' : SlKvstore} {ops : List KvOp} {fuel : Nat} : History file kv ops →
      slKvstoreOpen fuel (slKvstoreClose (run kvStep kv ops)) = some kv' → History file kv' []

theorem History.opens {file : Bytes} {kv : SlKvstore} {ops : List KvOp} (history : History file kv ops) :
    ∃ fuel, slKvstoreOpen fuel kv.file = some kv := by
  induction history with
  | opened returns => exact ⟨_, (slKvstoreOpen_scan returns).1.symm ▸ returns⟩
  | wrote op _ ih => exact ih
  | reopened _ returns => exact ⟨_, (slKvstoreOpen_scan returns).1.symm ▸ returns⟩

/-- For any file, after any opens, puts and deletes: reads of a key stay within their buffers
exactly if the key was put or deleted since the last open, or it had no entry then, or the value
bytes of the record that its entry comes from, taken for a record, lead to a length that is, cut at
the end of the file, no more than that of the value. -/
theorem reads_stay_within_iff (file : Bytes) (kv : SlKvstore) (ops : List KvOp) (key : Bytes)
    (history : History file kv ops) :
    StaysWithin (run kvStep kv ops) key ↔
      (Untouched kv key ops → ∀ fuel, slKvstoreOpen fuel kv.file = some kv →
        ∀ recOff h, indexedRecord fuel kv.file key = some (recOff, h) → h.tomb = false →
          LeadsWithin (run kvStep kv ops).file h.keyEnd h.vlen) := by
  by_cases untouched : Untouched kv key ops
  · rw [staysWithin_iff, slot_untouched untouched]
    constructor
    · intro within _ fuel opened recOff h indexed live
      have slot := (slot_opened opened).mpr ⟨recOff, h, indexed, live, rfl, rfl⟩
      exact (length_readValue_le _ _ _).mp (within _ _ slot)
    · intro within off len slot
      obtain ⟨fuel, opened⟩ := history.opens
      obtain ⟨recOff, h, indexed, live, rfl, rfl⟩ := (slot_opened opened).mp slot
      exact (length_readValue_le _ _ _).mpr (within untouched fuel opened recOff h indexed live)
  · have within := staysWithin_of_readsBack (readsBack_touched untouched)
    exact iff_of_true within fun same => absurd same untouched

/-- One record for the key `k`, with the value `00 01`: the reread copies one byte. -/
def oneByte : Bytes := (KvOp.put (ascii "k") [0, 1]).record

theorem reread_stays_within :
    ∃ kv, slKvstoreOpen 64 oneByte = some kv ∧
      StaysWithin (run kvStep kv [.delete (ascii "a")]) (ascii "k") := by
  have returns : (slKvstoreOpen 64 oneByte).map (fun kv =>
      (kv.slot (ascii "k"), readLengths (fread (run kvStep kv [.delete (ascii "a")]).file 4 hdrSize))) =
        some (some (4, 2), some ⟨0, 1, 1, 1⟩) := by decide +kernel
  obtain ⟨kv, opened, state⟩ := Option.map_eq_some_iff.mp returns
  obtain ⟨slot, lengths⟩ := Prod.mk.inj state
  refine ⟨kv, opened, ?_⟩
  apply (reads_stay_within_iff oneByte kv [.delete (ascii "a")] (ascii "k")
    (.wrote _ (.opened opened))).mpr
  intro _ fuel opened' recOff h indexed live l valueOff leads
  obtain ⟨keyEnd, vlen⟩ := Prod.mk.inj (Option.some.inj
    (((slot_opened opened').mpr ⟨recOff, h, indexed, live, rfl, rfl⟩).symm.trans slot))
  rw [keyEnd] at leads
  obtain rfl := Option.some.inj (lengths.symm.trans leads.lengths)
  rw [vlen]
  exact Nat.le_trans (Nat.min_le_left _ _) (by decide)

/-- One record for the key `k`, with the value `00 05`. -/
def fiveBytes : Bytes := (KvOp.put (ascii "k") [0, 5]).record

/-- The value is read as a record without a key and with a value of five bytes. Three are left
in the file, and are copied to a buffer for two. -/
theorem read_overflows_buffer :
    (slKvstoreOpen 64 fiveBytes).map (fun kv =>
      ((kv.slKvstoreGet (ascii "k") 2).vlenOut, (kv.slKvstoreGet (ascii "k") 2).buf.length)) =
        some (some 2, 3) := by
  decide +kernel

end Bounds

end SecureLink.Guarantees.StoreCorruption
