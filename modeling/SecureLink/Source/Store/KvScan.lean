import SecureLink.Library.Scan
import SecureLink.Source.Store.KvIndex

/-!
# Replay of an arbitrary file

The loop of `sl_kvstore_open` on any bytes is a scan for record heads. Whatever the file
holds, the index entry of a key comes from the last head with that key.
-/
namespace SecureLink.Source.Store
open Library.BigEndian Library.Scan

namespace SlKvstore

/-- The offset behind the key, where the value starts. -/
def RecordHead.keyEnd (h : RecordHead) : Nat := h.keyOff + h.key.length

def RecordHead.tomb (h : RecordHead) : Bool := h.flags &&& slKvFlagTomb ≠ 0

/-- Where the replay looks for the next record; `none` is a seek that failed. -/
def RecordHead.next (h : RecordHead) : Option Nat :=
  if h.tomb then fseek (h.keyEnd + 4 : Nat)
  else (fseek (h.keyEnd + toLong h.vlen)).bind fun valueEnd => fseek (valueEnd + 4 : Nat)

/-- What the head leaves in the index for its key. -/
def RecordHead.entry (h : RecordHead) : Option (Nat × Nat) :=
  if h.tomb then none else some (h.keyEnd, h.vlen)

/-- One round of the replay. -/
def kvLook (file : Bytes) (pos : Nat) : Option (RecordHead × Option Nat) :=
  (readHead file pos).map fun h => (h, h.next)

def takeHead (kv : SlKvstore) (h : RecordHead) : SlKvstore :=
  if h.tomb then kv.modifyEntry h.key fun e => { e with flags := e.flags ||| slKvFlagTomb }
  else kv.setEntry h.key h.keyEnd h.vlen

/-- The last head with this key, and where its record starts. -/
def lastOf (key : Bytes) (items : List (Nat × RecordHead)) : Option (Nat × RecordHead) :=
  items.reverse.find? fun item => item.2.key == key

/-- A seek that succeeds arrives where it was sent. -/
theorem fseek_eq_some {target : Int} {pos : Nat} :
    fseek target = some pos ↔ target = pos ∧ pos < longBound := by
  cases target with
  | ofNat n =>
    rw [fseek]
    by_cases inside : n < longBound
    · rw [if_pos inside, Option.some.injEq]
      constructor
      · intro same
        exact ⟨congrArg Int.ofNat same, same ▸ inside⟩
      · intro same
        exact Int.ofNat.inj same.1
    · rw [if_neg inside]
      constructor
      · intro absent
        cases absent
      · intro same
        exact absurd (Int.ofNat.inj same.1 ▸ same.2) inside
  | negSucc n =>
    constructor
    · intro absent
      cases absent
    · intro same
      cases same.1

/-- Everything a round has read when it has read a head. -/
theorem readHead_some {file : Bytes} {pos : Nat} {h : RecordHead} (read : readHead file pos = some h) :
    ∃ l, readLengths (fread file pos hdrSize) = some l ∧
      l.kn + l.vn + 1 ≤ (fread file pos hdrSize).length ∧
      h.keyOff = pos + l.kn + l.vn + 1 ∧ h.keyOff < longBound ∧
      fread file h.keyOff l.klen = h.key ∧ h.key.length = l.klen ∧
      h.flags = (fread file pos hdrSize).getD (l.kn + l.vn) 0 ∧ h.vlen = l.vlen := by
  unfold readHead at read
  dsimp only at read
  split at read
  · cases read
  next =>
    cases lengths : readLengths (fread file pos hdrSize) with
    | none =>
      rw [lengths] at read
      cases read
    | some l =>
      rw [lengths] at read
      dsimp only at read
      split at read
      · cases read
      next complete =>
        cases seek : fseek (pos + l.kn + l.vn + 1 : Nat) with
        | none =>
          rw [seek] at read
          cases read
        | some keyOff =>
          obtain ⟨same, inside⟩ := fseek_eq_some.mp seek
          rw [seek] at read
          dsimp only at read
          split at read
          · cases read
          next =>
            split at read
            · cases read
            next there =>
              obtain rfl := Option.some.inj read
              exact ⟨l, rfl, Nat.not_lt.mp complete, (Int.ofNat.inj same).symm, inside, rfl,
                not_not.mp there, rfl, rfl⟩

theorem replayRecord_none {kv : SlKvstore} {pos : Nat} (unread : readHead kv.file pos = none) :
    kv.replayRecord pos = (kv, none) := by
  simp only [replayRecord, unread]

theorem replayRecord_some {kv : SlKvstore} {pos : Nat} {h : RecordHead}
    (read : readHead kv.file pos = some h) : kv.replayRecord pos = (kv.takeHead h, h.next) := by
  simp only [replayRecord, read, takeHead, RecordHead.next, RecordHead.tomb, RecordHead.keyEnd,
    decide_eq_true_eq]
  by_cases tomb : h.flags &&& slKvFlagTomb ≠ 0
  · rw [if_pos tomb, if_pos tomb, if_pos tomb]
  · rw [if_neg tomb, if_neg tomb, if_neg tomb]

@[simp] theorem file_takeHead (kv : SlKvstore) (h : RecordHead) : (kv.takeHead h).file = kv.file := by
  unfold takeHead
  split <;> simp

theorem slot_takeHead (kv : SlKvstore) (h : RecordHead) (key : Bytes) :
    (kv.takeHead h).slot key = if key = h.key then h.entry else kv.slot key := by
  unfold takeHead RecordHead.entry
  cases h.tomb with
  | true => exact slot_modifyEntry kv _ key (fun _ => rfl) fun e => decide_eq_false (tomb_or e.flags)
  | false => exact slot_setEntry kv _ key _ _

/-- The replay takes the heads that the scan finds. -/
theorem replay_eq_scan (fuel : Nat) (kv : SlKvstore) (pos : Nat) :
    replay fuel kv pos = (scan (kvLook kv.file) fuel pos).map fun items =>
      items.foldl (fun kv item => kv.takeHead item.2) kv := by
  induction fuel generalizing kv pos with
  | zero => rfl
  | succ fuel ih =>
    cases read : readHead kv.file pos with
    | none =>
      have look : kvLook kv.file pos = none := by rw [kvLook, read, Option.map_none]
      simp only [replay, replayRecord_none read, scan, look, Option.map_some, List.foldl_nil]
    | some h =>
      have look : kvLook kv.file pos = some (h, h.next) := by rw [kvLook, read, Option.map_some]
      simp only [replay, replayRecord_some read, scan, look]
      cases h.next with
      | none => rfl
      | some next =>
        simp only [ih, file_takeHead, Option.map_map]
        rfl

theorem file_foldl_takeHead (items : List (Nat × RecordHead)) (kv : SlKvstore) :
    (items.foldl (fun kv item => kv.takeHead item.2) kv).file = kv.file := by
  induction items generalizing kv with
  | nil => rfl
  | cons item rest ih => rw [List.foldl_cons, ih, file_takeHead]

theorem lastOf_concat (key : Bytes) (items : List (Nat × RecordHead)) (item : Nat × RecordHead) :
    lastOf key (items ++ [item]) = if key = item.2.key then some item else lastOf key items := by
  rw [lastOf, List.reverse_concat]
  by_cases same : key = item.2.key
  · rw [if_pos same]
    exact List.find?_cons_of_pos (by simp [same])
  · rw [if_neg same]
    exact List.find?_cons_of_neg (by simpa using Ne.symm same)

theorem slot_foldl_takeHead (items : List (Nat × RecordHead)) {kv : SlKvstore} {key : Bytes}
    (missing : kv.slot key = none) :
    (items.foldl (fun kv item => kv.takeHead item.2) kv).slot key =
      (lastOf key items).bind fun item => item.2.entry := by
  induction items using List.reverseRecOn with
  | nil => exact missing
  | append_singleton items item ih =>
    rw [List.foldl_concat, slot_takeHead, ih, lastOf_concat]
    by_cases same : key = item.2.key
    · simp only [if_pos same, Option.bind_some]
    · simp only [if_neg same]

/-- The index after opening any file. -/
theorem slKvstoreOpen_scan {fuel : Nat} {file : Bytes} {kv : SlKvstore}
    (opened : slKvstoreOpen fuel file = some kv) :
    kv.file = file ∧ ∃ items, scan (kvLook file) fuel 0 = some items ∧
      ∀ key, kv.slot key = (lastOf key items).bind fun item => item.2.entry := by
  rw [slKvstoreOpen, replay_eq_scan] at opened
  obtain ⟨items, scanned, rfl⟩ := Option.map_eq_some_iff.mp opened
  exact ⟨file_foldl_takeHead items _, items, scanned, fun key => slot_foldl_takeHead items rfl⟩

/-- The record that the index entry of a key comes from. -/
def indexedRecord (fuel : Nat) (file key : Bytes) : Option (Nat × RecordHead) :=
  (scan (kvLook file) fuel 0).bind (lastOf key)

/-- The entry of a key of the opened store is what the last record of the key says. -/
theorem slot_opened {fuel : Nat} {file : Bytes} {kv : SlKvstore}
    (opened : slKvstoreOpen fuel file = some kv) {key : Bytes} {off len : Nat} :
    kv.slot key = some (off, len) ↔ ∃ recOff h, indexedRecord fuel file key = some (recOff, h) ∧
      h.tomb = false ∧ h.keyEnd = off ∧ h.vlen = len := by
  obtain ⟨-, items, scanned, slots⟩ := slKvstoreOpen_scan opened
  rw [slots, indexedRecord, scanned, Option.bind_some, Option.bind_eq_some_iff, Prod.exists]
  simp only [RecordHead.entry, Option.ite_none_left_eq_some, Bool.not_eq_true, Option.some.injEq,
    Prod.mk.injEq]

end SlKvstore

end SecureLink.Source.Store
