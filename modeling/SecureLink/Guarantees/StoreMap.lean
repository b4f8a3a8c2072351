import Mathlib.Data.List.AList
import SecureLink.Library.Runs
import SecureLink.Source.Store.KvReplay

/-!
# The open store is a finite map

A store that stays open answers every call as a finite map from keys to values would.
The index only holds offsets: what ties it to the map is that each live entry points at a
record with its key and value in the file, and that the file only grows.
-/
namespace SecureLink.Guarantees.StoreMap
open Library Library.BigEndian Library.Runs Library.Log Source.Store Source.Store.SlKvstore

/-- What a store is for. -/
abbrev Contents := AList (fun _ : Bytes => Bytes)

def apply (m : Contents) : KvOp → Contents
  | .put key value => m.insert key value
  | .delete key => m.erase key

def contents (ops : List KvOp) : Contents := ops.foldl apply ∅

theorem lookup_apply (m : Contents) (op : KvOp) (key : Bytes) :
    (apply m op).lookup key = if key = op.key then op.stored else m.lookup key := by
  cases op with
  | put k value =>
    change (m.insert k value).lookup key = if key = k then some value else m.lookup key
    by_cases same : key = k
    · rw [if_pos same, same, AList.lookup_insert]
    · rw [if_neg same, AList.lookup_insert_ne same]
  | delete k =>
    change (m.erase k).lookup key = if key = k then none else m.lookup key
    by_cases same : key = k
    · rw [if_pos same, same, AList.lookup_erase]
    · rw [if_neg same, AList.lookup_erase_ne same]

/-- The live entries of the store are the keys of the map. -/
structure Lists (kv : SlKvstore) (m : Contents) : Prop where
  placed : kv.Placed
  keys : ∀ key, (kv.slot key).isSome = (m.lookup key).isSome

theorem Lists.has {kv : SlKvstore} {m : Contents} (lists : Lists kv m) (key : Bytes) :
    kv.slKvstoreHas key = (m.lookup key).isSome := by
  rw [slKvstoreHas_eq, lists.keys]

theorem Lists.size {kv : SlKvstore} {m : Contents} (lists : Lists kv m) :
    kv.slKvstoreSize = m.keys.length := by
  rw [← List.toFinset_card_of_nodup m.keys_nodup]
  refine lists.placed.slKvstoreSize_eq m.keys.toFinset fun key => ?_
  rw [lists.keys, AList.lookup_isSome, List.mem_toFinset, AList.mem_keys]

/-- A live entry points at a record with the key's value. -/
structure Denotes (kv : SlKvstore) (m : Contents) : Prop where
  lists : Lists kv m
  small : kv.file.length < longBound
  points : ∀ key value, m.lookup key = some value → ∃ off rest,
    kv.slot key = some (off, value.length) ∧
    kv.file.drop off = (KvOp.put key value).record ++ rest

/-- The store on an empty file. -/
def fresh : SlKvstore := { file := [] }

theorem slKvstoreOpen_empty (fuel : Nat) : slKvstoreOpen (fuel + 1) [] = some fresh :=
  replay_stop (readHead_end (Nat.le_refl _)) (Nat.succ_pos fuel)

theorem fresh_denotes : Denotes fresh ∅ where
  lists := ⟨Chains.placed_empty _ _, fun _ => rfl⟩
  small := by decide
  points := fun key value found => by simp at found

/-- A record stays where it is when the file grows. -/
theorem drop_grown {file record rest : Bytes} {off : Nat} (here : file.drop off = record ++ rest)
    (nonempty : 0 < record.length) (more : Bytes) :
    (file ++ more).drop off = record ++ (rest ++ more) := by
  have inside : off ≤ file.length := by
    by_contra outside
    have lengths := congrArg List.length here
    rw [List.length_drop, List.length_append] at lengths
    omega
  rw [List.drop_append_of_le_length inside, here, List.append_assoc]

theorem Denotes.step {kv : SlKvstore} {m : Contents} (denotes : Denotes kv m) {op : KvOp}
    (succeeds : (kv.kvStep op).2 = 0) :
    Denotes (kv.kvStep op).1 (apply m op) ∧ (kv.kvStep op).1.file = kv.file ++ op.record := by
  by_cases room : kv.file.length + op.record.length < longBound
  · have stepped : (kv.kvStep op).1 =
        liveOp { kv with file := kv.file ++ op.record } kv.file.length op := by
      rw [kvStep_eq, if_pos room]
    have slots : ∀ key, (kv.kvStep op).1.slot key =
        if key = op.key then op.stored.map fun value => (kv.file.length, value.length)
        else kv.slot key := by
      intro key
      rw [stepped, slot_liveOp]
      rfl
    have file : (kv.kvStep op).1.file = kv.file ++ op.record := by rw [stepped, file_liveOp]
    refine ⟨⟨⟨?_, fun key => ?_⟩, ?_, fun key value found => ?_⟩, file⟩
    · have placed : Placed { kv with file := kv.file ++ op.record } := denotes.lists.placed
      rw [stepped]
      exact placed.liveOp kv.file.length op
    · rw [slots, lookup_apply]
      by_cases same : key = op.key
      · simp only [if_pos same, Option.isSome_map]
      · simp only [if_neg same, denotes.lists.keys key]
    · rw [file, List.length_append]
      exact room
    · rw [lookup_apply] at found
      rw [slots, file]
      by_cases same : key = op.key
      · rw [if_pos same] at found ⊢
        cases op with
        | put k v =>
          obtain rfl : v = value := Option.some.inj found
          obtain rfl : key = k := same
          exact ⟨kv.file.length, [], rfl, by rw [List.drop_left, List.append_nil]⟩
        | delete k => cases found
      · rw [if_neg same] at found ⊢
        obtain ⟨off, rest, slot, here⟩ := denotes.points key value found
        have nonempty : 0 < (KvOp.put key value).record.length := by
          rw [KvOp.length_record]
          omega
        exact ⟨off, rest ++ op.record, slot, drop_grown here nonempty op.record⟩
  · rw [kvStep_eq, if_neg room] at succeeds
    cases succeeds

/-- Puts and deletes that all succeed leave their log in the file. -/
theorem Denotes.run {kv : SlKvstore} {m : Contents} (denotes : Denotes kv m) {ops : List KvOp}
    (succeeds : ∀ rc ∈ outputs kvStep kv ops, rc = 0) :
    Denotes (Runs.run kvStep kv ops) (ops.foldl apply m) ∧
      (Runs.run kvStep kv ops).file = kv.file ++ log KvOp.record ops := by
  induction ops generalizing kv m with
  | nil => exact ⟨denotes, (List.append_nil _).symm⟩
  | cons op rest ih =>
    rw [outputs, List.forall_mem_cons] at succeeds
    obtain ⟨next, file⟩ := denotes.step succeeds.1
    obtain ⟨last, files⟩ := ih next succeeds.2
    refine ⟨last, ?_⟩
    rw [run_cons, files, file, log_cons, List.append_assoc]

/-- The answer of a read of the map, in the words of the store. -/
def answerGet (bufCap : Nat) : Option Bytes → Got
  | none => { rc := -2 }
  | some value =>
    if bufCap < value.length then { rc := -3, vlenOut := some value.length }
    else { rc := 0, vlenOut := some value.length, buf := value }

theorem Denotes.get {kv : SlKvstore} {m : Contents} (denotes : Denotes kv m) (key : Bytes)
    (bufCap : Nat) : kv.slKvstoreGet key bufCap = answerGet bufCap (m.lookup key) := by
  cases found : m.lookup key with
  | none =>
    have missing : kv.slot key = none := by
      have listed := denotes.lists.keys key
      simpa [found] using listed
    rw [slKvstoreGet_none missing, answerGet]
  | some value =>
    obtain ⟨off, rest, slot, here⟩ := denotes.points key value found
    have inside : off + (KvOp.put key value).record.length < longBound := by
      have lengths := congrArg List.length here
      have size := (KvOp.put key value).length_record
      have small := denotes.small
      rw [List.length_drop, List.length_append] at lengths
      omega
    simp only [slKvstoreGet_some slot, answerGet, readValue_record inside here, KvOp.value]

inductive KvCall where
  | put (key value : Bytes)
  | delete (key : Bytes)
  | get (key : Bytes) (bufCap : Nat)
  | has (key : Bytes)
  | size
  deriving DecidableEq, Repr

inductive KvAnswer where
  | code (rc : Int)
  | got (result : Got)
  | has (found : Bool)
  | size (live : Nat)
  deriving DecidableEq, Repr

/-- One call to the store. -/
def kvCall (kv : SlKvstore) : KvCall → SlKvstore × KvAnswer
  | .put key value => ((kv.kvStep (.put key value)).1, .code (kv.kvStep (.put key value)).2)
  | .delete key => ((kv.kvStep (.delete key)).1, .code (kv.kvStep (.delete key)).2)
  | .get key bufCap => (kv, .got (kv.slKvstoreGet key bufCap))
  | .has key => (kv, .has (kv.slKvstoreHas key))
  | .size => (kv, .size kv.slKvstoreSize)

/-- The same call to the map: every write succeeds. -/
def mapCall (m : Contents) : KvCall → Contents × KvAnswer
  | .put key value => (apply m (.put key value), .code 0)
  | .delete key => (apply m (.delete key), .code 0)
  | .get key bufCap => (m, .got (answerGet bufCap (m.lookup key)))
  | .has key => (m, .has (m.lookup key).isSome)
  | .size => (m, .size m.keys.length)

/-- A write returns 0 or -1. -/
theorem kvStep_rc (kv : SlKvstore) (op : KvOp) : (kv.kvStep op).2 = 0 ∨ (kv.kvStep op).2 = -1 := by
  rw [kvStep_eq]
  by_cases room : kv.file.length + op.record.length < longBound
  · rw [if_pos room]
    exact Or.inl rfl
  · rw [if_neg room]
    exact Or.inr rfl

theorem call_follows (kv : SlKvstore) (m : Contents) (call : KvCall) (denotes : Denotes kv m)
    (succeeds : (kvCall kv call).2 ≠ .code (-1)) :
    Denotes (kvCall kv call).1 (mapCall m call).1 ∧ (kvCall kv call).2 = (mapCall m call).2 := by
  have write : ∀ op, KvAnswer.code (kv.kvStep op).2 ≠ .code (-1) →
      Denotes (kv.kvStep op).1 (apply m op) ∧ KvAnswer.code (kv.kvStep op).2 = .code 0 := by
    intro op notFailed
    have zero : (kv.kvStep op).2 = 0 :=
      (kvStep_rc kv op).resolve_right fun failed => notFailed (congrArg KvAnswer.code failed)
    exact ⟨(denotes.step zero).1, congrArg KvAnswer.code zero⟩
  cases call with
  | put key value => exact write (.put key value) succeeds
  | delete key => exact write (.delete key) succeeds
  | get key bufCap => exact ⟨denotes, congrArg KvAnswer.got (denotes.get key bufCap)⟩
  | has key => exact ⟨denotes, congrArg KvAnswer.has (denotes.lists.has key)⟩
  | size => exact ⟨denotes, congrArg KvAnswer.size denotes.lists.size⟩

/-- A store opened on an empty file answers every sequence of calls in which no write
failed as the map does: a read gives the last value put, -2 without one, and -3 with the
length exactly when the buffer is too small. -/
theorem live_store_refines_map (calls : List KvCall)
    (succeeds : ∀ answer ∈ outputs kvCall fresh calls, answer ≠ .code (-1)) :
    (∀ fuel, slKvstoreOpen (fuel + 1) [] = some fresh) ∧
    outputs kvCall fresh calls = outputs mapCall ∅ calls :=
  ⟨slKvstoreOpen_empty,
    (run_simulates Denotes call_follows fresh_denotes (allSteps_outputs.mpr succeeds)).2⟩

/-- Overwrite, empty value under an empty key, delete and revival. -/
def sampleCalls : List KvCall :=
  [.put (ascii "k") (ascii "old"), .put (ascii "k") (ascii "newer"), .put [] [],
    .get (ascii "k") 5, .get (ascii "k") 4, .get [] 0, .delete [], .get [] 0,
    .put [] (ascii "x"), .get [] 1]

theorem sample_refines_map :
    outputs kvCall fresh sampleCalls =
      [.code 0, .code 0, .code 0, .got ⟨0, some 5, ascii "newer"⟩, .got ⟨-3, some 5, []⟩,
        .got ⟨0, some 0, []⟩, .code 0, .got ⟨-2, none, []⟩, .code 0,
        .got ⟨0, some 1, ascii "x"⟩] ∧
    outputs kvCall fresh sampleCalls = outputs mapCall ∅ sampleCalls := by
  refine ⟨by decide +kernel, (live_store_refines_map sampleCalls ?_).2⟩
  decide +kernel

end SecureLink.Guarantees.StoreMap
