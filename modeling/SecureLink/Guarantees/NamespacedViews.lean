import SecureLink.Library.Runs
import SecureLink.Source.Store.StateStore

/-!
# Namespaced views

A view puts its prefix and a separator in front of every key (inc/state_store.hpp:68-75), and
both prefix and key may contain the separator. Two views keep out of each other's keys exactly
if neither prefix begins the other, separators included. For keys kept apart, what is written
through one view does not change a value that the other can read.
-/
namespace SecureLink.Guarantees.NamespacedViews
open Library.BigEndian Library.Runs Source.Store Source.Store.SlKvstore
open Source.Store.StateStoreView (make make_eq prefixes_of_same_key)

inductive ViewWrite where
  | putString (key value : Bytes)
  | putU64 (key : Bytes) (value : UInt64)
  | remove (key : Bytes)
  deriving DecidableEq, Repr

def viewWrite (prefix_ : Bytes) (s : StateStore) : ViewWrite → StateStore × Bool
  | .putString key value => StateStoreView.putString prefix_ s key value
  | .putU64 key value => StateStoreView.putU64 prefix_ s key value
  | .remove key => StateStoreView.remove prefix_ s key

/-- The operation on the store that a write through the view comes to. -/
def ViewWrite.op (prefix_ : Bytes) : ViewWrite → KvOp
  | .putString key value => .put (make prefix_ key) value
  | .putU64 key value => .put (make prefix_ key) (encode 8 value.toNat)
  | .remove key => .delete (make prefix_ key)

theorem viewWrite_eq (prefix_ : Bytes) (s : StateStore) (w : ViewWrite) :
    viewWrite prefix_ s w = s.write fun kv => kv.kvStep (w.op prefix_) := by
  cases w <;> rfl

theorem ViewWrite.op_key (prefix_ : Bytes) (w : ViewWrite) :
    ∃ key, (w.op prefix_).key = make prefix_ key := by
  cases w with
  | putString key value => exact ⟨key, rfl⟩
  | putU64 key value => exact ⟨key, rfl⟩
  | remove key => exact ⟨key, rfl⟩

/-- Every answer that the view gives about a key. -/
structure Answers where
  string : Option Bytes
  u64 : FixedBytes 8 → Option UInt64
  has : Bool

def answers (prefix_ : Bytes) (s : StateStore) (key : Bytes) : Answers where
  string := StateStoreView.getString prefix_ s key
  u64 := StateStoreView.getU64 prefix_ s key
  has := StateStoreView.has prefix_ s key

/-- Every entry of the store can be read back, with the length the index has. -/
def Sound (s : StateStore) : Prop := ∀ kv ∈ s.kv, ∀ key, ReadsBack key kv

/-- A store that was opened on an empty file is sound. -/
theorem sound_fresh : Sound { kv := some { file := [] } } := by
  intro kv same key off len present
  obtain rfl := Option.some.inj same
  cases present

/-- Every write of the store keeps it sound. -/
theorem Sound.write {s : StateStore} (sound : Sound s) (op : KvOp) :
    Sound (s.write fun kv => kv.kvStep op).1 := by
  obtain ⟨kv⟩ := s
  cases kv with
  | none => exact sound
  | some kv =>
    intro after same key
    obtain rfl := Option.some.inj same
    exact (sound kv rfl key).step op

/-- So every store is that was opened on an empty file and then written to. -/
theorem written_sound (ops : List KvOp) :
    Sound (run (fun (s : StateStore) op => s.write fun kv => kv.kvStep op)
      { kv := some { file := [] } } ops) :=
  run_invariant Sound (fun _ op sound => sound.write op) ops sound_fresh

/-- Answers depend on the entry and on what is read from the file for it. -/
theorem answers_congr {kv kv' : SlKvstore} (q key : Bytes)
    (slot : kv'.slot (make q key) = kv.slot (make q key))
    (read : ∀ off len, kv.slot (make q key) = some (off, len) →
      readValue kv'.file off = readValue kv.file off) :
    answers q { kv := some kv' } key = answers q { kv := some kv } key := by
  have get : ∀ bufCap, kv'.slKvstoreGet (make q key) bufCap = kv.slKvstoreGet (make q key) bufCap := by
    intro bufCap
    cases here : kv.slot (make q key) with
    | none => rw [slKvstoreGet_none (slot.trans here), slKvstoreGet_none here]
    | some entry =>
      obtain ⟨off, len⟩ := entry
      rw [slKvstoreGet_some (slot.trans here), slKvstoreGet_some here, read off len here]
  have string : StateStoreView.getString q { kv := some kv' } key =
      StateStoreView.getString q { kv := some kv } key := by
    simp only [StateStoreView.getString, StateStore.getString, StateStore.readGrowing,
      Option.bind_some, get]
  have u64 : StateStoreView.getU64 q { kv := some kv' } key =
      StateStoreView.getU64 q { kv := some kv } key := by
    funext stack
    simp only [StateStoreView.getU64, StateStore.getU64, Option.bind_some, get]
  have has : StateStoreView.has q { kv := some kv' } key = StateStoreView.has q { kv := some kv } key := by
    simp only [StateStoreView.has, StateStore.has, Option.map_some, slKvstoreHas_eq, slot]
  rw [answers, string, u64, has, answers]

/-- A write to another key of the store leaves the answers of a view. -/
theorem answers_write {s : StateStore} (sound : Sound s) {op : KvOp} {q key : Bytes}
    (other : op.key ≠ make q key) :
    answers q (s.write fun kv => kv.kvStep op).1 key = answers q s key := by
  obtain ⟨kv⟩ := s
  cases kv with
  | none => rfl
  | some kv =>
    have elsewhere : op.key = make q key → (kv.kvStep op).2 ≠ 0 := fun same => absurd same other
    obtain ⟨slot, more, file⟩ := kvStep_other elsewhere
    apply answers_congr q key slot
    intro off len present
    obtain ⟨value, read, -⟩ := sound kv rfl (make q key) off len present
    rw [file, readValue_grows read more, read]

/-- No writes through the first view, however many, change an answer of the second. -/
def Independent (p q : Bytes) : Prop :=
  ∀ s, Sound s → ∀ (writes : List ViewWrite) (key : Bytes),
    answers q (run (viewWrite p) s writes) key = answers q s key

theorem independent_of_apart {p q : Bytes} (apart : ¬ ∃ key other, make p key = make q other) :
    Independent p q := by
  intro s sound writes key
  induction writes generalizing s with
  | nil => rfl
  | cons w rest ih =>
    obtain ⟨written, place⟩ := w.op_key p
    have other : (w.op p).key ≠ make q key := fun same => apart ⟨written, key, place.symm.trans same⟩
    rw [run_cons, viewWrite_eq, ih _ (sound.write (w.op p)), answers_write sound other]

/-- Record headers are short, so that keys which leave some room in a file can be put. -/
theorem put_succeeds {key : Bytes} (room : key.length + 64 ≤ longBound) :
    (kvStep { file := [] } (.put key [])).2 = 0 := by
  have bound : longBound < 2 ^ 64 := by decide
  obtain ⟨k, v, written, -, -, kShort, vShort⟩ :=
    recordHeader_spells 0 (show key.length < 2 ^ 64 by omega) (show 0 < 2 ^ 64 by decide)
  have header : (KvOp.put key []).header = k ++ v ++ [0] := by
    rw [KvOp.header]
    exact congrArg (Option.getD · []) written
  have size := KvOp.length_record (.put key [])
  have ten : slVarintMaxLen = 10 := rfl
  simp only [header, KvOp.key, KvOp.value, List.length_append, List.length_nil,
    List.length_singleton] at size
  rw [kvStep_eq, if_pos]
  simp only [List.length_nil]
  omega

/-- A key of the store that both views can name shows what the first one wrote. -/
theorem not_independent {p q key other : Bytes} (same : make p key = make q other)
    (room : (make q other).length + 64 ≤ longBound) : ¬ Independent p q := by
  intro independent
  have before := independent _ sound_fresh [.putString key []] other
  have own : (kvStep { file := [] } (.put (make q other) [])).1.slot (make q other) = some (0, 0) :=
    (kvStep_own (put_succeeds room)).1
  have present : StateStoreView.has q (run (viewWrite p) { kv := some { file := [] } }
      [.putString key []]) other = true := by
    simp only [run_cons, run_nil, viewWrite_eq, ViewWrite.op, same, StateStoreView.has, StateStore.has,
      StateStore.write, Option.map_some, Option.getD_some, slKvstoreHas_eq, own, Option.isSome_some]
  have absent : StateStoreView.has q { kv := some { file := [] } } other = false := rfl
  have changed := congrArg Answers.has before
  simp only [answers, present, absent] at changed
  cases changed

end SecureLink.Guarantees.NamespacedViews
