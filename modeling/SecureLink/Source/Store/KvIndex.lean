import SecureLink.Source.Store.KvStore

/-!
# The index of the key-value store

What the chained index says of a key: where its live entry points and the length it
gives. Every operation reads and changes the index only through this.
-/
namespace SecureLink.Source.Store
open Library Library.BigEndian

theorem bucketOf_lt (key : Bytes) : bucketOf key < slKvBuckets := Nat.mod_lt _ (by decide)

/-- A flag byte with the tombstone bit set marks a dead entry, whatever it was before. -/
theorem tomb_or (flags : UInt8) : (flags ||| slKvFlagTomb) &&& slKvFlagTomb ≠ 0 := by
  have all : ∀ f : Fin 256, (UInt8.ofFin f ||| slKvFlagTomb) &&& slKvFlagTomb ≠ 0 := by
    decide +kernel
  exact all flags.toFin

namespace SlKvstore

/-- Offset and length of the live entry of a key. -/
def slot (kv : SlKvstore) (key : Bytes) : Option (Nat × Nat) :=
  ((kv.findEntry key).filter KvEntry.live).map fun e => (e.fileOffset, e.vlen)

def Placed (kv : SlKvstore) : Prop := Chains.Placed bucketOf KvEntry.key kv.buckets

@[simp] theorem file_modifyEntry (kv : SlKvstore) (key : Bytes) (f : KvEntry → KvEntry) :
    (kv.modifyEntry key f).file = kv.file := rfl

@[simp] theorem file_setEntry (kv : SlKvstore) (key : Bytes) (off len : Nat) :
    (kv.setEntry key off len).file = kv.file := by
  unfold setEntry upsertEntry
  cases kv.findEntry key <;> rfl

theorem findEntry_modifyEntry (kv : SlKvstore) (key other : Bytes) {f : KvEntry → KvEntry}
    (keeps : ∀ e, (f e).key = e.key) :
    (kv.modifyEntry key f).findEntry other =
      if other = key then (kv.findEntry key).map f else kv.findEntry other :=
  Chains.find_modify keeps kv.buckets other

theorem findEntry_upsertEntry (kv : SlKvstore) (key other : Bytes) :
    (kv.upsertEntry key).findEntry other =
      if other = key then some ((kv.findEntry key).getD { key }) else kv.findEntry other := by
  unfold upsertEntry
  cases found : kv.findEntry key with
  | some e =>
    by_cases same : other = key
    · simp [same, found]
    · simp [same]
  | none => exact Chains.find_push kv.buckets { key } other

theorem slot_setEntry (kv : SlKvstore) (key other : Bytes) (off len : Nat) :
    (kv.setEntry key off len).slot other = if other = key then some (off, len) else kv.slot other := by
  have keeps : ∀ e : KvEntry,
      ({ e with fileOffset := off, vlen := len, flags := 0 } : KvEntry).key = e.key := fun _ => rfl
  rw [slot, setEntry, findEntry_modifyEntry _ _ _ keeps, findEntry_upsertEntry,
    findEntry_upsertEntry]
  by_cases same : other = key
  · simp [same, KvEntry.live]
  · simp [same, slot]

/-- Any write that marks the entry dead. -/
theorem slot_modifyEntry (kv : SlKvstore) (key other : Bytes) {f : KvEntry → KvEntry}
    (keeps : ∀ e, (f e).key = e.key) (dead : ∀ e, (f e).live = false) :
    (kv.modifyEntry key f).slot other = if other = key then none else kv.slot other := by
  rw [slot, findEntry_modifyEntry _ _ _ keeps]
  by_cases same : other = key
  · cases kv.findEntry key <;> simp [same, dead]
  · simp [same, slot]

theorem Placed.modifyEntry {kv : SlKvstore} (placed : kv.Placed) (key : Bytes)
    {f : KvEntry → KvEntry} (keeps : ∀ e, (f e).key = e.key) : (kv.modifyEntry key f).Placed :=
  Chains.Placed.modify keeps placed

theorem Placed.setEntry {kv : SlKvstore} (placed : kv.Placed) (key : Bytes) (off len : Nat) :
    (kv.setEntry key off len).Placed := by
  have upserted : (kv.upsertEntry key).Placed := by
    unfold upsertEntry
    cases found : kv.findEntry key with
    | some e => exact placed
    | none => exact Chains.Placed.push placed found
  exact upserted.modifyEntry key fun _ => rfl

theorem slot_missing {kv : SlKvstore} {key : Bytes} (missing : kv.findEntry key = none) :
    kv.slot key = none := by
  rw [slot, missing]
  rfl

theorem slot_found {kv : SlKvstore} {key : Bytes} {e : KvEntry} (found : kv.findEntry key = some e) :
    kv.slot key = if e.live = true then some (e.fileOffset, e.vlen) else none := by
  rw [slot, found]
  cases alive : e.live <;> simp [Option.filter, alive]

theorem slKvstoreHas_eq (kv : SlKvstore) (key : Bytes) :
    kv.slKvstoreHas key = (kv.slot key).isSome := by
  cases found : kv.findEntry key with
  | none => simp only [slKvstoreHas, found, slot_missing found, Option.isSome_none]
  | some e => cases alive : e.live <;> simp [slKvstoreHas, found, slot_found found, alive]

theorem slKvstoreGet_none {kv : SlKvstore} {key : Bytes} (missing : kv.slot key = none)
    (bufCap : Nat) : kv.slKvstoreGet key bufCap = { rc := -2 } := by
  cases found : kv.findEntry key with
  | none => simp only [slKvstoreGet, found]
  | some e =>
    have dead : e.live = false := by simpa [slot_found found] using missing
    simp [slKvstoreGet, found, dead]

theorem slKvstoreGet_some {kv : SlKvstore} {key : Bytes} {off len : Nat}
    (present : kv.slot key = some (off, len)) (bufCap : Nat) :
    kv.slKvstoreGet key bufCap =
      if bufCap < len then { rc := -3, vlenOut := some len }
      else { rc := (readValue kv.file off).1, vlenOut := some len,
             buf := (readValue kv.file off).2 } := by
  cases found : kv.findEntry key with
  | none =>
    rw [slot_missing found] at present
    cases present
  | some e =>
    have entry : e.live = true ∧ e.fileOffset = off ∧ e.vlen = len := by
      simpa [slot_found found] using present
    obtain ⟨alive, rfl, rfl⟩ := entry
    simp [slKvstoreGet, found, alive]

/-- The size is the number of keys with a live entry. -/
theorem Placed.slKvstoreSize_eq {kv : SlKvstore} (placed : kv.Placed) (keys : Finset Bytes)
    (live : ∀ key, key ∈ keys ↔ (kv.slot key).isSome = true) : kv.slKvstoreSize = keys.card := by
  refine Chains.Placed.total_eq_card placed bucketOf_lt keys fun key => ?_
  rw [live key]
  change _ ↔ ∃ e, kv.findEntry key = some e ∧ _
  cases found : kv.findEntry key with
  | none => simp [slot_missing found]
  | some e => cases alive : e.live <;> simp [slot_found found, alive]

end SlKvstore

end SecureLink.Source.Store
