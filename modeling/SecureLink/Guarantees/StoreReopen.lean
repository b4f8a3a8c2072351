import SecureLink.Guarantees.StoreMap

/-!
# The reopened store

Puts and deletes on an empty store, then the file is closed, cut or not, and opened
again. The replay brings back which keys are live, as long as no key is longer than its
buffer and no torn record reaches past its key. It does not bring back the values: a live
entry points at a record, a replayed one at the value, and both are read as a record.
-/
namespace SecureLink.Guarantees.StoreReopen
open Library Library.BigEndian Library.Runs Library.Log Source.Store Source.Store.SlKvstore StoreMap

/-- The store after these operations on an empty file. -/
def written (ops : List KvOp) : SlKvstore := run kvStep fresh ops

def Succeeds (ops : List KvOp) : Prop := ∀ rc ∈ outputs kvStep fresh ops, rc = 0

instance (ops : List KvOp) : Decidable (Succeeds ops) :=
  inferInstanceAs (Decidable (∀ rc ∈ outputs kvStep fresh ops, rc = 0))

theorem written_denotes {ops : List KvOp} (succeeds : Succeeds ops) :
    Denotes (written ops) (contents ops) ∧ (written ops).file = log KvOp.record ops :=
  fresh_denotes.run succeeds

theorem contents_append (ops : List KvOp) (op : KvOp) :
    contents (ops ++ [op]) = apply (contents ops) op := by
  rw [contents, List.foldl_append]
  rfl

theorem lookup_valueAt {key : Bytes} {m : Contents} {found : Option (Nat × Bytes)} {off : Nat}
    {ops : List KvOp} (before : found.map Prod.snd = m.lookup key) :
    (valueAt key off found ops).map Prod.snd = (ops.foldl apply m).lookup key := by
  induction ops generalizing m off found with
  | nil => exact before
  | cons op rest ih =>
    refine ih ?_
    rw [lookup_apply]
    by_cases same : key = op.key
    · simp only [if_pos same, Option.map_map, Function.comp_def, Option.map_id']
    · simp only [if_neg same, before]

/-- Where the replay finds the value of a key. -/
def placeOf (ops : List KvOp) (key : Bytes) : Option (Nat × Bytes) := valueAt key 0 none ops

theorem placeOf_value (ops : List KvOp) (key : Bytes) :
    (placeOf ops key).map Prod.snd = (contents ops).lookup key :=
  lookup_valueAt rfl

/-- What opening the cut log of these operations gives. -/
theorem opened {ops : List KvOp} (succeeds : Succeeds ops) (n : Nat) {fuel : Nat}
    (enough : ((written ops).file.take n).length < fuel) :
    ∃ kv, slKvstoreOpen fuel ((written ops).file.take n) = some kv ∧
      kv.file = (written ops).file.take n ∧ Lists kv (contents (replayed ops n)) ∧
      ∀ key, kv.slot key = (placeOf (replayed ops n) key).map pointer := by
  obtain ⟨denotes, file⟩ := written_denotes succeeds
  have small := denotes.small
  rw [file] at small enough ⊢
  have slots : ∀ key, (replayOps { file := (log KvOp.record ops).take n } 0 (replayed ops n)).slot key =
      (placeOf (replayed ops n) key).map pointer :=
    fun key => slot_replayOps rfl
  have empty : Placed { file := (log KvOp.record ops).take n } := Chains.placed_empty _ _
  refine ⟨_, slKvstoreOpen_log small n enough, file_replayOps _ _ _, ⟨empty.replayOps 0 _, fun key => ?_⟩,
    slots⟩
  rw [slots, ← placeOf_value, Option.isSome_map, Option.isSome_map]

/-- Of the whole log the replay applies everything before the first key too long for it. -/
theorem replayed_whole {ops : List KvOp} {n : Nat} (all : (log KvOp.record ops).length ≤ n) :
    replayed ops n = ops.takeWhile KvOp.short := by
  obtain ⟨whole, torn⟩ := whole_of_length_le all
  rw [replayed, whole, tornOp, torn, List.append_nil]
  by_cases short : ops.all KvOp.short = true
  · rw [if_pos short, List.takeWhile_eq_self_iff.mpr (List.all_eq_true.mp short)]
  · rw [if_neg short]

/-- Closing and opening again without a crash in between. -/
theorem reopened {ops : List KvOp} (succeeds : Succeeds ops) {fuel : Nat}
    (enough : (slKvstoreClose (written ops)).length < fuel) :
    ∃ kv, slKvstoreOpen fuel (slKvstoreClose (written ops)) = some kv ∧
      kv.file = log KvOp.record ops ∧ Lists kv (contents (ops.takeWhile KvOp.short)) ∧
      ∀ key, kv.slot key = (placeOf (ops.takeWhile KvOp.short) key).map pointer := by
  obtain ⟨-, file⟩ := written_denotes succeeds
  have uncut : (written ops).file.take (log KvOp.record ops).length = slKvstoreClose (written ops) := by
    rw [file, List.take_length, slKvstoreClose, file]
  rw [← uncut] at enough
  have result := opened succeeds (log KvOp.record ops).length enough
  rw [uncut, replayed_whole (Nat.le_refl _), slKvstoreClose, file] at result
  rw [slKvstoreClose, file]
  exact result

/-- Which keys are live, and how many, is the same as just before closing, if no key is
longer than the replay's buffer. -/
theorem reopen_keeps_live_keys (ops : List KvOp) (succeeds : Succeeds ops)
    (short : ∀ op ∈ ops, op.key.length ≤ replayKeyMax) (fuel : Nat)
    (enough : (slKvstoreClose (written ops)).length < fuel) :
    ∃ kv, slKvstoreOpen fuel (slKvstoreClose (written ops)) = some kv ∧
      (∀ key, kv.slKvstoreHas key = (written ops).slKvstoreHas key) ∧
      kv.slKvstoreSize = (written ops).slKvstoreSize := by
  obtain ⟨kv, opens, -, lists, -⟩ := reopened succeeds enough
  have everything : ops.takeWhile KvOp.short = ops :=
    List.takeWhile_eq_self_iff.mpr fun op member => decide_eq_true (short op member)
  rw [everything] at lists
  have before := (written_denotes succeeds).1.lists
  exact ⟨kv, opens, fun key => (lists.has key).trans (before.has key).symm,
    lists.size.trans before.size.symm⟩

/-- Two keys, one of them put twice and one deleted; the values are of no concern. -/
def sampleOps : List KvOp :=
  [.put (ascii "k") (ascii "old"), .put [] [], .put (ascii "k") (ascii "newer"), .delete []]

theorem sample_keeps_live_keys :
    ∃ kv, slKvstoreOpen 64 (slKvstoreClose (written sampleOps)) = some kv ∧
      (∀ key, kv.slKvstoreHas key = (written sampleOps).slKvstoreHas key) ∧
      kv.slKvstoreSize = (written sampleOps).slKvstoreSize :=
  reopen_keeps_live_keys sampleOps (by decide +kernel) (by decide) 64 (by decide +kernel)

section Values

/-- A buffer that holds the value, if there is one. -/
def LargeEnough (expected : Option Bytes) (bufCap : Nat) : Prop :=
  ∀ value, expected = some value → value.length ≤ bufCap

/-- Every read of the key with such a buffer gives what it should. -/
def Answers (kv : SlKvstore) (key : Bytes) (expected : Option Bytes) : Prop :=
  ∀ bufCap, LargeEnough expected bufCap → kv.slKvstoreGet key bufCap = answerGet bufCap expected

/-- The bytes from an offset on, taken for a record, lead to the value. -/
def RereadsAt (file : Bytes) (off : Nat) (value : Bytes) : Prop :=
  ∃ l valueOff, LeadsTo file off l valueOff ∧ value.length = l.vlen ∧
    fread file valueOff l.vlen = value

/-- The key has no value, also without the operations from the first long key on; or the
bytes of the value that the replay finds, read as a record, lead to the value. -/
def Rereads (ops : List KvOp) (key : Bytes) : Prop :=
  ((contents ops).lookup key = none ∧ placeOf (ops.takeWhile KvOp.short) key = none) ∨
  ∃ value off found, (contents ops).lookup key = some value ∧
    placeOf (ops.takeWhile KvOp.short) key = some (off, found) ∧
    found.length = value.length ∧ RereadsAt (log KvOp.record ops) off value

theorem answers_missing {kv : SlKvstore} {key : Bytes} (missing : kv.slot key = none)
    {expected : Option Bytes} : Answers kv key expected ↔ expected = none := by
  unfold Answers
  simp only [slKvstoreGet_none missing]
  cases expected with
  | none => simp [answerGet]
  | some value =>
    constructor
    · intro all
      have got := all value.length fun v same => by cases same; exact Nat.le_refl _
      simp [answerGet] at got
    · intro missing
      cases missing

theorem answers_present {kv : SlKvstore} {key : Bytes} {off len : Nat}
    (present : kv.slot key = some (off, len)) {expected : Option Bytes} :
    Answers kv key expected ↔
      ∃ value, expected = some value ∧ len = value.length ∧ readValue kv.file off = (0, value) := by
  unfold Answers
  simp only [slKvstoreGet_some present]
  constructor
  · intro all
    cases expected with
    | none =>
      -- a key that should be gone answers with some length
      have got := all len fun v present => by cases present
      simp [answerGet] at got
    | some value =>
      have got := all value.length fun v same => by cases same; exact Nat.le_refl _
      simp only [answerGet, if_neg (Nat.lt_irrefl value.length)] at got
      by_cases small : value.length < len
      · rw [if_pos small] at got
        simp at got
      · rw [if_neg small] at got
        simp only [Got.mk.injEq, Option.some.injEq] at got
        exact ⟨value, rfl, got.2.1, Prod.ext got.1 got.2.2⟩
  · rintro ⟨value, rfl, rfl, read⟩ bufCap _
    simp only [answerGet, read]

/-- A key of the reopened store reads back as it should exactly if its value rereads. -/
theorem reopened_get_iff (ops : List KvOp) (succeeds : Succeeds ops) (key : Bytes) (fuel : Nat)
    (enough : (slKvstoreClose (written ops)).length < fuel) :
    ∃ kv, slKvstoreOpen fuel (slKvstoreClose (written ops)) = some kv ∧
      (Answers kv key ((contents ops).lookup key) ↔ Rereads ops key) := by
  obtain ⟨kv, opens, file, -, slots⟩ := reopened succeeds enough
  refine ⟨kv, opens, ?_⟩
  have slot := slots key
  unfold Rereads
  cases found : placeOf (ops.takeWhile KvOp.short) key with
  | none =>
    rw [found, Option.map_none] at slot
    simp [answers_missing slot]
  | some place =>
    rw [found, Option.map_some] at slot
    rw [answers_present slot, file]
    simp only [readValue_ok]
    constructor
    · rintro ⟨value, expected, size, reread⟩
      exact Or.inr ⟨value, place.1, place.2, expected, rfl, size, reread⟩
    · rintro (⟨-, missing⟩ | ⟨value, off, old, expected, same, size, reread⟩)
      · cases missing
      · obtain rfl := Option.some.inj same
        exact ⟨value, expected, size, reread⟩

/-- One put and a reopen: the value is taken for a header, and the read fails. -/
def singlePut : List KvOp := [.put (ascii "a") (ascii "hello")]

theorem reopen_loses_value :
    Succeeds singlePut ∧ (contents singlePut).lookup (ascii "a") = some (ascii "hello") ∧
    (slKvstoreOpen 64 (slKvstoreClose (written singlePut))).map
        (fun kv => kv.slKvstoreGet (ascii "a") 16) = some ⟨-1, some 5, []⟩ := by
  decide +kernel

/-- A value that announces a key of seven bytes and a value of two: the next record with
the same value is where it says. -/
def luckyOps : List KvOp := [.put (ascii "a") [7, 2], .put (ascii "b") [7, 2]]

theorem lucky_value_reread :
    ∃ kv, slKvstoreOpen 64 (slKvstoreClose (written luckyOps)) = some kv ∧
      Answers kv (ascii "a") (some [7, 2]) := by
  obtain ⟨kv, opens, reads⟩ :=
    reopened_get_iff luckyOps (by decide +kernel) (ascii "a") 64 (by decide +kernel)
  refine ⟨kv, opens, reads.mpr (Or.inr ⟨[7, 2], 4, [7, 2], ?_, ?_, rfl, ?_⟩)⟩
  · decide +kernel
  · decide +kernel
  · exact ⟨⟨7, 1, 2, 1⟩, 14, ⟨by decide, by decide +kernel, by decide⟩, rfl, by decide +kernel⟩

end Values

section Crash

/-- The operation leaves the set of keys as it is. -/
def KeepsKeys (m : Contents) : KvOp → Prop
  | .put key _ => (m.lookup key).isSome = true
  | .delete key => (m.lookup key).isSome = false

theorem keepsKeys_iff (m : Contents) (op : KvOp) :
    KeepsKeys m op ↔ ∀ key, ((apply m op).lookup key).isSome = (m.lookup key).isSome := by
  have here : ((apply m op).lookup op.key).isSome = op.stored.isSome := by
    rw [lookup_apply, if_pos rfl]
  have elsewhere : ∀ key, key ≠ op.key → (apply m op).lookup key = m.lookup key := by
    intro key different
    rw [lookup_apply, if_neg different]
  have same : KeepsKeys m op ↔ op.stored.isSome = (m.lookup op.key).isSome := by
    cases op with
    | put key value => exact eq_comm
    | delete key => exact eq_comm
  rw [same, ← here]
  constructor
  · intro kept key
    by_cases this : key = op.key
    · rw [this, kept]
    · rw [elsewhere key this]
  · exact fun all => all op.key

/-- The cut does no harm: the whole records from the first key on that is too long for
the replay leave the live keys as they were before it; and if there is none, the torn
record, when its header and key are there and the key is not too long, puts a live key or
deletes one that is not. -/
def HarmlessCut (ops : List KvOp) (n : Nat) : Prop :=
  let complete := whole KvOp.record ops n
  (∀ key, ((contents (complete.takeWhile KvOp.short)).lookup key).isSome =
    ((contents complete).lookup key).isSome) ∧
  ((∀ op ∈ complete, op.short = true) → ∀ op left, torn KvOp.record ops n = some (op, left) →
    op.short = true → op.header.length + op.key.length ≤ left → KeepsKeys (contents complete) op)

/-- The live keys after the replay and after the whole records agree exactly if the cut
does no harm. -/
theorem replayed_keys_iff (ops : List KvOp) (n : Nat) :
    (∀ key, ((contents (replayed ops n)).lookup key).isSome =
      ((contents (whole KvOp.record ops n)).lookup key).isSome) ↔ HarmlessCut ops n := by
  unfold HarmlessCut replayed
  by_cases allShort : (whole KvOp.record ops n).all KvOp.short = true
  · have everything : (whole KvOp.record ops n).takeWhile KvOp.short = whole KvOp.record ops n :=
      List.takeWhile_eq_self_iff.mpr (List.all_eq_true.mp allShort)
    simp only [if_pos allShort, everything, implies_true, true_and]
    have premise : ∀ op ∈ whole KvOp.record ops n, op.short = true := List.all_eq_true.mp allShort
    cases tears : torn KvOp.record ops n with
    | none => simp [tornOp, tears]
    | some cut =>
      obtain ⟨op, left⟩ := cut
      by_cases applies : op.short = true ∧ op.header.length + op.key.length ≤ left
      · rw [tornOp, tears]
        simp only [if_pos applies, contents_append, ← keepsKeys_iff]
        constructor
        · rintro kept - op' left' same - -
          obtain ⟨rfl, rfl⟩ := Prod.mk.inj (Option.some.inj same)
          exact kept
        · intro all
          exact all premise op left rfl applies.1 applies.2
      · rw [tornOp, tears]
        simp only [if_neg applies, List.append_nil, implies_true, true_iff]
        rintro - op' left' same short there
        obtain ⟨rfl, rfl⟩ := Prod.mk.inj (Option.some.inj same)
        exact absurd ⟨short, there⟩ applies
  · have premise : ¬ ∀ op ∈ whole KvOp.record ops n, op.short = true := fun all =>
      allShort (List.all_eq_true.mpr all)
    simp only [if_neg allShort, premise, false_implies, and_true]

/-- After a crash that leaves the first bytes of the file, the reopened store has the
live keys, and the size, of the operations with whole records exactly if the cut does no
harm. -/
theorem recovered_iff (ops : List KvOp) (succeeds : Succeeds ops) (n fuel : Nat)
    (enough : ((written ops).file.take n).length < fuel) :
    ∃ kv, slKvstoreOpen fuel ((written ops).file.take n) = some kv ∧
      (((∀ key, kv.slKvstoreHas key =
            ((contents (whole KvOp.record ops n)).lookup key).isSome) ∧
          kv.slKvstoreSize = (contents (whole KvOp.record ops n)).keys.length) ↔
        HarmlessCut ops n) := by
  obtain ⟨kv, opens, -, lists, -⟩ := opened succeeds n enough
  refine ⟨kv, opens, ?_⟩
  rw [← replayed_keys_iff]
  simp only [lists.has]
  constructor
  · exact fun recovered => recovered.1
  · intro same
    have also : Lists kv (contents (whole KvOp.record ops n)) :=
      ⟨lists.placed, fun key => (lists.keys key).trans (same key)⟩
    exact ⟨same, also.size⟩

/-- The last byte of the only record is missing, and the key is there all the same. -/
theorem torn_put_takes_effect :
    Succeeds singlePut ∧ (written singlePut).file.length = 13 ∧ whole KvOp.record singlePut 12 = [] ∧
    (slKvstoreOpen 64 ((written singlePut).file.take 12)).map
        (fun kv => kv.slKvstoreHas (ascii "a")) = some true := by
  decide +kernel

theorem torn_key_has_no_effect :
    ∃ kv, slKvstoreOpen 64 ((written singlePut).file.take 3) = some kv ∧
      (∀ key, kv.slKvstoreHas key = false) ∧ kv.slKvstoreSize = 0 := by
  obtain ⟨kv, opens, recovered⟩ :=
    recovered_iff singlePut (by decide +kernel) 3 64 (by decide +kernel)
  have nothing : whole KvOp.record singlePut 3 = [] := by decide +kernel
  have harmless : HarmlessCut singlePut 3 := by
    refine ⟨fun key => by rw [nothing]; rfl, ?_⟩
    rintro - op left tears - there
    have cut : torn KvOp.record singlePut 3 = some (.put (ascii "a") (ascii "hello"), 3) := by
      decide +kernel
    rw [cut] at tears
    obtain ⟨rfl, rfl⟩ := Prod.mk.inj (Option.some.inj tears)
    exact absurd there (by decide +kernel)
  have result := recovered.mpr harmless
  rw [nothing] at result
  exact ⟨kv, opens, result.1, result.2⟩

end Crash

end SecureLink.Guarantees.StoreReopen
