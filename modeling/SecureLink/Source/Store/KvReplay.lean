import Mathlib.Data.List.TakeWhile
import SecureLink.Library.Log
import SecureLink.Source.Store.KvLog

/-!
# Replay of the log

The loop of `sl_kvstore_open` on the log of any puts and deletes, cut at any byte. It
applies the whole records up to the first key too long for its buffer, and then the torn
record too, if header and key of it are there.
-/
namespace SecureLink.Source.Store
open Library.BigEndian Library.Log

namespace SlKvstore
variable {kv : SlKvstore} {ops : List KvOp} {rest : Bytes} {fuel pos : Nat}

/-- What the replay makes of a record at an offset: a put's entry points at the value. -/
def replayOp (kv : SlKvstore) (off : Nat) : KvOp → SlKvstore
  | .put key value =>
    kv.setEntry key (off + (KvOp.put key value).header.length + key.length) value.length
  | .delete key => kv.modifyEntry key fun e => { e with flags := e.flags ||| slKvFlagTomb }

theorem slot_replayOp (kv : SlKvstore) (off : Nat) (op : KvOp) (key : Bytes) :
    (kv.replayOp off op).slot key =
      if key = op.key then
        op.stored.map fun value => (off + op.header.length + op.key.length, value.length)
      else kv.slot key := by
  cases op with
  | put _ value => exact slot_setEntry kv _ key _ value.length
  | delete _ =>
    exact slot_modifyEntry kv _ key (fun _ => rfl) fun e => decide_eq_false (tomb_or e.flags)

theorem Placed.replayOp (placed : kv.Placed) (off : Nat) (op : KvOp) :
    (kv.replayOp off op).Placed := by
  cases op with
  | put key value => exact placed.setEntry key _ value.length
  | delete key => exact placed.modifyEntry key fun _ => rfl

/-- The same for records one after the other. -/
def replayOps (kv : SlKvstore) : Nat → List KvOp → SlKvstore
  | _, [] => kv
  | off, op :: rest => (kv.replayOp off op).replayOps (off + op.record.length) rest

@[simp] theorem file_replayOp (kv : SlKvstore) (off : Nat) (op : KvOp) :
    (kv.replayOp off op).file = kv.file := by
  cases op <;> simp [replayOp]

@[simp] theorem file_replayOps (kv : SlKvstore) (off : Nat) (ops : List KvOp) :
    (kv.replayOps off ops).file = kv.file := by
  induction ops generalizing kv off with
  | nil => rfl
  | cons op rest ih => rw [replayOps, ih, file_replayOp]

/-- The value a key is left with and the offset of its bytes in the log, where the key has
`found` before these records. -/
def valueAt (key : Bytes) : Nat → Option (Nat × Bytes) → List KvOp → Option (Nat × Bytes)
  | _, found, [] => found
  | off, found, op :: rest =>
    valueAt key (off + op.record.length)
      (if key = op.key then
        op.stored.map fun value => (off + op.header.length + op.key.length, value)
      else found) rest

/-- What an entry says of a value at an offset. -/
def pointer (place : Nat × Bytes) : Nat × Nat := (place.1, place.2.length)

theorem slot_replayOps {key : Bytes} {found : Option (Nat × Bytes)} {off : Nat}
    (before : kv.slot key = found.map pointer) :
    (kv.replayOps off ops).slot key = (valueAt key off found ops).map pointer := by
  induction ops generalizing kv off found with
  | nil => exact before
  | cons op rest ih =>
    refine ih ?_
    rw [slot_replayOp]
    by_cases same : key = op.key
    · simp only [if_pos same, Option.map_map]
      rfl
    · simp only [if_neg same, before]

theorem Placed.replayOps (placed : kv.Placed) (off : Nat) (ops : List KvOp) :
    (kv.replayOps off ops).Placed := by
  induction ops generalizing kv off with
  | nil => exact placed
  | cons op rest ih => exact ih (placed.replayOp off op) _

theorem replayOps_append (kv : SlKvstore) (off : Nat) (first second : List KvOp) :
    kv.replayOps off (first ++ second) =
      (kv.replayOps off first).replayOps (off + (log KvOp.record first).length) second := by
  induction first generalizing kv off with
  | nil => rfl
  | cons op rest ih =>
    simp only [List.cons_append, replayOps, ih, log_cons, List.length_append, Nat.add_assoc]

/-- A round on a record whose header and key are there: it takes effect even if the rest
of it is missing, since the seeks go past the end of the file. -/
theorem replayRecord_key {op : KvOp} (fits : op.record.length < longBound)
    (offset : pos + op.header.length + op.key.length < longBound) (short : op.short = true)
    (here : kv.file.drop pos = op.header ++ op.key ++ rest) :
    kv.replayRecord pos =
      (kv.replayOp pos op,
        if pos + op.record.length < longBound then some (pos + op.record.length) else none) := by
  have lengths := op.length_record
  have head := readHead_key fits (by omega) short here
  rw [← fseek_cast]
  cases op with
  | put key value =>
    have tomb : ¬ ((0 : UInt8) &&& slKvFlagTomb ≠ 0) := by decide
    simp only [KvOp.key, KvOp.value, KvOp.flags] at head lengths offset
    have asLong : toLong value.length = value.length := toLong_nat (by omega)
    have stop : pos + (KvOp.put key value).record.length =
        pos + (KvOp.put key value).header.length + key.length + value.length + 4 := by omega
    simp only [replayRecord, head, replayOp, if_neg tomb, asLong, ← Nat.cast_add, fseek_skip, stop]
  | delete key =>
    have tomb : slKvFlagTomb &&& slKvFlagTomb ≠ 0 := by decide
    simp only [KvOp.key, KvOp.value, KvOp.flags, List.length_nil] at head lengths offset
    have stop : pos + (KvOp.delete key).record.length =
        pos + (KvOp.delete key).header.length + key.length + 4 := by omega
    simp only [replayRecord, head, replayOp, if_pos tomb, stop]

theorem replay_stop (unread : readHead kv.file pos = none) (enough : 0 < fuel) :
    replay fuel kv pos = some kv := by
  obtain ⟨fuel, rfl⟩ : ∃ rounds, fuel = rounds + 1 := ⟨fuel - 1, by omega⟩
  simp only [replay, replayRecord, unread]

/-- The replay walks over whole records with short keys, one round each. -/
theorem replay_records (here : kv.file.drop pos = log KvOp.record ops ++ rest)
    (offset : pos + (log KvOp.record ops).length < longBound) (short : ∀ op ∈ ops, op.short = true)
    (fuel : Nat) :
    replay (fuel + ops.length) kv pos =
      replay fuel (kv.replayOps pos ops) (pos + (log KvOp.record ops).length) := by
  induction ops generalizing kv pos with
  | nil => rfl
  | cons op ops ih =>
    rw [log_cons, List.length_append] at offset
    have lengths := op.length_record
    have opening : kv.file.drop pos = op.header ++ op.key ++
        (op.value ++ recordCrc op.header op.key op.value ++ (log KvOp.record ops ++ rest)) := by
      rw [here, log_cons, KvOp.record]
      simp only [List.append_assoc]
    have round := replayRecord_key (by omega) (by omega) (short op (by simp)) opening
    rw [if_pos (by omega)] at round
    have later : (kv.replayOp pos op).file.drop (pos + op.record.length) =
        log KvOp.record ops ++ rest := by
      rw [file_replayOp, ← List.drop_drop, here, log_cons, List.append_assoc, List.drop_left]
    have continued := ih later (by omega) fun o member => short o (by simp [member])
    simp only [List.length_cons, ← Nat.add_assoc, replay, round, continued, replayOps, log_cons,
      List.length_append]

/-- The torn record, if the replay applies it: enough of it is there to read its key. -/
def tornOp (ops : List KvOp) (n : Nat) : List KvOp :=
  match torn KvOp.record ops n with
  | none => []
  | some (op, left) =>
    if op.short = true ∧ op.header.length + op.key.length ≤ left then [op] else []

/-- The operations the replay applies to a log cut to its first `n` bytes. -/
def replayed (ops : List KvOp) (n : Nat) : List KvOp :=
  if (whole KvOp.record ops n).all KvOp.short then whole KvOp.record ops n ++ tornOp ops n
  else (whole KvOp.record ops n).takeWhile KvOp.short

theorem tornOp_eq {n left : Nat} {op : KvOp} (tears : torn KvOp.record ops n = some (op, left)) :
    tornOp ops n =
      if op.short = true ∧ op.header.length + op.key.length ≤ left then [op] else [] := by
  rw [tornOp, tears]

/-- A record that ends behind the end of the file still takes effect, if its key is there. -/
theorem replay_incomplete {op : KvOp} (fits : op.record.length < longBound)
    (offset : pos + op.header.length + op.key.length < longBound) (short : op.short = true)
    (here : kv.file.drop pos = op.header ++ op.key ++ rest)
    (incomplete : kv.file.length ≤ pos + op.record.length) (enough : 1 < fuel) :
    replay fuel kv pos = some (kv.replayOp pos op) := by
  obtain ⟨rounds, rfl⟩ : ∃ rounds, fuel = rounds + 2 := ⟨fuel - 2, by omega⟩
  rw [replay, replayRecord_key fits offset short here]
  by_cases within : pos + op.record.length < longBound
  · have ended : readHead (kv.replayOp pos op).file (pos + op.record.length) = none :=
      readHead_end (by rw [file_replayOp]; exact incomplete)
    simp only [if_pos within, replay_stop ended (Nat.succ_pos rounds)]
  · simp only [if_neg within]

/-- At the torn record the replay stops, at once or after applying it. -/
theorem replay_torn {n : Nat} (here : kv.file.drop pos = tornBytes KvOp.record ops n)
    (inside : pos ≤ kv.file.length) (small : kv.file.length < longBound)
    (fits : ∀ op ∈ ops, op.record.length < longBound)
    (enough : (tornBytes KvOp.record ops n).length < fuel) :
    replay fuel kv pos = some (kv.replayOps pos (tornOp ops n)) := by
  have behind : (tornBytes KvOp.record ops n).length = kv.file.length - pos := by
    rw [← here, List.length_drop]
  cases tears : torn KvOp.record ops n with
  | none =>
    rw [tornBytes, tears] at behind
    rw [replay_stop (readHead_end (Nat.sub_eq_zero_iff_le.mp behind.symm)) (by omega), tornOp, tears]
    rfl
  | some cut =>
    obtain ⟨op, left⟩ := cut
    obtain ⟨member, cutShort⟩ := torn_spec tears
    have opFits := fits op member
    have lengths := op.length_record
    have room := op.header_length opFits
    rw [tornBytes, tears] at here
    rw [tornBytes, tears] at behind enough
    simp only [List.length_take, Nat.min_eq_left (Nat.le_of_lt cutShort)] at here behind enough
    rw [tornOp_eq tears]
    by_cases keyThere : op.header.length + op.key.length ≤ left
    · have opening : kv.file.drop pos = op.header ++ op.key ++
          (op.value ++ recordCrc op.header op.key op.value).take
            (left - (op.header ++ op.key).length) := by
        rw [here, KvOp.record, List.append_assoc, List.take_append,
          List.take_of_length_le (by simpa using keyThere)]
      cases fitsBuffer : op.short with
      | true =>
        rw [if_pos ⟨rfl, keyThere⟩]
        exact replay_incomplete opFits (by omega) fitsBuffer opening (by omega) (by omega)
      | false =>
        rw [List.append_assoc] at opening
        rw [replay_stop (readHead_long opFits fitsBuffer opening) (by omega), if_neg (by simp)]
        rfl
    · have cutKey : kv.file.drop pos = (op.header ++ op.key).take left := by
        rw [here, KvOp.record, List.append_assoc, List.take_append_of_le_length]
        rw [List.length_append]
        omega
      rw [replay_stop (readHead_cut opFits (by omega) cutKey) (by omega),
        if_neg fun applies => keyThere applies.2]
      rfl

/-- The walk over the short records at the start of a file leaves more rounds than there
are bytes left. -/
theorem replay_walk {file : Bytes} (parts : file = log KvOp.record ops ++ rest)
    (small : file.length < longBound) (short : ∀ op ∈ ops, op.short = true)
    (enough : file.length < fuel) :
    ∃ left, rest.length < left ∧
      replay fuel { file } 0 =
        replay left (replayOps { file } 0 ops) (log KvOp.record ops).length := by
  have nonempty : ∀ op : KvOp, 0 < op.record.length := fun op => by
    rw [KvOp.length_record]
    omega
  have rounds := length_le_log nonempty ops
  have length : file.length = (log KvOp.record ops).length + rest.length := by
    rw [parts, List.length_append]
  have start : ({ file } : SlKvstore).file.drop 0 = log KvOp.record ops ++ rest := parts
  have walked := replay_records start (by omega) short (fuel - ops.length)
  rw [Nat.sub_add_cancel (by omega), Nat.zero_add] at walked
  exact ⟨fuel - ops.length, by omega, walked⟩

/-- A record with a long key ends the replay before everything behind it. -/
theorem replay_untilLong {file : Bytes} {op : KvOp}
    (parts : file = log KvOp.record ops ++ (op.record ++ rest)) (small : file.length < longBound)
    (short : ∀ op ∈ ops, op.short = true) (long : op.short = false) (enough : file.length < fuel) :
    replay fuel { file } 0 = some (replayOps { file } 0 ops) := by
  obtain ⟨left, more, walked⟩ := replay_walk parts small short enough
  have length : file.length = (log KvOp.record ops).length + (op.record.length + rest.length) := by
    rw [parts, List.length_append, List.length_append]
  have opening : (replayOps { file } 0 ops).file.drop (log KvOp.record ops).length = op.header ++
      (op.key ++ op.value ++ recordCrc op.header op.key op.value ++ rest) := by
    rw [file_replayOps, parts, List.drop_left, KvOp.record]
    simp only [List.append_assoc]
  rw [walked, replay_stop (readHead_long (by omega) long opening) (by omega)]

/-- Enough rounds are as many as there are bytes, and one more; what the store then holds
are the replayed operations. -/
theorem slKvstoreOpen_log (fits : (log KvOp.record ops).length < longBound) (n : Nat)
    (enough : ((log KvOp.record ops).take n).length < fuel) :
    slKvstoreOpen fuel ((log KvOp.record ops).take n) =
      some (replayOps { file := (log KvOp.record ops).take n } 0 (replayed ops n)) := by
  have small : ((log KvOp.record ops).take n).length < longBound :=
    Nat.lt_of_le_of_lt (List.length_take_le' _ _) fits
  have parts : (log KvOp.record ops).take n =
      log KvOp.record (whole KvOp.record ops n) ++ tornBytes KvOp.record ops n := take_log ops n
  rw [slKvstoreOpen, replayed]
  generalize (log KvOp.record ops).take n = file at parts small enough ⊢
  by_cases allShort : (whole KvOp.record ops n).all KvOp.short = true
  · obtain ⟨left, more, walked⟩ := replay_walk parts small (List.all_eq_true.mp allShort) enough
    have kept : (replayOps { file } 0 (whole KvOp.record ops n)).file = file := file_replayOps _ _ _
    have here : (replayOps { file } 0 (whole KvOp.record ops n)).file.drop
        (log KvOp.record (whole KvOp.record ops n)).length = tornBytes KvOp.record ops n := by
      rw [kept, parts, List.drop_left]
    have inside : (log KvOp.record (whole KvOp.record ops n)).length ≤ file.length := by
      rw [parts, List.length_append]
      exact Nat.le_add_right _ _
    have opFits : ∀ op ∈ ops, op.record.length < longBound := fun op member =>
      Nat.lt_of_le_of_lt (length_record_le member) fits
    rw [walked, replay_torn here (by rw [kept]; exact inside) (by rw [kept]; exact small) opFits more,
      if_pos allShort, replayOps_append, Nat.zero_add]
  · have split := List.takeWhile_append_dropWhile (p := KvOp.short) (l := whole KvOp.record ops n)
    cases behind : (whole KvOp.record ops n).dropWhile KvOp.short with
    | nil =>
      refine absurd (List.all_eq_true.mpr fun op member => ?_) allShort
      rw [← split, behind, List.append_nil] at member
      exact List.mem_takeWhile_imp member
    | cons op later =>
      have long : op.short = false := by
        have first := List.head_dropWhile_not KvOp.short (l := whole KvOp.record ops n)
          (by rw [behind]; exact List.cons_ne_nil _ _)
        simpa only [behind, List.head_cons] using first
      rw [← split, behind, log_append, log_cons, List.append_assoc, List.append_assoc] at parts
      rw [if_neg allShort, replay_untilLong parts small
        (fun op member => List.mem_takeWhile_imp member) long enough]

end SlKvstore

end SecureLink.Source.Store
