import SecureLink.Guarantees.EventReplay

/-!
# The event log on a damaged file

The iteration reads the stored checksum and does not compare it (src/sl_event_log.c:136-144).
Whether the visitor only gets intact records is therefore up to the file: it does exactly if
the file is a sequence of records with their checksums, up to bytes that hold no complete
record.
-/
namespace SecureLink.Guarantees.EventCorruption
open Library.BigEndian Library.Log Library.Scan Source.Store EventReplay

section Calls
variable {υ : Type} (visitor : SlEventRecord → υ → υ × Int)

/-- The calls of the visitor, each with the offset its record was read from. -/
def iterateCalls (file : Bytes) : Nat → Nat → υ → List (Nat × SlEventRecord)
  | 0, _, _ => []
  | fuel + 1, pos, user =>
    match readEvent file pos with
    | none => []
    | some (record, next) =>
      (pos, record) ::
        if (visitor record user).2 ≠ 0 then []
        else iterateCalls file fuel next (visitor record user).1

/-- What the iteration leaves with the visitor is what these calls make of it. -/
theorem iterateLoop_calls {file : Bytes} {fuel pos : Nat} {user last : υ}
    (done : iterateLoop visitor file fuel pos user = some last) :
    (iterateCalls visitor file fuel pos user).foldl (fun user call => (visitor call.2 user).1) user =
      last := by
  induction fuel generalizing pos user with
  | zero => cases done
  | succ fuel ih =>
    rw [iterateLoop] at done
    rw [iterateCalls]
    cases read : readEvent file pos with
    | none =>
      rw [read] at done
      exact Option.some.inj done
    | some found =>
      obtain ⟨record, next⟩ := found
      rw [read] at done
      dsimp only at done ⊢
      rw [List.foldl_cons]
      by_cases stops : (visitor record user).2 ≠ 0
      · rw [if_pos stops] at done ⊢
        exact Option.some.inj done
      · rw [if_neg stops] at done ⊢
        exact ih done

/-- Every round moves on, so the iteration of a file ends. -/
theorem iterateLoop_returns {file : Bytes} (small : file.length < longBound) {fuel pos : Nat}
    (start : pos ≤ file.length) (enough : file.length < pos + fuel) (user : υ) :
    ∃ last, iterateLoop visitor file fuel pos user = some last := by
  induction fuel generalizing pos user with
  | zero => omega
  | succ fuel ih =>
    rw [iterateLoop]
    cases read : readEvent file pos with
    | none => exact ⟨user, rfl⟩
    | some found =>
      obtain ⟨record, next⟩ := found
      obtain ⟨head, -, complete, -, rfl⟩ := (readEvent_iff small).mp read
      have inside := complete.2
      dsimp only
      split
      · exact ⟨_, rfl⟩
      · exact ih inside (by omega) _

end Calls

/-- The record is what the file has at this offset, and the checksum of its header and payload
follows. -/
def Intact (file : Bytes) (pos : Nat) (r : SlEventRecord) : Prop :=
  ∃ head ∈ readEventHead (fread file pos eventHdrSize),
    r = head.record file pos ∧ head.Checked file pos

/-- Records that each have their checksum behind them, and then bytes that no complete record
starts with, whatever its checksum. -/
def IntactLog (file : Bytes) : Prop :=
  ∃ (records : List RawEvent) (tail : Bytes), file = log RawEvent.sealed records ++ tail ∧
    ∀ (e : RawEvent) (crc rest : Bytes), crc.length = 4 → tail ≠ e.bytes crc ++ rest

theorem intact_iff (e : RawEvent) {crc : Bytes} (four : crc.length = 4) (front rest : Bytes) :
    Intact (front ++ (e.bytes crc ++ rest)) front.length e.record ↔
      crc = eventCrc e.hdr e.payload := by
  obtain ⟨-, record, checked⟩ := e.stands four front rest rfl
  rw [Intact, e.read crc front rest (Nat.le_refl _), ← checked]
  simp [record]

/-- A round that yields a record has found one. -/
theorem raw_of_readEvent {front rest : Bytes} (small : (front ++ rest).length < longBound)
    {found : SlEventRecord × Nat} (read : readEvent (front ++ rest) front.length = some found) :
    ∃ (e : RawEvent) (crc rest' : Bytes), crc.length = 4 ∧ rest = e.bytes crc ++ rest' := by
  obtain ⟨head, reads, ⟨fits, inside⟩, -⟩ := (readEvent_iff small).mp read
  rw [fread_front, Option.mem_def] at reads
  obtain ⟨-, short, again⟩ := readEventHead_front reads
  have whole := again []
  rw [List.append_nil, List.take_take, Nat.min_eq_left short] at whole
  rw [List.length_append] at inside
  have payload : ((rest.drop head.size).take head.plen).length = head.plen := by
    rw [List.length_take, List.length_drop]
    omega
  refine ⟨⟨rest.take head.size, (rest.drop head.size).take head.plen, head, whole, ?_, payload.symm,
    payload.symm ▸ fits⟩, ((rest.drop head.size).drop head.plen).take 4,
    ((rest.drop head.size).drop head.plen).drop 4, ?_, ?_⟩
  · rw [List.length_take]
    omega
  · simp only [List.length_take, List.length_drop]
    omega
  · simp only [RawEvent.bytes, List.append_assoc, List.take_append_drop]

/-- From the start of an intact log on, every call gets an intact record. -/
theorem calls_intact {υ : Type} (visitor : SlEventRecord → υ → υ × Int) {front rest : Bytes}
    (small : (front ++ rest).length < longBound) (log : IntactLog rest) {fuel : Nat} {user : υ} :
    ∀ call ∈ iterateCalls visitor (front ++ rest) fuel front.length user,
      Intact (front ++ rest) call.1 call.2 := by
  obtain ⟨records, tail, rfl, ends⟩ := log
  induction records generalizing front fuel user with
  | nil =>
    intro call made
    cases fuel with
    | zero => cases made
    | succ fuel =>
      rw [iterateCalls] at made
      cases read : readEvent (front ++ ([] ++ tail)) front.length with
      | none =>
        rw [log_nil, read] at made
        cases made
      | some found =>
        obtain ⟨e, crc, rest', four, split⟩ := raw_of_readEvent small read
        exact absurd split (ends e crc rest' four)
  | cons e records ih =>
    intro call made
    cases fuel with
    | zero => cases made
    | succ fuel =>
      have four := eventCrc_length e.hdr e.payload
      rw [log_cons, List.append_assoc] at small made ⊢
      rw [iterateCalls, RawEvent.sealed, e.yields four small] at made
      rcases List.mem_cons.mp made with rfl | later
      · exact (intact_iff e four front _).mpr rfl
      · split at later
        · cases later
        · rw [← List.append_assoc] at small later ⊢
          rw [← List.length_append] at later
          exact ih small call later

/-- A visitor that never stops the iteration. -/
def patient (_ : SlEventRecord) (_ : Unit) : Unit × Int := ((), 0)

/-- If such a visitor only gets intact records, the log is intact from there on. -/
theorem intactLog_of_calls {front rest : Bytes} (small : (front ++ rest).length < longBound)
    (intact : ∀ fuel, ∀ call ∈ iterateCalls patient (front ++ rest) fuel front.length (),
      Intact (front ++ rest) call.1 call.2) : IntactLog rest := by
  -- the induction is on the bytes that are left
  generalize left : rest.length = n
  induction n using Nat.strong_induction_on generalizing front rest with
  | _ n ih =>
    by_cases starts : ∃ (e : RawEvent) (crc rest' : Bytes), crc.length = 4 ∧ rest = e.bytes crc ++ rest'
    · obtain ⟨e, crc, rest', four, rfl⟩ := starts
      have calls : ∀ fuel, iterateCalls patient (front ++ (e.bytes crc ++ rest')) (fuel + 1)
          front.length () = (front.length, e.record) :: iterateCalls patient
            (front ++ (e.bytes crc ++ rest')) fuel (front.length + (e.bytes crc).length) () := by
        intro fuel
        rw [iterateCalls, e.yields four small]
        rfl
      have sealed : crc = eventCrc e.hdr e.payload := by
        have first := intact 1
        rw [calls, List.forall_mem_cons] at first
        exact (intact_iff e four front rest').mp first.1
      have later : IntactLog rest' := by
        have shorter := e.length_bytes four
        rw [List.length_append] at left
        refine @ih rest'.length (by omega) (front ++ e.bytes crc) rest' ?_ ?_ rfl
        · rwa [List.append_assoc]
        · intro fuel call made
          rw [List.append_assoc, List.length_append] at made
          have all := intact (fuel + 1)
          rw [calls, List.forall_mem_cons] at all
          rw [List.append_assoc]
          exact all.2 call made
      obtain ⟨records, tail, rfl, ends⟩ := later
      exact ⟨e :: records, tail, by rw [log_cons, RawEvent.sealed, ← sealed, List.append_assoc], ends⟩
    · exact ⟨[], rest, rfl, fun e crc rest' four split => starts ⟨e, crc, rest', four, split⟩⟩

/-- For a file no longer than the largest offset the iteration returns what a sequence of calls
makes of the visitor's data. Every record that any visitor gets in them is intact, exactly if the
file is a sequence of records with their checksums, and bytes that no complete record starts
with. -/
theorem delivered_intact_iff (file : Bytes) (small : file.length < longBound) :
    (∀ (υ : Type) (visitor : SlEventRecord → υ → υ × Int) (user : υ) (fuel : Nat), file.length < fuel →
      slEventLogIterate visitor fuel file user = some ((iterateCalls visitor file fuel 0 user).foldl
        (fun user call => (visitor call.2 user).1) user)) ∧
    ((∀ (υ : Type) (visitor : SlEventRecord → υ → υ × Int) (user : υ) (fuel : Nat),
      ∀ call ∈ iterateCalls visitor file fuel 0 user, Intact file call.1 call.2) ↔
    IntactLog file) := by
  refine ⟨fun υ visitor user fuel enough => ?_, fun intact => ?_, fun log υ visitor user fuel => ?_⟩
  · obtain ⟨last, done⟩ := iterateLoop_returns visitor small (Nat.zero_le _)
      (by rwa [Nat.zero_add]) user
    rw [slEventLogIterate, done, iterateLoop_calls visitor done]
  · exact @intactLog_of_calls [] file small (intact Unit patient ())
  · exact @calls_intact υ visitor [] file small log fuel user

/-- What appends leave in a new file. -/
def toyLog : Bytes := log recordBytes (numbered toyEvents)

theorem toy_log_intact :
    iterateCalls patient toyLog 3 0 () =
        [(0, ⟨1, 200, 1, []⟩), (9, ⟨2, 100, 6, ascii "bad tag"⟩)] ∧
      Intact toyLog 0 ⟨1, 200, 1, []⟩ ∧ Intact toyLog 9 ⟨2, 100, 6, ascii "bad tag"⟩ := by
  have calls : iterateCalls patient toyLog 3 0 () =
      [(0, ⟨1, 200, 1, []⟩), (9, ⟨2, 100, 6, ascii "bad tag"⟩)] := by decide +kernel
  have small : toyLog.length < longBound := by decide +kernel
  have log : IntactLog toyLog := by
    refine ⟨[⟨[1, 200, 1, 1, 0], [], ⟨1, 200, 1, 0, 5⟩, by decide, rfl, rfl, by decide⟩,
      ⟨[2, 100, 6, 7], ascii "bad tag", ⟨2, 100, 6, 7, 4⟩, by decide, rfl, by decide, by decide⟩], [],
      by decide +kernel, fun e crc rest four split => ?_⟩
    have longer := congrArg List.length split
    rw [List.length_append, e.length_bytes four, List.length_nil] at longer
    omega
  have delivered := (delivered_intact_iff toyLog small).2.mpr log Unit patient () 3
  rw [calls, List.forall_mem_cons, List.forall_mem_singleton] at delivered
  exact ⟨calls, delivered⟩

/-- One event without a payload, with a checksum of zeros. -/
def zeroChecksum : Bytes := [1, 5, 7, 0, 0, 0, 0, 0]

/-- The event is delivered, though its checksum is another one. -/
theorem corrupted_event_delivered :
    slEventLogIterate (fun r seen => (seen ++ [r], 0)) 3 zeroChecksum [] = some [⟨1, 5, 7, []⟩] ∧
    iterateCalls patient zeroChecksum 3 0 () = [(0, ⟨1, 5, 7, []⟩)] ∧
    ¬ Intact zeroChecksum 0 ⟨1, 5, 7, []⟩ := by
  refine ⟨by decide +kernel, by decide +kernel, ?_⟩
  intro intact
  obtain ⟨head, read, -, follows⟩ := intact
  have only : readEventHead (fread zeroChecksum 0 eventHdrSize) = some ⟨1, 5, 7, 0, 4⟩ := by
    decide +kernel
  obtain rfl := Option.some.inj (only.symm.trans read)
  unfold EventHead.Checked at follows
  exact absurd follows (by decide +kernel)

end SecureLink.Guarantees.EventCorruption
