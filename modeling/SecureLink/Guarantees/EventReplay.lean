import SecureLink.Library.Log
import SecureLink.Library.Runs
import SecureLink.Source.Store.EventLog

/-!
# Replay of the event log

Over any number of sessions the file is the concatenation of the records of the appended
events, numbered from 1. Both scanners stay at record boundaries: opening the log finds the
number to go on with, and iterating hands the events to the visitor in order.
-/
namespace SecureLink.Guarantees.EventReplay
open Library.BigEndian Library.Log Library.Runs Source.Store

/-- The bytes of a record in the file. -/
def recordBytes (r : SlEventRecord) : Bytes := (eventRecord r).getD []

def Fits (r : SlEventRecord) : Prop := r.payload.length ≤ eventPayloadMax

theorem eventCrc_length (hdr payload : Bytes) : (eventCrc hdr payload).length = 4 := encode_length _ _

theorem fread_front (front rest : Bytes) (size : Nat) :
    fread (front ++ rest) front.length size = rest.take size := by
  rw [fread, List.drop_left]

/-- The header buffer of a scanner holds the whole header. -/
theorem fread_header {front hdr rest : Bytes} {size : Nat} (short : hdr.length ≤ size) :
    fread (front ++ (hdr ++ rest)) front.length size = hdr ++ rest.take (size - hdr.length) := by
  rw [fread_front, List.take_append, List.take_of_length_le short]

/-- A header, all of it, that announces the payload. -/
structure RawEvent where
  hdr : Bytes
  payload : Bytes
  head : EventHead
  reads : readEventHead hdr = some head
  whole : head.size = hdr.length
  announced : head.plen = payload.length
  fits : payload.length ≤ eventPayloadMax

namespace RawEvent

/-- The bytes of a record that has four bytes for a checksum. -/
def bytes (e : RawEvent) (crc : Bytes) : Bytes := e.hdr ++ (e.payload ++ crc)

/-- The record a reader makes of it. -/
def record (e : RawEvent) : SlEventRecord :=
  { seq := UInt64.ofNat e.head.seq, timestampNs := UInt64.ofNat e.head.ts,
    type := UInt32.ofNat e.head.type, payload := e.payload }

/-- The bytes an append writes for it. -/
def sealed (e : RawEvent) : Bytes := e.bytes (eventCrc e.hdr e.payload)

theorem length_bytes (e : RawEvent) {crc : Bytes} (four : crc.length = 4) :
    (e.bytes crc).length = e.head.size + e.head.plen + 4 := by
  rw [bytes, List.length_append, List.length_append, four, e.whole, e.announced]
  omega

/-- A buffer that holds any header is read as its head. -/
theorem read (e : RawEvent) (crc front rest : Bytes) {size : Nat} (large : eventHdrSize ≤ size) :
    readEventHead (fread (front ++ (e.bytes crc ++ rest)) front.length size) = some e.head := by
  obtain ⟨_, short, again⟩ := readEventHead_front e.reads
  rw [e.whole] at short again
  rw [List.take_length] at again
  rw [bytes, List.append_assoc, fread_header (Nat.le_trans short large), again]

/-- Where it stands a reader finds its head, its record, and the four bytes behind it. -/
theorem stands (e : RawEvent) {crc : Bytes} (four : crc.length = 4) (front rest : Bytes) {file : Bytes}
    (placed : file = front ++ (e.bytes crc ++ rest)) :
    e.head.Complete file front.length ∧ e.head.record file front.length = e.record ∧
    (e.head.Checked file front.length ↔ crc = eventCrc e.hdr e.payload) := by
  have parts : file = front ++ (e.hdr ++ (e.payload ++ (crc ++ rest))) := by
    rw [placed, bytes, List.append_assoc, List.append_assoc]
  have header : fread file front.length e.hdr.length = e.hdr := by
    rw [parts, fread_front, List.take_left]
  have payload : fread file (front.length + e.hdr.length) e.payload.length = e.payload := by
    rw [parts, ← List.append_assoc front, ← List.length_append, fread_front, List.take_left]
  have stored : fread file (front.length + e.hdr.length + e.payload.length) 4 = crc := by
    rw [parts, ← List.append_assoc front, ← List.append_assoc (front ++ e.hdr), ← List.length_append,
      ← List.length_append, fread_front, List.take_left' four]
  refine ⟨⟨e.announced ▸ e.fits, ?_⟩, ?_, ?_⟩
  · rw [placed, List.length_append, List.length_append, e.length_bytes four]
    omega
  · rw [EventHead.record, e.whole, e.announced, payload, record]
  · rw [EventHead.Checked, e.whole, e.announced, header, payload, stored]

/-- A round of the iteration that starts where it stands yields its record and ends behind it. -/
theorem yields (e : RawEvent) {crc : Bytes} (four : crc.length = 4) {front rest : Bytes}
    (long : (front ++ (e.bytes crc ++ rest)).length < longBound) :
    readEvent (front ++ (e.bytes crc ++ rest)) front.length =
      some (e.record, front.length + (e.bytes crc).length) := by
  obtain ⟨complete, record, -⟩ := e.stands four front rest rfl
  refine (readEvent_iff long).mpr
    ⟨e.head, e.read crc front rest (Nat.le_refl _), complete, record.symm, ?_⟩
  rw [e.length_bytes four]
  omega

end RawEvent

/-- What is written for a record. -/
theorem recordBytes_raw {r : SlEventRecord} (fits : Fits r) :
    eventRecord r = some (recordBytes r) ∧ ∃ e : RawEvent, recordBytes r = e.sealed ∧ e.record = r := by
  obtain ⟨hdr, header, reads⟩ := readEventHead_header r fits
  have record : eventRecord r = some (hdr ++ (r.payload ++ eventCrc hdr r.payload)) := by
    rw [eventRecord, header, Option.map_some, List.append_assoc]
  refine ⟨by rw [recordBytes, record, Option.getD_some],
    ⟨hdr, r.payload, _, reads, rfl, rfl, fits⟩, by rw [recordBytes, record]; rfl, ?_⟩
  simp only [RawEvent.record, UInt64.ofNat_toNat, UInt32.ofNat_toNat]

section Round
variable {front rest : Bytes} {r : SlEventRecord} (fits : Fits r)
  (long : (front ++ (recordBytes r ++ rest)).length < longBound)
include fits long

/-- A round of the iteration that starts at a record yields it and ends behind it. -/
theorem readEvent_record :
    readEvent (front ++ (recordBytes r ++ rest)) front.length =
      some (r, front.length + (recordBytes r).length) := by
  obtain ⟨_, e, parts, rfl⟩ := recordBytes_raw fits
  rw [parts] at long ⊢
  exact e.yields (eventCrc_length _ _) long

/-- A round of the scan on opening that starts at a record ends behind it. -/
theorem openLoop_record (fuel : Nat) (nextSeq : UInt64) :
    openLoop (front ++ (recordBytes r ++ rest)) (fuel + 1) front.length nextSeq =
      openLoop (front ++ (recordBytes r ++ rest)) fuel (front.length + (recordBytes r).length)
        (if r.seq ≥ nextSeq then r.seq + 1 else nextSeq) := by
  obtain ⟨_, e, parts, rfl⟩ := recordBytes_raw fits
  rw [parts, RawEvent.sealed] at long ⊢
  have length := e.length_bytes (eventCrc_length e.hdr e.payload)
  have read := e.read (eventCrc e.hdr e.payload) front rest (show eventHdrSize ≤ openHdrSize by decide)
  have octets : ¬ (fread (front ++ (e.bytes (eventCrc e.hdr e.payload) ++ rest)) front.length
      openHdrSize).length = 0 := by
    intro empty
    rw [List.length_eq_zero_iff.mp empty] at read
    cases read
  have small : e.head.plen < longBound := e.announced ▸ Nat.lt_of_le_of_lt e.fits (by decide)
  rw [List.length_append, List.length_append] at long
  have next : fseek ((front.length : Int) + e.head.size + toLong e.head.plen + 4) =
      some (front.length + (e.bytes (eventCrc e.hdr e.payload)).length) := by
    have target : (front.length : Int) + e.head.size + toLong e.head.plen + 4 =
        (front.length + (e.bytes (eventCrc e.hdr e.payload)).length : Nat) := by
      rw [toLong, if_pos small, length]
      omega
    rw [target]
    exact fseek_nat (by omega)
  simp only [openLoop, if_neg octets, read, next, Option.getD_some]
  rfl

end Round

/-- What a visitor makes of a list of records: it may stop early. -/
def visitAll {υ : Type*} (visitor : SlEventRecord → υ → υ × Int) : List SlEventRecord → υ → υ
  | [], user => user
  | r :: rest, user =>
    if (visitor r user).2 ≠ 0 then (visitor r user).1 else visitAll visitor rest (visitor r user).1

theorem fread_end (file : Bytes) (size : Nat) : fread file file.length size = [] := by
  rw [fread, List.drop_length, List.take_nil]

/-- The iteration from a record boundary on. -/
theorem iterateLoop_log {υ : Type*} (visitor : SlEventRecord → υ → υ × Int)
    {records : List SlEventRecord} (fits : ∀ r ∈ records, Fits r) (front : Bytes)
    (long : (front ++ log recordBytes records).length < longBound) {fuel : Nat}
    (enough : records.length < fuel) (user : υ) :
    iterateLoop visitor (front ++ log recordBytes records) fuel front.length user =
      some (visitAll visitor records user) := by
  induction records generalizing front fuel user with
  | nil =>
    obtain ⟨fuel, rfl⟩ : ∃ k, fuel = k + 1 := ⟨fuel - 1, by omega⟩
    simp only [log_nil, List.append_nil, iterateLoop, readEvent, fread_end, List.length_nil, if_true,
      visitAll]
  | cons r rest ih =>
    obtain ⟨fuel, rfl⟩ : ∃ k, fuel = k + 1 := ⟨fuel - 1, by omega⟩
    rw [log_cons] at long ⊢
    simp only [iterateLoop, readEvent_record (fits r (by simp)) long, visitAll]
    split
    next => rfl
    next =>
      rw [← List.append_assoc] at long ⊢
      rw [← List.length_append]
      exact ih (fun r later => fits r (by simp [later])) _ long (by simpa using enough) _

/-- Records with consecutive numbers. -/
def Consecutive : UInt64 → List SlEventRecord → Prop
  | _, [] => True
  | seq, r :: rest => r.seq = seq ∧ Consecutive (seq + 1) rest

/-- The scan on opening from a record boundary on. -/
theorem openLoop_log {records : List SlEventRecord} (fits : ∀ r ∈ records, Fits r) (front : Bytes)
    (long : (front ++ log recordBytes records).length < longBound) {fuel : Nat}
    (enough : records.length < fuel) {seq : UInt64} (numbered : Consecutive seq records) :
    openLoop (front ++ log recordBytes records) fuel front.length seq =
      some (seq + UInt64.ofNat records.length) := by
  induction records generalizing front fuel seq with
  | nil =>
    obtain ⟨fuel, rfl⟩ : ∃ k, fuel = k + 1 := ⟨fuel - 1, by omega⟩
    simp [openLoop, fread_end]
  | cons r rest ih =>
    obtain ⟨fuel, rfl⟩ : ∃ k, fuel = k + 1 := ⟨fuel - 1, by omega⟩
    obtain ⟨here, later⟩ := numbered
    have next : (if r.seq ≥ seq then r.seq + 1 else seq) = seq + 1 := by
      rw [here, if_pos (UInt64.le_refl seq)]
    rw [log_cons] at long ⊢
    rw [openLoop_record (fits r (by simp)) long, next]
    rw [← List.append_assoc] at long ⊢
    rw [← List.length_append,
      ih (fun r later => fits r (by simp [later])) _ long (by simpa using enough) later,
      List.length_cons, UInt64.ofNat_add, UInt64.add_assoc, UInt64.add_comm 1]
    rfl

/-- An appended event. -/
structure Event where
  timestampNs : UInt64
  type : UInt32
  payload : Bytes

def Event.record (seq : Nat) (e : Event) : SlEventRecord :=
  { seq := UInt64.ofNat seq, timestampNs := e.timestampNs, type := e.type, payload := e.payload }

/-- The events with the sequence numbers 1, 2, and so on. -/
def numbered (events : List Event) : List SlEventRecord :=
  events.mapIdx fun i e => e.record (i + 1)

theorem numbered_concat (events : List Event) (e : Event) :
    numbered (events ++ [e]) = numbered events ++ [e.record (events.length + 1)] :=
  List.mapIdx_concat

theorem length_numbered (events : List Event) : (numbered events).length = events.length :=
  List.length_mapIdx

theorem Consecutive.concat {seq : UInt64} {records : List SlEventRecord} {r : SlEventRecord}
    (h : Consecutive seq records) (next : r.seq = seq + UInt64.ofNat records.length) :
    Consecutive seq (records ++ [r]) := by
  induction records generalizing seq with
  | nil => exact ⟨by simpa using next, trivial⟩
  | cons first rest ih =>
    refine ⟨h.1, ih h.2 ?_⟩
    rw [next, List.length_cons, UInt64.ofNat_add, UInt64.add_assoc, UInt64.add_comm 1]
    rfl

theorem consecutive_numbered (events : List Event) : Consecutive 1 (numbered events) := by
  induction events using List.reverseRecOn with
  | nil => trivial
  | append_singleton events e ih =>
    rw [numbered_concat]
    apply ih.concat
    rw [length_numbered, UInt64.add_comm]
    exact UInt64.ofNat_add _ _

/-- A call on the log: an event, or a new session on the file so far. -/
inductive EventCall where
  | append (e : Event)
  | reopen

/-- `none` is a log that is still being opened. -/
def eventStep (handle : Option SlEventLog) : EventCall → Option SlEventLog × Int
  | .append e =>
    match handle with
    | none => (none, -1)
    | some log =>
      let result := slEventLogAppend log e.timestampNs e.type e.payload
      (some result.1, result.2)
  | .reopen =>
    (handle.bind fun log =>
      slEventLogOpen ((slEventLogClose log).length + 1) (slEventLogClose log), 0)

/-- What the sessions are to amount to: the events in order, without those that are too long. -/
def eventSpec (events : List Event) : EventCall → List Event × Int
  | .append e => if e.payload.length > eventPayloadMax then (events, -1) else (events ++ [e], 0)
  | .reopen => (events, 0)

/-- The write of the record finds room in the file. -/
def Written (handle : Option SlEventLog) : EventCall → Prop
  | .append e => ∀ log ∈ handle, ∀ record ∈ eventRecord
      { seq := log.nextSeq, timestampNs := e.timestampNs, type := e.type, payload := e.payload },
      log.file.length + record.length < longBound
  | .reopen => True

instance : ∀ handle call, Decidable (Written handle call)
  | _, .append _ => inferInstanceAs (Decidable (∀ _ ∈ _, ∀ _ ∈ _, _))
  | _, .reopen => inferInstanceAs (Decidable True)

/-- A log that is in step with the events appended to it. -/
structure Holds (handle : SlEventLog) (events : List Event) : Prop where
  file : handle.file = log recordBytes (numbered events)
  next : handle.nextSeq = UInt64.ofNat (events.length + 1)
  fits : ∀ r ∈ numbered events, Fits r
  long : handle.file.length < longBound

/-- An append succeeds exactly if there is room, and changes nothing if not. -/
theorem Holds.append_eq {handle : SlEventLog} {events : List Event} (h : Holds handle events)
    {e : Event} (fits : e.payload.length ≤ eventPayloadMax) :
    slEventLogAppend handle e.timestampNs e.type e.payload =
      let record := recordBytes (e.record (events.length + 1))
      if handle.file.length + record.length < longBound then
        ({ file := handle.file ++ record, nextSeq := handle.nextSeq + 1 }, 0)
      else (handle, -1) := by
  have record : SlEventRecord.mk handle.nextSeq e.timestampNs e.type e.payload =
      e.record (events.length + 1) := by
    rw [h.next]
    rfl
  unfold slEventLogAppend
  rw [if_neg (Nat.not_lt.mpr fits), record,
    (recordBytes_raw (r := e.record (events.length + 1)) fits).1]

theorem Holds.append {handle : SlEventLog} {events : List Event} (h : Holds handle events) {e : Event}
    (fits : e.payload.length ≤ eventPayloadMax)
    (room : handle.file.length + (recordBytes (e.record (events.length + 1))).length < longBound) :
    ∃ after, slEventLogAppend handle e.timestampNs e.type e.payload = (after, 0) ∧
      Holds after (events ++ [e]) := by
  refine ⟨_, (h.append_eq fits).trans (if_pos room), ?_, ?_, ?_, ?_⟩
  · rw [numbered_concat, log_append, log_cons, log_nil, List.append_nil, h.file]
  · rw [h.next, List.length_append, List.length_singleton, UInt64.ofNat_add (events.length + 1)]
    rfl
  · intro r member
    rw [numbered_concat, List.mem_append, List.mem_singleton] at member
    rcases member with member | rfl
    · exact h.fits r member
    · exact fits
  · rw [List.length_append]
    exact room

theorem recordBytes_nonempty {r : SlEventRecord} (fits : Fits r) : 0 < (recordBytes r).length := by
  obtain ⟨_, e, parts, _⟩ := recordBytes_raw fits
  rw [parts, RawEvent.sealed, e.length_bytes (eventCrc_length _ _)]
  omega

/-- There are no more events than bytes. -/
theorem Holds.length_le {handle : SlEventLog} {events : List Event} (h : Holds handle events) :
    events.length ≤ handle.file.length := by
  rw [h.file, ← length_numbered]
  exact length_le_log_of_mem (fun r member => recordBytes_nonempty (h.fits r member))

/-- A new session goes on where the last one stopped. -/
theorem Holds.reopen {handle : SlEventLog} {events : List Event} (h : Holds handle events) :
    ∃ after, slEventLogOpen (handle.file.length + 1) handle.file = some after ∧
      Holds after events := by
  have enough : (numbered events).length < handle.file.length + 1 := by
    rw [length_numbered]
    exact Nat.lt_succ_of_le h.length_le
  have scan := openLoop_log h.fits [] (by rw [List.nil_append, ← h.file]; exact h.long) enough
    (consecutive_numbered events)
  rw [List.nil_append, ← h.file, List.length_nil, length_numbered] at scan
  refine ⟨{ file := handle.file, nextSeq := 1 + UInt64.ofNat events.length }, ?_, h.file, ?_, h.fits,
    h.long⟩
  · rw [slEventLogOpen, scan, Option.map_some]
  · rw [UInt64.add_comm]
    exact (UInt64.ofNat_add _ _).symm

theorem eventStep_follows (handle : Option SlEventLog) (events : List Event) (call : EventCall)
    (h : ∃ log ∈ handle, Holds log events) (written : Written handle call) :
    (∃ log ∈ (eventStep handle call).1, Holds log (eventSpec events call).1) ∧
      (eventStep handle call).2 = (eventSpec events call).2 := by
  obtain ⟨log, rfl, h⟩ := h
  cases call with
  | append e =>
    by_cases long : e.payload.length > eventPayloadMax
    · simp only [eventStep, slEventLogAppend, eventSpec, if_pos long]
      exact ⟨⟨log, rfl, h⟩, trivial⟩
    · have fits : e.payload.length ≤ eventPayloadMax := Nat.not_lt.mp long
      have record := (recordBytes_raw (r := e.record (events.length + 1)) fits).1
      have room := written log rfl (recordBytes (e.record (events.length + 1)))
        (by rw [h.next]; exact record)
      obtain ⟨after, appended, holds⟩ := h.append fits room
      simp only [eventStep, eventSpec, if_neg long, appended]
      exact ⟨⟨after, rfl, holds⟩, trivial⟩
  | reopen =>
    obtain ⟨after, opened, holds⟩ := h.reopen
    exact ⟨⟨after, opened, holds⟩, rfl⟩

/-- Over any sessions on a new log whose writes find room: every event that is not too long is
appended, and an iteration visits exactly these events, in order and numbered from 1. -/
theorem appended_events_visited (calls : List EventCall)
    (written : AllSteps eventStep Written (slEventLogOpen 1 []) calls) :
    outputs eventStep (slEventLogOpen 1 []) calls = outputs eventSpec [] calls ∧
    ∃ handle, run eventStep (slEventLogOpen 1 []) calls = some handle ∧
      (run eventSpec [] calls).length + 1 < 2 ^ 64 ∧
      ∀ {υ : Type} (visitor : SlEventRecord → υ → υ × Int) (user : υ),
        slEventLogIterate visitor (handle.file.length + 1) (slEventLogClose handle) user =
          some (visitAll visitor (numbered (run eventSpec [] calls)) user) := by
  have start : ∃ log ∈ slEventLogOpen 1 [], Holds log [] :=
    ⟨{ file := [] }, rfl, rfl, rfl, by simp [numbered], by decide⟩
  obtain ⟨⟨handle, last, holds⟩, answers⟩ :=
    run_simulates (fun handle events => ∃ log ∈ handle, Holds log events) eventStep_follows start
      written
  have count := holds.length_le
  have long := holds.long
  refine ⟨answers, handle, last, by rw [longBound] at long; omega, ?_⟩
  intro υ visitor user
  have enough : (numbered (run eventSpec [] calls)).length < handle.file.length + 1 := by
    rw [length_numbered]
    exact Nat.lt_succ_of_le count
  have visit := iterateLoop_log visitor holds.fits []
    (by rw [List.nil_append, ← holds.file]; exact holds.long) enough user
  rw [List.nil_append, ← holds.file] at visit
  exact visit

/-- An accepted connection and a rejected beacon, in two sessions. -/
def toyEvents : List Event :=
  [{ timestampNs := 200, type := 1, payload := [] },
    { timestampNs := 100, type := 6, payload := ascii "bad tag" }]

def toyCalls : List EventCall := [.append toyEvents[0], .reopen, .append toyEvents[1], .reopen]

theorem appended_events_visited_toy :
    ∃ handle, run eventStep (slEventLogOpen 1 []) toyCalls = some handle ∧
      slEventLogIterate (fun r seen => (seen ++ [r], 0)) (handle.file.length + 1)
          (slEventLogClose handle) [] =
        some [⟨1, 200, 1, []⟩, ⟨2, 100, 6, ascii "bad tag"⟩] := by
  obtain ⟨_, handle, last, _, visited⟩ := appended_events_visited toyCalls (by decide +kernel)
  exact ⟨handle, last, visited _ _⟩

end SecureLink.Guarantees.EventReplay
