import SecureLink.Source.Store.EventLog
import SecureLink.Source.Store.KvLog
import SecureLink.Source.Store.KvScan

/-!
# Opening a file comes to an end

Opening a store or a log walks from record to record by lengths it reads from the file. A
length of 2^63 or more is a negative `long` (src/sl_kvstore.c:136, src/sl_event_log.c:61), and
the seek by it can lead back. The loops go forward exactly on the files where no record on
the way does that, and then they return.
-/
namespace SecureLink.Guarantees.OpenTermination
open Library.BigEndian Library.Scan Source.Store Source.Store.SlKvstore

/-- The record at this offset has a value length that, as a `long`, leads back to it or
before it. -/
def KvLeadsBack (file : Bytes) (pos : Nat) : Prop :=
  ∃ h ∈ readHead file pos, h.tomb = false ∧ 0 ≤ h.keyEnd + toLong h.vlen ∧
    h.keyEnd + toLong h.vlen + 4 ≤ pos

/-- The same for the payload length of an event. -/
def EventLeadsBack (file : Bytes) (pos : Nat) : Prop :=
  ∃ head ∈ readEventHead (fread file pos openHdrSize),
    0 ≤ pos + head.size + toLong head.plen + 4 ∧ head.size + toLong head.plen + 4 ≤ 0

instance (file : Bytes) (pos : Nat) : Decidable (KvLeadsBack file pos) :=
  inferInstanceAs (Decidable (∃ h ∈ readHead file pos, _))

instance (file : Bytes) (pos : Nat) : Decidable (EventLeadsBack file pos) :=
  inferInstanceAs (Decidable (∃ head ∈ readEventHead (fread file pos openHdrSize), _))

/-- Every round of either loop leaves it or goes on at a larger offset, and both return. -/
structure OpensFinish (file : Bytes) : Prop where
  kvForward : Forward (kvLook file) 0
  eventForward : Forward (eventLook file) 0
  kvReturns : ∃ kv, slKvstoreOpen (file.length + 1) file = some kv
  eventReturns : ∃ log, slEventLogOpen (file.length + 1) file = some log

theorem goes_kvLook {file : Bytes} {pos next : Nat} :
    Goes (kvLook file) pos next ↔ ∃ h, readHead file pos = some h ∧ h.next = some next := by
  constructor
  · intro goes
    obtain ⟨x, look⟩ := goes
    obtain ⟨h, read, shape⟩ := Option.map_eq_some_iff.mp look
    exact ⟨h, read, (Prod.mk.inj shape).2⟩
  · intro found
    obtain ⟨h, read, goesOn⟩ := found
    exact ⟨h, by rw [kvLook, read, Option.map_some, goesOn]⟩

/-- A round of the replay goes back exactly at such a record. -/
theorem kv_goes_back_iff {file : Bytes} {pos : Nat} :
    (∃ next, Goes (kvLook file) pos next ∧ next ≤ pos) ↔ KvLeadsBack file pos := by
  constructor
  · intro back
    obtain ⟨next, goes, notBehind⟩ := back
    obtain ⟨h, read, goesOn⟩ := goes_kvLook.mp goes
    obtain ⟨l, -, -, place, -⟩ := readHead_some read
    unfold RecordHead.next at goesOn
    cases tomb : h.tomb with
    | true =>
      rw [tomb, if_pos rfl] at goesOn
      obtain ⟨same, -⟩ := fseek_eq_some.mp goesOn
      unfold RecordHead.keyEnd at same
      omega
    | false =>
      rw [tomb, if_neg Bool.false_ne_true] at goesOn
      obtain ⟨valueEnd, seek, again⟩ := Option.bind_eq_some_iff.mp goesOn
      obtain ⟨value, -⟩ := fseek_eq_some.mp seek
      obtain ⟨same, -⟩ := fseek_eq_some.mp again
      exact ⟨h, read, tomb, by omega, by omega⟩
  · intro back
    obtain ⟨h, read, tomb, start, notBehind⟩ := back
    obtain ⟨l, -, -, place, inside, -⟩ := readHead_some read
    obtain ⟨valueEnd, value⟩ := Int.eq_ofNat_of_zero_le start
    have first : fseek (h.keyEnd + toLong h.vlen) = some valueEnd :=
      fseek_eq_some.mpr ⟨value, by omega⟩
    have second : fseek (valueEnd + 4 : Nat) = some (valueEnd + 4) :=
      fseek_eq_some.mpr ⟨rfl, by omega⟩
    refine ⟨valueEnd + 4, goes_kvLook.mpr ⟨h, read, ?_⟩, by omega⟩
    rw [RecordHead.next, tomb, if_neg Bool.false_ne_true, first, Option.bind_some, second]

theorem octets_of_head {file : Bytes} {pos : Nat} {head : EventHead}
    (read : readEventHead (fread file pos openHdrSize) = some head) :
    0 < (fread file pos openHdrSize).length ∧ pos < file.length := by
  have some_octet : 0 < (fread file pos openHdrSize).length := by
    apply Nat.pos_of_ne_zero
    intro empty
    rw [List.length_eq_zero_iff.mp empty] at read
    cases read
  refine ⟨some_octet, ?_⟩
  rw [fread, List.length_take, List.length_drop] at some_octet
  omega

theorem goes_eventLook {file : Bytes} {pos next : Nat} :
    Goes (eventLook file) pos next ↔
      ∃ head, readEventHead (fread file pos openHdrSize) = some head ∧
        (fseek (pos + head.size + toLong head.plen + 4)).getD
          (pos + (fread file pos openHdrSize).length) = next := by
  constructor
  · intro goes
    obtain ⟨x, look⟩ := goes
    obtain ⟨head, read, shape⟩ := Option.map_eq_some_iff.mp look
    exact ⟨head, read, Option.some.inj (Prod.mk.inj shape).2⟩
  · intro found
    obtain ⟨head, read, rfl⟩ := found
    exact ⟨head, by rw [eventLook, read, Option.map_some]⟩

/-- A round of the scan goes back exactly at such an event; a seek that fails leaves the
position behind the octets just read. -/
theorem event_goes_back_iff {file : Bytes} (small : file.length < longBound) {pos : Nat} :
    (∃ next, Goes (eventLook file) pos next ∧ next ≤ pos) ↔ EventLeadsBack file pos := by
  constructor
  · intro back
    obtain ⟨next, goes, notBehind⟩ := back
    obtain ⟨head, read, arrives⟩ := goes_eventLook.mp goes
    have octets := (octets_of_head read).1
    cases seek : fseek (pos + head.size + toLong head.plen + 4) with
    | none =>
      rw [seek, Option.getD_none] at arrives
      omega
    | some target =>
      obtain ⟨same, -⟩ := fseek_eq_some.mp seek
      rw [seek, Option.getD_some] at arrives
      exact ⟨head, read, by omega, by omega⟩
  · intro back
    obtain ⟨head, read, start, notBehind⟩ := back
    have inside := (octets_of_head read).2
    obtain ⟨target, same⟩ := Int.eq_ofNat_of_zero_le start
    have seek : fseek (pos + head.size + toLong head.plen + 4) = some target :=
      fseek_eq_some.mpr ⟨same, by omega⟩
    refine ⟨target, goes_eventLook.mpr ⟨head, read, ?_⟩, by omega⟩
    rw [seek, Option.getD_some]

theorem kvLook_end (file : Bytes) {pos : Nat} (done : file.length ≤ pos) : kvLook file pos = none := by
  rw [kvLook, readHead_end done, Option.map_none]

theorem eventLook_end (file : Bytes) {pos : Nat} (done : file.length ≤ pos) :
    eventLook file pos = none := by
  cases read : readEventHead (fread file pos openHdrSize) with
  | none => rw [eventLook, read, Option.map_none]
  | some head => exact absurd (octets_of_head read).2 (Nat.not_lt.mpr done)

theorem kv_returns {file : Bytes} (forward : Forward (kvLook file) 0) :
    ∃ kv, slKvstoreOpen (file.length + 1) file = some kv := by
  obtain ⟨items, done⟩ : ∃ items, scan (kvLook file) (file.length + 1) 0 = some items :=
    forward.returns (fun _ => kvLook_end file) (by omega) (by omega)
  simp only [slKvstoreOpen, replay_eq_scan, done, Option.map_some]
  exact ⟨_, rfl⟩

theorem event_returns {file : Bytes} (forward : Forward (eventLook file) 0) :
    ∃ log, slEventLogOpen (file.length + 1) file = some log := by
  obtain ⟨items, done⟩ : ∃ items, scan (eventLook file) (file.length + 1) 0 = some items :=
    forward.returns (fun _ => eventLook_end file) (by omega) (by omega)
  simp only [slEventLogOpen, openLoop_eq_scan, done, Option.map_some]
  exact ⟨_, rfl⟩

/-- Both opens go forward in every round, and return, exactly if no record on the way of
either has a length that leads back. -/
theorem opens_finish_iff (file : Bytes) (small : file.length < longBound) :
    OpensFinish file ↔
      (∀ pos, Visits (kvLook file) 0 pos → ¬ KvLeadsBack file pos) ∧
      (∀ pos, Visits (eventLook file) 0 pos → ¬ EventLeadsBack file pos) := by
  have kv : Forward (kvLook file) 0 ↔
      ∀ pos, Visits (kvLook file) 0 pos → ¬ KvLeadsBack file pos := by
    simp only [forward_iff, kv_goes_back_iff]
  have event : Forward (eventLook file) 0 ↔
      ∀ pos, Visits (eventLook file) 0 pos → ¬ EventLeadsBack file pos := by
    simp only [forward_iff, event_goes_back_iff small]
  rw [← kv, ← event]
  constructor
  · intro finish
    exact ⟨finish.kvForward, finish.eventForward⟩
  · intro forward
    exact ⟨forward.1, forward.2, kv_returns forward.1, event_returns forward.2⟩

/-- One put of an empty value with the checksum missing; as a log, one event that ends behind
the end of the file. -/
def oneRecord : Bytes := [1, 0, 0, 0x6B]

theorem opens_finish_one_record : OpensFinish oneRecord := by
  apply (opens_finish_iff oneRecord (by decide)).mpr
  constructor
  · intro pos _ back
    have inside : pos < 4 := by
      obtain ⟨h, read, -⟩ := back
      by_contra outside
      rw [Option.mem_def, readHead_end (Nat.not_lt.mp outside)] at read
      cases read
    have forward : ∀ pos < 4, ¬ KvLeadsBack oneRecord pos := by decide +kernel
    exact forward pos inside back
  · intro pos _ back
    have inside : pos < 4 := by
      obtain ⟨head, read, -⟩ := back
      exact (octets_of_head read).2
    have forward : ∀ pos < 4, ¬ EventLeadsBack oneRecord pos := by decide +kernel
    exact forward pos inside back

/-- Behind a record of an empty value, a record for the key `k` whose value length is 2^64 - 17:
from behind its key the seek goes back 17 bytes, and 4 forward to where it starts. -/
def stuckStore : Bytes :=
  [1, 0, 0, 0x6B, 0, 0, 0, 0] ++
    [1, 0xEF, 0xFF, 0xFF, 0xFF, 0xFF, 0xFF, 0xFF, 0xFF, 0xFF, 1, 0, 0x6B]

/-- One event whose payload length is 2^64 - 17, behind a header of 13 bytes. -/
def stuckLog : Bytes := [1, 1, 1, 0xEF, 0xFF, 0xFF, 0xFF, 0xFF, 0xFF, 0xFF, 0xFF, 0xFF, 1]

/-- Opening these files never returns. -/
theorem opens_never_return :
    (∀ fuel, slKvstoreOpen fuel stuckStore = none) ∧ (∀ fuel, slEventLogOpen fuel stuckLog = none) := by
  constructor
  · intro fuel
    have first : Goes (kvLook stuckStore) 0 8 := goes_kvLook.mpr ⟨⟨[0x6B], 0, 3, 0⟩, by decide +kernel⟩
    have stays : Goes (kvLook stuckStore) 8 8 :=
      goes_kvLook.mpr ⟨⟨[0x6B], 0, 20, 2 ^ 64 - 17⟩, by decide +kernel⟩
    rw [slKvstoreOpen, replay_eq_scan, scan_stuck (.single first) stays, Option.map_none]
  · intro fuel
    have stays : Goes (eventLook stuckLog) 0 0 :=
      goes_eventLook.mpr ⟨⟨1, 1, 1, 2 ^ 64 - 17, 13⟩, by decide +kernel⟩
    rw [slEventLogOpen, openLoop_eq_scan, scan_stuck .refl stays, Option.map_none, Option.map_none]

end SecureLink.Guarantees.OpenTermination
