import SecureLink.Library.Incremental
import SecureLink.Source.Record.Record
import SecureLink.Source.Wire.Fields

/-!
# Receive buffer

src/sl_recv_buf.c:6-47. Of the allocated array the bytes in use are kept; sliding the rest to the
front is dropping what was taken. `used + len` is the size of two objects that are in memory
together, so it is not taken modulo the word size. Pointers are never `NULL`.
-/
namespace SecureLink.Source.Record
open Library.BigEndian Library.Incremental

structure SlRecvBuf where
  cap : Nat
  buf : Bytes
  fits : buf.length ≤ cap

def slRecvBufInit (cap : Nat) (allocated : Bool) : Option SlRecvBuf :=
  if cap = 0 then none
  else if !allocated then none
  else some { cap, buf := [], fits := Nat.zero_le cap }

def slRecvBufPush (rb : SlRecvBuf) (data : Bytes) : SlRecvBuf × Int :=
  if h : rb.buf.length + data.length > rb.cap then (rb, -1)
  else ({ rb with buf := rb.buf ++ data, fits := by rw [List.length_append]; omega }, 0)

theorem SlRecvBuf.fits_drop (rb : SlRecvBuf) (n : Nat) : (rb.buf.drop n).length ≤ rb.cap := by
  have fits := rb.fits
  rw [List.length_drop]
  omega

/-- The buffer after the call, the value returned and what was written to `out`. -/
def slRecvBufTake (rb : SlRecvBuf) (outCap : Nat) : SlRecvBuf × Int × Option Bytes :=
  if rb.buf.length < slRecordHeaderLen then (rb, 0, none)
  else
    match slRecordPeekLen rb.buf with
    | none => (rb, -1, none)
    | some expected =>
      if expected > outCap then (rb, -1, none)
      else if rb.buf.length < expected then (rb, 0, none)
      else
        ({ rb with buf := rb.buf.drop expected, fits := rb.fits_drop expected },
         expected, some (rb.buf.take expected))

/-! ## The receiving loop -/

/-- Why the loop ended: it waits for more, or a call returned -1. -/
inductive Stop
  | waiting | takeFailed | pushFailed
  deriving DecidableEq, Repr

structure Received where
  records : List Bytes := []
  stop : Stop := .waiting
  rb : SlRecvBuf

def Received.after (records : List Bytes) (r : Received) : Received :=
  { r with records := records ++ r.records }

/-- Take records until the call returns 0 or -1; `none` if that takes more rounds. -/
def takeAll (outCap : Nat) : Nat → SlRecvBuf → Option Received
  | 0, _ => none
  | rounds + 1, rb =>
    match slRecvBufTake rb outCap with
    | (rb, rc, out) =>
      if rc > 0 then (takeAll outCap rounds rb).map (Received.after out.toList)
      else some { stop := if rc < 0 then .takeFailed else .waiting, rb }

/-- Push each chunk and take what is complete, up to the first failure. -/
def receive (outCap rounds : Nat) : SlRecvBuf → List Bytes → Option Received
  | rb, [] => some { rb }
  | rb, chunk :: later =>
    match slRecvBufPush rb chunk with
    | (rb, rc) =>
      if rc ≠ 0 then some { stop := .pushFailed, rb }
      else (takeAll outCap rounds rb).bind fun r =>
        if r.stop ≠ .waiting then some r
        else (receive outCap rounds r.rb later).map (Received.after r.records)

/-! ## Cutting a stream -/

/-- The record at the front of a stream, by the length its header announces. -/
def frontRecord (stream : Bytes) : Front Bytes Bytes Unit :=
  if stream.length < slRecordHeaderLen then .more
  else
    match slRecordPeekLen stream with
    | none => .bad ()
    | some expected =>
      if stream.length < expected then .more
      else .item (stream.take expected) (stream.drop expected)

/-- The records of a stream, whether a malformed header stopped the cutting, and the rest. -/
def cut (stream : Bytes) : Drained Bytes Bytes Unit := drainAll frontRecord List.length stream

/-- No header met in cutting the stream announces a record of more than `largest` bytes. -/
def AnnouncesAtMost (largest : Nat) (stream : Bytes) : Prop :=
  ∀ rest, Reach frontRecord stream rest → slRecordHeaderLen ≤ rest.length →
    ∀ expected ∈ slRecordPeekLen rest, expected ≤ largest

theorem slRecordPeekLen_bounds {header : Bytes} {expected : Nat}
    (peeked : slRecordPeekLen header = some expected) :
    slRecordHeaderLen < expected ∧ expected ≤ slRecordHeaderLen + slRecordMaxCiphertext := by
  simp only [slRecordPeekLen, Option.ite_none_left_eq_some, Option.some.injEq, not_or,
    Nat.not_lt] at peeked
  obtain ⟨-, ⟨low, high⟩, rfl⟩ := peeked
  unfold slAeadTagLen at low
  omega

/-- The longest record there is bounds them all. -/
theorem announcesAtMost_max (stream : Bytes) :
    AnnouncesAtMost (slRecordHeaderLen + slRecordMaxCiphertext) stream :=
  fun _ _ _ _ peeked => (slRecordPeekLen_bounds peeked).2

/-- The length stands in the header. -/
theorem slRecordPeekLen_append {stream : Bytes} (long : slRecordHeaderLen ≤ stream.length)
    (more : Bytes) : slRecordPeekLen (stream ++ more) = slRecordPeekLen stream := by
  unfold slRecordHeaderLen at long
  have version : unpackU16 ((stream ++ more).drop 1) = unpackU16 (stream.drop 1) := by
    rw [List.drop_append_of_le_length (by omega)]
    exact Wire.unpackU16_append (by rw [List.length_drop]; omega) more
  have length : unpackU16 ((stream ++ more).drop 3) = unpackU16 (stream.drop 3) := by
    rw [List.drop_append_of_le_length (by omega)]
    exact Wire.unpackU16_append (by rw [List.length_drop]; omega) more
  simp only [slRecordPeekLen, version, length]

theorem frontRecord_short {stream : Bytes} (short : stream.length < slRecordHeaderLen) :
    frontRecord stream = .more := by
  rw [frontRecord, if_pos short]

theorem frontRecord_bad {stream : Bytes} (long : slRecordHeaderLen ≤ stream.length)
    (peeked : slRecordPeekLen stream = none) : frontRecord stream = .bad () := by
  rw [frontRecord, if_neg (Nat.not_lt.mpr long), peeked]

theorem frontRecord_some {stream : Bytes} {expected : Nat}
    (long : slRecordHeaderLen ≤ stream.length) (peeked : slRecordPeekLen stream = some expected) :
    frontRecord stream =
      if stream.length < expected then .more
      else .item (stream.take expected) (stream.drop expected) := by
  rw [frontRecord, if_neg (Nat.not_lt.mpr long), peeked]

theorem frontRecord_item {stream record rest : Bytes}
    (front : frontRecord stream = .item record rest) :
    ∃ expected, slRecordHeaderLen ≤ stream.length ∧ slRecordPeekLen stream = some expected ∧
      expected ≤ stream.length ∧ record = stream.take expected ∧ rest = stream.drop expected := by
  rcases Nat.lt_or_ge stream.length slRecordHeaderLen with short | long
  · rw [frontRecord_short short] at front
    cases front
  · cases peeked : slRecordPeekLen stream with
    | none => rw [frontRecord_bad long peeked] at front; cases front
    | some expected =>
      rw [frontRecord_some long peeked] at front
      split_ifs at front with incomplete
      cases front
      exact ⟨expected, long, rfl, Nat.not_lt.mp incomplete, rfl, rfl⟩

theorem frontRecord_refused {stream : Bytes} (front : frontRecord stream = .bad ()) :
    slRecordHeaderLen ≤ stream.length ∧ slRecordPeekLen stream = none := by
  rcases Nat.lt_or_ge stream.length slRecordHeaderLen with short | long
  · rw [frontRecord_short short] at front
    cases front
  · cases peeked : slRecordPeekLen stream with
    | none => exact ⟨long, rfl⟩
    | some expected =>
      rw [frontRecord_some long peeked] at front
      split_ifs at front

theorem frontRecord_waiting {stream : Bytes} (front : frontRecord stream = .more) :
    stream.length < slRecordHeaderLen ∨ ∃ expected, slRecordHeaderLen ≤ stream.length ∧
      slRecordPeekLen stream = some expected ∧ stream.length < expected := by
  rcases Nat.lt_or_ge stream.length slRecordHeaderLen with short | long
  · exact .inl short
  · cases peeked : slRecordPeekLen stream with
    | none => rw [frontRecord_bad long peeked] at front; cases front
    | some expected =>
      rw [frontRecord_some long peeked] at front
      split_ifs at front with incomplete
      exact .inr ⟨expected, long, rfl, incomplete⟩

theorem frontRecord_stable : Stable frontRecord (fun stream more => stream ++ more) where
  item stream record rest more front := by
    obtain ⟨expected, long, peeked, whole, rfl, rfl⟩ := frontRecord_item front
    rw [frontRecord_some (by rw [List.length_append]; omega)
      ((slRecordPeekLen_append long more).trans peeked),
      if_neg (by rw [List.length_append]; omega), List.take_append_of_le_length whole,
      List.drop_append_of_le_length whole]
  bad stream e more front := by
    obtain ⟨long, peeked⟩ := frontRecord_refused front
    exact frontRecord_bad (by rw [List.length_append]; omega)
      ((slRecordPeekLen_append long more).trans peeked)
  push_nil stream := List.append_nil stream
  push_push stream first second := List.append_assoc stream first second

theorem frontRecord_shrinks : Shrinks frontRecord List.length := by
  intro stream record rest front
  obtain ⟨expected, -, peeked, whole, -, rfl⟩ := frontRecord_item front
  have positive := (slRecordPeekLen_bounds peeked).1
  rw [List.length_drop]
  omega

/-- What waits for more is shorter than the record it begins. -/
theorem length_le_of_waiting {stream : Bytes} {largest : Nat} (header : slRecordHeaderLen ≤ largest)
    (announces : AnnouncesAtMost largest stream) (waiting : frontRecord stream = .more) :
    stream.length ≤ largest := by
  rcases frontRecord_waiting waiting with short | ⟨expected, long, peeked, incomplete⟩
  · omega
  · have bound := announces stream (.start stream) long expected peeked
    omega

namespace AnnouncesAtMost

variable {largest : Nat} {stream rest : Bytes}

theorem of_append (announces : AnnouncesAtMost largest (stream ++ rest)) :
    AnnouncesAtMost largest stream := by
  intro t reach long expected peeked
  refine announces (t ++ rest) (reach.pushed frontRecord_stable rest) ?_ expected ?_
  · rw [List.length_append]
    omega
  · rw [slRecordPeekLen_append long]
    exact peeked

theorem of_reach (announces : AnnouncesAtMost largest stream)
    (reach : Reach frontRecord stream rest) : AnnouncesAtMost largest rest :=
  fun t further => announces t (reach.trans further)

end AnnouncesAtMost

/-! ## The buffer cuts the stream -/

theorem slRecvBufPush_failed {rb : SlRecvBuf} {data : Bytes} (failed : (slRecvBufPush rb data).2 = -1) :
    (slRecvBufPush rb data).1 = rb := by
  unfold slRecvBufPush at failed ⊢
  split_ifs at failed ⊢
  rfl

theorem slRecvBufPush_room (rb : SlRecvBuf) (data : Bytes)
    (room : rb.buf.length + data.length ≤ rb.cap) :
    ∃ fits : (rb.buf ++ data).length ≤ rb.cap,
      slRecvBufPush rb data = (⟨rb.cap, rb.buf ++ data, fits⟩, 0) := by
  refine ⟨by rw [List.length_append]; exact room, ?_⟩
  rw [slRecvBufPush, dif_neg (Nat.not_lt.mpr room)]

/-- A call that returns no record changes nothing. -/
theorem slRecvBufTake_failed {rb : SlRecvBuf} {outCap : Nat}
    (failed : (slRecvBufTake rb outCap).2.1 ≤ 0) :
    (slRecvBufTake rb outCap).1 = rb ∧ (slRecvBufTake rb outCap).2.2 = none := by
  unfold slRecvBufTake at failed ⊢
  split_ifs at failed ⊢ with short
  · exact ⟨rfl, rfl⟩
  · cases peeked : slRecordPeekLen rb.buf with
    | none => exact ⟨rfl, rfl⟩
    | some expected =>
      have positive := (slRecordPeekLen_bounds peeked).1
      simp only [peeked] at failed ⊢
      split_ifs at failed ⊢
      · exact ⟨rfl, rfl⟩
      · exact ⟨rfl, rfl⟩
      · change (expected : Int) ≤ 0 at failed
        omega

section Take

variable {rb : SlRecvBuf} {largest outCap : Nat}

theorem slRecvBufTake_more (announces : AnnouncesAtMost largest rb.buf) (room : largest ≤ outCap)
    (front : frontRecord rb.buf = .more) : slRecvBufTake rb outCap = (rb, 0, none) := by
  rcases frontRecord_waiting front with short | ⟨expected, long, peeked, incomplete⟩
  · rw [slRecvBufTake, if_pos short]
  · have bound := announces rb.buf (.start _) long expected peeked
    simp only [slRecvBufTake, if_neg (Nat.not_lt.mpr long), peeked]
    rw [if_neg (by omega), if_pos incomplete]

theorem slRecvBufTake_bad (front : frontRecord rb.buf = .bad ()) :
    slRecvBufTake rb outCap = (rb, -1, none) := by
  obtain ⟨long, peeked⟩ := frontRecord_refused front
  simp only [slRecvBufTake, if_neg (Nat.not_lt.mpr long), peeked]

theorem slRecvBufTake_item (announces : AnnouncesAtMost largest rb.buf) (room : largest ≤ outCap)
    {record rest : Bytes} (front : frontRecord rb.buf = .item record rest) :
    ∃ fits : rest.length ≤ rb.cap,
      slRecvBufTake rb outCap = (.mk rb.cap rest fits, (record.length : Int), some record) ∧
      0 < record.length := by
  obtain ⟨expected, long, peeked, whole, rfl, rfl⟩ := frontRecord_item front
  have bound := announces rb.buf (.start _) long expected peeked
  have positive := (slRecordPeekLen_bounds peeked).1
  have length : (rb.buf.take expected).length = expected := List.length_take_of_le whole
  refine ⟨rb.fits_drop expected, ?_, by omega⟩
  simp only [slRecvBufTake, if_neg (Nat.not_lt.mpr long), peeked, length]
  rw [if_neg (by omega), if_neg (Nat.not_lt.mpr whole)]

end Take

/-- How the loop over the buffer ends when cutting ends so. -/
def stopOf (error : Option Unit) : Stop := if error = none then .waiting else .takeFailed

/-- Taking records is cutting what is buffered. -/
theorem takeAll_eq {largest outCap : Nat} (room : largest ≤ outCap) {rounds : Nat} (rb : SlRecvBuf)
    (announces : AnnouncesAtMost largest rb.buf) {d : Drained Bytes Bytes Unit}
    (drained : drain frontRecord rounds rb.buf = some d) :
    ∃ fits : d.left.length ≤ rb.cap, takeAll outCap rounds rb =
      some { records := d.items, stop := stopOf d.error, rb := ⟨rb.cap, d.left, fits⟩ } := by
  induction rounds generalizing rb d with
  | zero => cases drained
  | succ rounds ih =>
    cases front : frontRecord rb.buf with
    | more =>
      rw [drain_more front rounds.succ_pos] at drained
      cases drained
      refine ⟨rb.fits, ?_⟩
      simp only [takeAll, slRecvBufTake_more announces room front]
      rfl
    | bad e =>
      rw [drain_bad front rounds.succ_pos] at drained
      cases drained
      refine ⟨rb.fits, ?_⟩
      simp only [takeAll, slRecvBufTake_bad front]
      rfl
    | item record rest =>
      simp only [drain, front, Option.map_eq_some_iff] at drained
      obtain ⟨later, drained, rfl⟩ := drained
      obtain ⟨fits, taken, positive⟩ := slRecvBufTake_item announces room front
      have further : AnnouncesAtMost largest rest :=
        announces.of_reach (.item front (.start rest))
      obtain ⟨fits', all⟩ := ih ⟨rb.cap, rest, fits⟩ further drained
      refine ⟨fits', ?_⟩
      simp only [takeAll, taken, all, if_pos (Int.natCast_pos.mpr positive), Option.map_some]
      rfl

/-- Receiving in chunks is cutting in chunks: there is always room for the next one. -/
theorem receive_eq {largest outCap m : Nat} (header : slRecordHeaderLen ≤ largest)
    (room : largest ≤ outCap) {rounds : Nat} {chunks : List Bytes}
    (small : ∀ chunk ∈ chunks, chunk.length ≤ m) (rb : SlRecvBuf) (space : m + largest ≤ rb.cap)
    (announces : AnnouncesAtMost largest (rb.buf ++ chunks.flatten))
    (waiting : frontRecord rb.buf = .more) {d : Drained Bytes Bytes Unit}
    (drained : drainChunks frontRecord (fun stream more => stream ++ more) rounds rb.buf chunks =
      some d) :
    ∃ fits : d.left.length ≤ rb.cap, receive outCap rounds rb chunks =
      some { records := d.items, stop := stopOf d.error, rb := ⟨rb.cap, d.left, fits⟩ } := by
  induction chunks generalizing rb d with
  | nil =>
    cases drained
    exact ⟨rb.fits, rfl⟩
  | cons chunk later ih =>
    have short := length_le_of_waiting header announces.of_append waiting
    have fitting := small chunk (by simp)
    obtain ⟨fits, pushed⟩ := slRecvBufPush_room rb chunk (by omega)
    rw [List.flatten_cons, ← List.append_assoc] at announces
    rw [drainChunks, Option.bind_eq_some_iff] at drained
    obtain ⟨⟨items, error, left⟩, here, rest⟩ := drained
    have buffered : AnnouncesAtMost largest (rb.buf ++ chunk) := announces.of_append
    have reach := drain_reach here
    have stops := drain_stops here
    obtain ⟨fits', taken⟩ := takeAll_eq room ⟨rb.cap, rb.buf ++ chunk, fits⟩ buffered here
    cases error with
    | some e =>
      simp only [Option.isSome_some, if_true, Option.some.injEq] at rest
      subst rest
      refine ⟨fits', ?_⟩
      simp only [receive, pushed, taken]
      rfl
    | none =>
      simp only [Option.isSome_none, Bool.false_eq_true, if_false, Option.map_eq_some_iff] at rest
      obtain ⟨d, drained, rfl⟩ := rest
      have further : AnnouncesAtMost largest (left ++ later.flatten) :=
        announces.of_reach (reach.pushed frontRecord_stable later.flatten)
      obtain ⟨fits, all⟩ := ih (fun chunk member => small chunk (by simp [member]))
        ⟨rb.cap, left, fits'⟩ space further stops drained
      refine ⟨fits, ?_⟩
      simp only [receive, pushed, taken, stopOf]
      simp [all]
      rfl

end SecureLink.Source.Record
