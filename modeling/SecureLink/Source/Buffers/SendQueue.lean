import SecureLink.Library.BigEndian
import SecureLink.Library.Circular

/-!
# Send queue

src/sl_send_queue.c:16-68. The outcomes of the `send` calls that a flush makes are an argument; when
they are used up the flush has not returned yet. As in the byte ring, sums of indices and of
sizes of objects in memory stay below the word size; `total` is an `int` and wraps around.
Pointers are never `NULL`.
-/
namespace SecureLink.Source.Buffers
open Library.BigEndian Library.Circular

/-- `head` is the next byte to send, `tail` the next byte to write to. -/
structure SlSendQueue where
  buf : Bytes
  cap : Nat
  head : Nat := 0
  tail : Nat := 0
  used : Nat := 0
  deriving DecidableEq, Repr

def slSendQueueNew (maxBytes : Nat) (calloc : Bool) (malloc : Option (FixedBytes maxBytes)) :
    Option SlSendQueue :=
  if maxBytes = 0 then none
  else if !calloc then none
  else malloc.map fun block => { buf := block.1, cap := maxBytes }

def slSendQueueEnqueue (q : SlSendQueue) (data : Bytes) : SlSendQueue × Int :=
  if data.length = 0 then (q, 0)
  else if q.used + data.length > q.cap then (q, -1)
  else
    ({ q with
       buf := copyIn q.cap q.buf q.tail data
       tail := (q.tail + data.length) % q.cap
       used := q.used + data.length }, 0)

/-- What `send` does: it takes a part of what it is offered, or fails with `EAGAIN`, `EINTR` or
another error. -/
inductive SendOutcome where
  | wrote (n : Nat) | again | interrupted | failed
  deriving DecidableEq, Repr

/-- The bytes up to the end of the array or of the queue, which are offered to `send`. -/
def SlSendQueue.chunk (q : SlSendQueue) : Nat :=
  if q.cap - q.head < q.used then q.cap - q.head else q.used

def SlSendQueue.advance (q : SlSendQueue) (w : Nat) : SlSendQueue :=
  { q with head := (q.head + w) % q.cap, used := q.used - w }

/-- The queue after a flush, the bytes it wrote and the value it returned. -/
structure Flushed where
  q : SlSendQueue
  written : Bytes := []
  rc : Option Int
  deriving DecidableEq, Repr

def Flushed.after (bytes : Bytes) (f : Flushed) : Flushed := { f with written := bytes ++ f.written }

def flushLoop (q : SlSendQueue) (total : Int) : List SendOutcome → Flushed
  | [] => { q, rc := if q.used > 0 then none else some total }
  | outcome :: later =>
    if q.used > 0 then
      match outcome with
      | .wrote n =>
        let w := min n q.chunk
        if w > 0 then
          (flushLoop (q.advance w) (Int.bmod (total + w) (2 ^ 32)) later).after (slice q.buf q.head w)
        else { q, rc := some (-1) }
      | .again => { q, rc := some total }
      | .interrupted => flushLoop q total later
      | .failed => { q, rc := some (-1) }
    else { q, rc := some total }

def slSendQueueFlush (q : SlSendQueue) (outcomes : List SendOutcome) : Flushed :=
  flushLoop q 0 outcomes

def slSendQueuePending (q : SlSendQueue) : Nat := q.used

namespace SlSendQueue

/-- The bytes that wait to be sent, around the end of the array. -/
def queued (q : SlSendQueue) : Bytes := (q.buf.rotate q.head).take q.used

/-- The queue holds these bytes. -/
abbrev Holds (q : SlSendQueue) (items : Bytes) : Prop :=
  Represents q.cap q.buf q.head q.tail q.used items

theorem new_holds {maxBytes : Nat} {calloc : Bool} {malloc : Option (FixedBytes maxBytes)}
    {q : SlSendQueue} (created : slSendQueueNew maxBytes calloc malloc = some q) :
    q.cap = maxBytes ∧ q.Holds [] := by
  unfold slSendQueueNew at created
  split_ifs at created with empty
  obtain ⟨block, -, rfl⟩ := Option.map_eq_some_iff.mp created
  exact ⟨rfl, Represents.empty block.2 (Nat.pos_of_ne_zero empty)⟩

theorem enqueue_cases (q : SlSendQueue) (data : Bytes) :
    slSendQueueEnqueue q data = (q, -1) ∨
    (slSendQueueEnqueue q data).2 = 0 ∧ (slSendQueueEnqueue q data).1.cap = q.cap ∧
      ∀ items, q.Holds items → (slSendQueueEnqueue q data).1.Holds (items ++ data) := by
  unfold slSendQueueEnqueue
  split_ifs with empty full
  · obtain rfl := List.eq_nil_of_length_eq_zero empty
    refine Or.inr ⟨rfl, rfl, fun items holds => ?_⟩
    rw [List.append_nil]
    exact holds
  · exact Or.inl rfl
  · exact Or.inr ⟨rfl, rfl, fun items holds => holds.copyIn (Nat.not_lt.mp full)⟩

section Flush

variable {q : SlSendQueue} {items : Bytes}

theorem chunk_le (q : SlSendQueue) : q.chunk ≤ q.used ∧ q.chunk ≤ q.cap - q.head := by
  unfold chunk
  split <;> omega

/-- One `send`: what it takes is the front of the queue. -/
theorem advance_holds (h : q.Holds items) {w : Nat} (offered : w ≤ q.chunk) :
    slice q.buf q.head w = items.take w ∧ (q.advance w).Holds (items.drop w) := by
  obtain ⟨held, straight⟩ := q.chunk_le
  have inside := h.inside
  exact ⟨h.slice (by omega) (by omega), h.drop (by omega)⟩

/-- A flush splits the queue into what it wrote and what it left. -/
theorem flushLoop_holds (h : q.Holds items) (total : Int) (outcomes : List SendOutcome) :
    (flushLoop q total outcomes).q.cap = q.cap ∧
    ∃ left, (flushLoop q total outcomes).written ++ left = items ∧
      (flushLoop q total outcomes).q.Holds left := by
  induction outcomes generalizing q items total with
  | nil => exact ⟨rfl, items, rfl, h⟩
  | cons outcome later ih =>
    unfold flushLoop
    split_ifs with some
    · cases outcome with
      | wrote n =>
        dsimp only
        split_ifs with progress
        · obtain ⟨front, rest⟩ := advance_holds h (Nat.min_le_right n q.chunk)
          obtain ⟨cap, left, split, holds⟩ := ih rest (Int.bmod (total + min n q.chunk) (2 ^ 32))
          refine ⟨cap, left, ?_, holds⟩
          rw [Flushed.after, List.append_assoc, split, front, List.take_append_drop]
        · exact ⟨rfl, items, rfl, h⟩
      | again => exact ⟨rfl, items, rfl, h⟩
      | interrupted => exact ih h total
      | failed => exact ⟨rfl, items, rfl, h⟩
    · exact ⟨rfl, items, rfl, h⟩

end Flush

end SlSendQueue

end SecureLink.Source.Buffers
