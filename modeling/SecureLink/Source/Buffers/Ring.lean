import SecureLink.Library.BigEndian
import SecureLink.Library.Circular

/-!
# Byte ring

src/sl_ring.c:6-87. The bytes of a fresh allocation are arbitrary, so the block that `malloc`
returns is an argument. No allocation reaches half of the address space: the sum of an
index and a count, both at most the capacity, is not taken modulo the word size.
Pointers are never `NULL`.
-/
namespace SecureLink.Source.Buffers
open Library.BigEndian Library.Circular

/-- `head` is the write index, `tail` the read index. -/
structure SlRing where
  buf : Bytes
  cap : Nat
  head : Nat := 0
  tail : Nat := 0
  used : Nat := 0
  deriving DecidableEq, Repr

def slRingInit (cap : Nat) (malloc : Option (FixedBytes cap)) : Option SlRing :=
  if cap = 0 then none else malloc.map fun block => { buf := block.1, cap }

def slRingReset (r : SlRing) : SlRing := { r with head := 0, tail := 0, used := 0 }

def slRingUsed (r : SlRing) : Nat := r.used

def slRingFreeSpace (r : SlRing) : Nat := r.cap - r.used

def slRingEmpty (r : SlRing) : Bool := r.used == 0

def slRingFull (r : SlRing) : Bool := r.used == r.cap

def slRingPush (r : SlRing) (data : Bytes) : SlRing × Nat :=
  let space := slRingFreeSpace r
  let n := if data.length < space then data.length else space
  if n = 0 then (r, 0)
  else
    ({ r with
       buf := copyIn r.cap r.buf r.head (data.take n)
       head := (r.head + n) % r.cap
       used := r.used + n }, n)

/-- The value returned and what was written to `out`. -/
def slRingPeek (r : SlRing) (len : Nat) : Nat × Bytes :=
  let n := if len < r.used then len else r.used
  if n = 0 then (0, []) else (n, copyOut r.cap r.buf r.tail n)

def slRingPop (r : SlRing) (len : Nat) : SlRing × Nat × Bytes :=
  let n := if len < r.used then len else r.used
  if n = 0 then (r, 0, [])
  else ({ r with tail := (r.tail + n) % r.cap, used := r.used - n }, n, copyOut r.cap r.buf r.tail n)

def slRingDiscard (r : SlRing) (n : Nat) : SlRing × Nat :=
  let k := if n < r.used then n else r.used
  ({ r with tail := (r.tail + k) % r.cap, used := r.used - k }, k)

namespace SlRing

/-- The ring holds a queue of bytes. -/
abbrev Holds (r : SlRing) (items : Bytes) : Prop :=
  Represents r.cap r.buf r.tail r.head r.used items

theorem init_holds {cap : Nat} {malloc : Option (FixedBytes cap)} {r : SlRing}
    (ready : slRingInit cap malloc = some r) : r.cap = cap ∧ r.Holds [] := by
  unfold slRingInit at ready
  split at ready
  · cases ready
  next positive =>
    obtain ⟨block, -, rfl⟩ := Option.map_eq_some_iff.mp ready
    exact ⟨rfl, Represents.empty block.2 (Nat.pos_of_ne_zero positive)⟩

section Operations

variable {r : SlRing} {items : Bytes}

theorem reset_holds (h : r.Holds items) : (slRingReset r).Holds [] :=
  Represents.empty h.size (Nat.zero_lt_of_lt h.inside)

theorem push_holds (h : r.Holds items) (data : Bytes) :
    (slRingPush r data).2 = min data.length (r.cap - items.length) ∧
    (slRingPush r data).1.cap = r.cap ∧
    (slRingPush r data).1.Holds (items ++ data.take (r.cap - items.length)) := by
  have fits := h.fits
  have taken : data.take (r.cap - items.length) = data.take (min data.length (r.cap - r.used)) := by
    rw [h.length, Nat.min_comm, ← List.take_eq_take_min]
  rw [taken, h.length]
  simp only [slRingPush, ← min_def_lt]
  rw [slRingFreeSpace]
  generalize count : min data.length (r.cap - r.used) = n
  have length : (data.take n).length = n := by
    rw [List.length_take]
    omega
  by_cases zero : n = 0
  · simp only [zero, if_true, List.take_zero, List.append_nil, true_and]
    exact h
  · have pushed := h.copyIn (show r.used + (data.take n).length ≤ r.cap by omega)
    simp only [if_neg zero, true_and]
    rw [length] at pushed
    exact pushed

theorem peek_holds (h : r.Holds items) (len : Nat) :
    slRingPeek r len = (min len items.length, items.take len) := by
  have taken : items.take len = items.take (min len r.used) := by
    rw [← h.length, ← List.take_eq_take_min]
  rw [taken, h.length]
  simp only [slRingPeek, ← min_def_lt]
  by_cases zero : min len r.used = 0
  · rw [if_pos zero, zero, List.take_zero]
  · rw [if_neg zero, h.copyOut (Nat.min_le_right _ _)]

theorem discard_holds (h : r.Holds items) (n : Nat) :
    (slRingDiscard r n).2 = min n items.length ∧ (slRingDiscard r n).1.cap = r.cap ∧
    (slRingDiscard r n).1.Holds (items.drop n) := by
  have left : items.drop n = items.drop (min n r.used) := by
    rw [← h.length, ← List.drop_eq_drop_min]
  rw [left, h.length]
  simp only [slRingDiscard, ← min_def_lt, true_and]
  exact h.drop (Nat.min_le_right _ _)

/-- Popping is peeking and discarding. -/
theorem pop_eq (h : r.Holds items) (len : Nat) :
    slRingPop r len = ((slRingDiscard r len).1, slRingPeek r len) := by
  have inside := h.inside
  unfold slRingPop slRingDiscard slRingPeek
  by_cases zero : (if len < r.used then len else r.used) = 0
  · simp only [zero, if_true, Nat.add_zero, Nat.sub_zero]
    rw [Nat.mod_eq_of_lt inside]
  · simp only [if_neg zero]

end Operations

end SlRing

end SecureLink.Source.Buffers
