import SecureLink.Library.Runs
import SecureLink.Source.Buffers.Ring

/-!
# The byte ring is a bounded queue

Write index, read index and count of src/sl_ring.c are redundant, and every copy may split
at the end of the array. Each operation does what it would do to a queue of at most `cap`
bytes and returns the same; so do whole runs.
-/
namespace SecureLink.Guarantees.RingFifo
open Library.BigEndian Library.Circular Library.Runs Source.Buffers SlRing

inductive Call where
  | push (data : Bytes)
  | pop (len : Nat)
  | peek (len : Nat)
  | discard (n : Nat)
  | reset
  deriving DecidableEq, Repr

/-- The count a call returns and the bytes it writes to the caller's buffer. -/
structure Answer where
  count : Nat := 0
  bytes : Bytes := []
  deriving DecidableEq, Repr

def step (r : SlRing) : Call → SlRing × Answer
  | .push data => ((slRingPush r data).1, { count := (slRingPush r data).2 })
  | .pop len =>
    ((slRingPop r len).1, { count := (slRingPop r len).2.1, bytes := (slRingPop r len).2.2 })
  | .peek len => (r, { count := (slRingPeek r len).1, bytes := (slRingPeek r len).2 })
  | .discard n => ((slRingDiscard r n).1, { count := (slRingDiscard r n).2 })
  | .reset => (slRingReset r, {})

/-- What the calls do to a bounded queue. -/
def fifoStep {cap : Nat} (q : Fifo UInt8 cap) : Call → Fifo UInt8 cap × Answer
  | .push data => (q.append data, { count := min data.length (cap - q.1.length) })
  | .pop len => (q.drop len, { count := min len q.1.length, bytes := q.1.take len })
  | .peek len => (q, { count := min len q.1.length, bytes := q.1.take len })
  | .discard n => (q.drop n, { count := min n q.1.length })
  | .reset => (Fifo.empty, {})

/-- The accessors speak of the length of the queue. -/
structure Agrees {cap : Nat} (r : SlRing) (q : Fifo UInt8 cap) : Prop where
  used : slRingUsed r = q.1.length
  free : slRingFreeSpace r = cap - q.1.length
  empty : slRingEmpty r = true ↔ q.1.length = 0
  full : slRingFull r = true ↔ q.1.length = cap

/-- The ring has this capacity and holds this queue. -/
def Refines {cap : Nat} (r : SlRing) (q : Fifo UInt8 cap) : Prop := r.cap = cap ∧ r.Holds q.1

theorem step_refines {cap : Nat} {r : SlRing} {q : Fifo UInt8 cap} (call : Call) (h : Refines r q) :
    Refines (step r call).1 (fifoStep q call).1 ∧ (step r call).2 = (fifoStep q call).2 := by
  obtain ⟨rfl, holds⟩ := h
  cases call with
  | push data =>
    obtain ⟨count, size, pushed⟩ := push_holds holds data
    exact ⟨⟨size, pushed⟩, congrArg (Answer.mk · []) count⟩
  | pop len =>
    obtain ⟨-, size, dropped⟩ := discard_holds holds len
    simp only [step, fifoStep, pop_eq holds, peek_holds holds]
    exact ⟨⟨size, dropped⟩, trivial⟩
  | peek len =>
    simp only [step, fifoStep, peek_holds holds]
    exact ⟨⟨rfl, holds⟩, trivial⟩
  | discard n =>
    obtain ⟨count, size, dropped⟩ := discard_holds holds n
    exact ⟨⟨size, dropped⟩, congrArg (Answer.mk · []) count⟩
  | reset => exact ⟨⟨rfl, reset_holds holds⟩, rfl⟩

theorem Refines.agrees {cap : Nat} {r : SlRing} {q : Fifo UInt8 cap} (h : Refines r q) : Agrees r q := by
  obtain ⟨rfl, holds⟩ := h
  have length := holds.length
  constructor
  · exact length.symm
  · rw [slRingFreeSpace, length]
  · rw [slRingEmpty, beq_iff_eq, length]
  · rw [slRingFull, beq_iff_eq, length]

/-- Every run of calls on a ring is one on a bounded queue: same answers, and afterwards the
accessors give its length. -/
theorem ring_refines_fifo {cap : Nat} (positive : 0 < cap) (block : FixedBytes cap)
    (calls : List Call) :
    ∃ r, slRingInit cap (some block) = some r ∧
      outputs step r calls = outputs fifoStep (Fifo.empty : Fifo UInt8 cap) calls ∧
      Agrees (run step r calls) (run fifoStep (Fifo.empty : Fifo UInt8 cap) calls) := by
  have ready : slRingInit cap (some block) = some { buf := block.1, cap } :=
    if_neg (Nat.ne_of_gt positive)
  have start : Refines { buf := block.1, cap } (Fifo.empty : Fifo UInt8 cap) := init_holds ready
  have steps : AllSteps step (fun _ _ => True) { buf := block.1, cap } calls :=
    AllSteps.of_forall (fun _ _ => trivial) _
  obtain ⟨refines, answers⟩ := run_simulates Refines
    (fun _ _ call related _ => step_refines call related) start steps
  exact ⟨_, ready, answers, refines.agrees⟩

/-- A push that passes the end of the array is cut to the room there is and read back in
two pieces. -/
theorem ring_wraps_around :
    ∃ r, slRingInit 4 (some ⟨[0, 0, 0, 0], rfl⟩) = some r ∧
      outputs step r [.push [1, 2, 3], .discard 2, .push [4, 5, 6, 7], .pop 9] =
        [{ count := 3 }, { count := 2 }, { count := 3 }, { count := 4, bytes := [3, 4, 5, 6] }] := by
  obtain ⟨r, ready, answers, -⟩ := ring_refines_fifo (by decide) ⟨[0, 0, 0, 0], rfl⟩
    [.push [1, 2, 3], .discard 2, .push [4, 5, 6, 7], .pop 9]
  exact ⟨r, ready, answers.trans (by decide)⟩

end SecureLink.Guarantees.RingFifo
