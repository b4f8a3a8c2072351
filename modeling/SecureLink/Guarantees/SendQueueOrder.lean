import SecureLink.Library.Runs
import SecureLink.Source.Buffers.SendQueue

/-!
# The send queue keeps bytes and order

A flush moves the head of src/sl_send_queue.c by whatever each `send` took and stops at an
error, in the middle of anything that was enqueued. Over every run the bytes written and
the bytes still queued are together the bytes that were accepted, in order.
-/
namespace SecureLink.Guarantees.SendQueueOrder
open Library.BigEndian Library.Runs Source.Buffers SlSendQueue

inductive Call where
  | enqueue (data : Bytes)
  | flush (outcomes : List SendOutcome)
  deriving DecidableEq, Repr

/-- The value a call returned, if it has returned, and the bytes that `send` wrote. -/
structure Answer where
  rc : Option Int
  written : Bytes := []
  deriving DecidableEq, Repr

def step (q : SlSendQueue) : Call → SlSendQueue × Answer
  | .enqueue data => ((slSendQueueEnqueue q data).1, { rc := some (slSendQueueEnqueue q data).2 })
  | .flush outcomes =>
    ((slSendQueueFlush q outcomes).q,
      { rc := (slSendQueueFlush q outcomes).rc, written := (slSendQueueFlush q outcomes).written })

/-- What a call added to the queue, by the value it returned. -/
def added : Call → Answer → Bytes
  | .enqueue data, answer => if answer.rc = some 0 then data else []
  | .flush _, _ => []

/-- All bytes written by `send` in a run. -/
def written (q : SlSendQueue) (calls : List Call) : Bytes :=
  (outputs step q calls).flatMap Answer.written

/-- All accepted enqueues of a run. -/
def accepted (q : SlSendQueue) (calls : List Call) : Bytes :=
  (List.zipWith added calls (outputs step q calls)).flatten

theorem written_cons (q : SlSendQueue) (call : Call) (rest : List Call) :
    written q (call :: rest) = (step q call).2.written ++ written (step q call).1 rest := rfl

theorem accepted_cons (q : SlSendQueue) (call : Call) (rest : List Call) :
    accepted q (call :: rest) = added call (step q call).2 ++ accepted (step q call).1 rest := rfl

/-- One call: what was queued and added is what was written and is left. -/
theorem step_holds {q : SlSendQueue} {items : Bytes} (call : Call) (h : q.Holds items) :
    (step q call).1.cap = q.cap ∧
    ∃ left, (step q call).2.written ++ left = items ++ added call (step q call).2 ∧
      (step q call).1.Holds left := by
  cases call with
  | enqueue data =>
    rcases q.enqueue_cases data with refused | ⟨rc, cap, holds⟩
    · simp only [step, refused, added]
      exact ⟨trivial, items, (List.append_nil items).symm, h⟩
    · simp only [step, rc, added, if_true]
      exact ⟨cap, items ++ data, rfl, holds items h⟩
  | flush outcomes =>
    obtain ⟨cap, left, split, holds⟩ := flushLoop_holds h 0 outcomes
    refine ⟨cap, left, ?_, holds⟩
    simp only [added, List.append_nil]
    exact split

theorem run_holds {q : SlSendQueue} {items : Bytes} (calls : List Call) (h : q.Holds items) :
    (run step q calls).cap = q.cap ∧
    ∃ left, written q calls ++ left = items ++ accepted q calls ∧ (run step q calls).Holds left := by
  induction calls generalizing q items with
  | nil => exact ⟨rfl, items, (List.append_nil items).symm, h⟩
  | cons call rest ih =>
    obtain ⟨cap, left, here, holds⟩ := step_holds call h
    obtain ⟨cap', last, later, holds'⟩ := ih holds
    refine ⟨cap'.trans cap, last, ?_, holds'⟩
    rw [written_cons, accepted_cons, List.append_assoc, later, ← List.append_assoc, here,
      List.append_assoc]

/-- No byte is lost, duplicated or reordered, whatever `send` does. -/
theorem send_queue_exact {maxBytes : Nat} (positive : 0 < maxBytes) (block : FixedBytes maxBytes)
    (calls : List Call) :
    ∃ q, slSendQueueNew maxBytes true (some block) = some q ∧
      written q calls ++ (run step q calls).queued = accepted q calls ∧
      slSendQueuePending (run step q calls) = (run step q calls).queued.length ∧
      slSendQueuePending (run step q calls) ≤ maxBytes ∧
      ∀ data, (slSendQueueEnqueue (run step q calls) data).2 ≠ 0 →
        (slSendQueueEnqueue (run step q calls) data).1 = run step q calls := by
  have created : slSendQueueNew maxBytes true (some block) =
      some { buf := block.1, cap := maxBytes } := if_neg (Nat.ne_of_gt positive)
  obtain ⟨cap, left, whole, holds⟩ := run_holds calls (new_holds created).2
  have here : left = (run step { buf := block.1, cap := maxBytes } calls).queued := holds.items_eq
  refine ⟨_, created, here ▸ whole, here ▸ holds.length.symm,
    Nat.le_trans holds.fits (Nat.le_of_eq cap), fun data refused => ?_⟩
  rcases enqueue_cases _ data with rejected | ⟨rc, -, -⟩
  · rw [rejected]
  · exact absurd rc refused

/-- A part of the first enqueue goes out, the second one passes the end of the array, the third
one is refused, and an interrupted flush sends in two pieces until it fails. -/
theorem sent_around_the_end :
    ∃ q, slSendQueueNew 4 true (some ⟨[0, 0, 0, 0], rfl⟩) = some q ∧
      written q [.enqueue [1, 2, 3], .flush [.wrote 2, .again], .enqueue [4, 5, 6], .enqueue [7],
          .flush [.interrupted, .wrote 9, .wrote 1, .failed]] ++
        (run step q [.enqueue [1, 2, 3], .flush [.wrote 2, .again], .enqueue [4, 5, 6], .enqueue [7],
          .flush [.interrupted, .wrote 9, .wrote 1, .failed]]).queued = [1, 2, 3, 4, 5, 6] := by
  obtain ⟨q, created, whole, -⟩ := send_queue_exact (by decide) ⟨[0, 0, 0, 0], rfl⟩
    [.enqueue [1, 2, 3], .flush [.wrote 2, .again], .enqueue [4, 5, 6], .enqueue [7],
      .flush [.interrupted, .wrote 9, .wrote 1, .failed]]
  cases created
  exact ⟨_, rfl, whole.trans (by decide)⟩

end SecureLink.Guarantees.SendQueueOrder
