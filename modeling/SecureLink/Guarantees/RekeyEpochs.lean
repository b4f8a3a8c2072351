import SecureLink.Library.Runs
import SecureLink.Source.Handshake.Derived

/-!
# Peer epochs

A call is accepted if it carries the successor of the peer's epoch, and the successor is taken
modulo 2^32. What a run accepts is therefore a piece of one cyclic sequence, and how long a piece
is decided by the calls alone.
-/
namespace SecureLink.Guarantees.RekeyEpochs
open Library.Runs Source.Handshake

/-- One call; the answer is whether the epoch was accepted. -/
def peerEpochCall (e : SlRekeyEpochs) (incoming : UInt32) : SlRekeyEpochs × Bool :=
  ((slRekeyCheckPeerEpoch e incoming).1, (slRekeyCheckPeerEpoch e incoming).2 == 0)

theorem peerEpochCall_next (e : SlRekeyEpochs) :
    peerEpochCall e (e.peerEpoch + 1) = ({ e with peerEpoch := e.peerEpoch + 1 }, true) := by
  rw [peerEpochCall, slRekeyCheckPeerEpoch_next, beq_self_eq_true]

theorem peerEpochCall_other {e : SlRekeyEpochs} {incoming : UInt32}
    (other : incoming ≠ e.peerEpoch + 1) : peerEpochCall e incoming = (e, false) := by
  rw [peerEpochCall, slRekeyCheckPeerEpoch_other other]
  simp

/-- The next `k` epochs from `first` on, as 32-bit words. -/
def successors : UInt32 → Nat → List UInt32
  | _, 0 => []
  | first, k + 1 => first :: successors (first + 1) k

/-- The accepted epochs are successors of the peer's epoch, and as many of them as the calls have
in this order. -/
theorem accepted_successors (e : SlRekeyEpochs) (calls : List UInt32) :
    ∃ k, accepted peerEpochCall e calls = successors (e.peerEpoch + 1) k ∧
      ∀ m, (successors (e.peerEpoch + 1) m).Sublist calls ↔ m ≤ k := by
  induction calls generalizing e with
  | nil =>
    refine ⟨0, rfl, ?_⟩
    intro m
    cases m with
    | zero => simp [successors]
    | succ m => simp [successors]
  | cons incoming rest ih =>
    by_cases next : incoming = e.peerEpoch + 1
    · subst next
      obtain ⟨k, acc, many⟩ := ih { e with peerEpoch := e.peerEpoch + 1 }
      refine ⟨k + 1, ?_, ?_⟩
      · rw [accepted, peerEpochCall_next, if_pos rfl, acc, successors]
      · intro m
        cases m with
        | zero => simp [successors]
        | succ m =>
          rw [successors, List.cons_sublist_cons, many m]
          omega
    · obtain ⟨k, acc, many⟩ := ih e
      refine ⟨k, ?_, ?_⟩
      · rw [accepted, peerEpochCall_other next, if_neg Bool.false_ne_true, acc]
      · intro m
        rw [← many m]
        cases m with
        | zero => simp [successors]
        | succ m =>
          constructor
          · intro found
            cases found with
            | cons _ later => exact later
            | cons_cons _ _ => exact absurd rfl next
          · intro found
            exact found.cons incoming

/-- Each is the one before plus one, as natural numbers. -/
def Consecutive (epochs : List UInt32) : Prop :=
  epochs.IsChain fun a b => b.toNat = a.toNat + 1

/-- Strictly increasing as natural numbers. -/
def Increasing (epochs : List UInt32) : Prop := epochs.Pairwise fun a b => a.toNat < b.toNat

theorem Consecutive.increasing {epochs : List UInt32} (h : Consecutive epochs) : Increasing epochs := by
  have lt : epochs.IsChain fun a b => a.toNat < b.toNat := h.imp fun a b step => by omega
  have trans : IsTrans UInt32 fun a b => a.toNat < b.toNat := ⟨fun _ _ _ => Nat.lt_trans⟩
  exact List.isChain_iff_pairwise.mp lt

/-- The sequence wraps after 2^32 - 1. -/
theorem consecutive_successors (first : UInt32) (k : Nat) :
    Consecutive (successors first k) ↔ first.toNat + k ≤ 2 ^ 32 := by
  induction k generalizing first with
  | zero => simp [successors, Consecutive, first.toNat_lt.le]
  | succ k ih =>
    have below := first.toNat_lt
    have sum : (first + 1).toNat = (first.toNat + 1) % 2 ^ 32 := UInt32.toNat_add first 1
    cases k with
    | zero => simp [successors, Consecutive]; omega
    | succ k =>
      have step : Consecutive (successors first (k + 2)) ↔
          (first + 1).toNat = first.toNat + 1 ∧ Consecutive (successors (first + 1) (k + 1)) :=
        List.isChain_cons_cons
      rw [step, ih (first + 1), sum]
      omega

/-- From the peer's epoch on the accepted ones increase, one at a time, and a refused call changes
nothing. -/
structure InOrder (e : SlRekeyEpochs) (calls : List UInt32) : Prop where
  increasing : Increasing (e.peerEpoch :: accepted peerEpochCall e calls)
  consecutive : Consecutive (e.peerEpoch :: accepted peerEpochCall e calls)
  refused : AllSteps peerEpochCall
    (fun e incoming => (peerEpochCall e incoming).2 = false → (peerEpochCall e incoming).1 = e) e calls

theorem refused_unchanged (e : SlRekeyEpochs) (incoming : UInt32)
    (refused : (peerEpochCall e incoming).2 = false) : (peerEpochCall e incoming).1 = e := by
  by_cases next : incoming = e.peerEpoch + 1
  · subst next
    rw [peerEpochCall_next] at refused
    cases refused
  · rw [peerEpochCall_other next]

/-- Peer epochs are accepted in order exactly if the calls do not have, one after the other, every
epoch that follows the peer's up to the largest and then zero. -/
theorem epochs_in_order_iff (e : SlRekeyEpochs) (calls : List UInt32) :
    InOrder e calls ↔
      ¬ (successors (e.peerEpoch + 1) (2 ^ 32 - e.peerEpoch.toNat)).Sublist calls := by
  obtain ⟨k, acc, many⟩ := accepted_successors e calls
  have below := e.peerEpoch.toNat_lt
  have wraps : Consecutive (e.peerEpoch :: accepted peerEpochCall e calls) ↔
      ¬ (successors (e.peerEpoch + 1) (2 ^ 32 - e.peerEpoch.toNat)).Sublist calls := by
    rw [acc, ← successors, consecutive_successors, many]
    omega
  constructor
  · intro order
    exact wraps.mp order.consecutive
  · intro inside
    have consecutive := wraps.mpr inside
    exact {
      increasing := consecutive.increasing
      consecutive := consecutive
      refused := allSteps_of_invariant (fun _ => True) (fun _ _ _ => trivial)
        (fun e incoming _ => refused_unchanged e incoming) calls trivial }

/-- Zero is accepted after the largest epoch. -/
theorem zero_after_largest :
    accepted peerEpochCall { peerEpoch := 0xFFFFFFFE } [0xFFFFFFFF, 0] = [0xFFFFFFFF, 0] ∧
    ¬ Increasing (accepted peerEpochCall { peerEpoch := 0xFFFFFFFE } [0xFFFFFFFF, 0]) := by
  have both : accepted peerEpochCall { peerEpoch := 0xFFFFFFFE } [0xFFFFFFFF, 0] = [0xFFFFFFFF, 0] := by
    decide
  refine ⟨both, ?_⟩
  rw [both, Increasing]
  decide

end SecureLink.Guarantees.RekeyEpochs
