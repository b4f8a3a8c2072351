import SecureLink.Library.Runs
import SecureLink.Source.Limits.Backoff

/-!
# Reconnect delays

Each delay is drawn from a range that starts at `base_ms` and ends at `cap_ms` or at three times
the previous delay; where that range is empty, src/sl_backoff.c:32 makes it `base_ms` alone. The
sum in that line is formed in 32 bits. For the largest base it is zero, the range then has
almost 2^64 numbers, and the delay is whatever the low 32 bits of the draw say.
-/
namespace SecureLink.Guarantees.ReconnectDelays
open Library.BigEndian Library.Runs Source.Limits

/-- The calls, with what the random generator does during them. -/
inductive Call where
  | next (draws : List (Option (FixedBytes 8)))
  | reset
  deriving DecidableEq

/-- A delay that was returned, a reset, or a call that has not returned yet. -/
inductive Event where
  | delay (ms : UInt32)
  | reset
  | drawing
  deriving DecidableEq, Repr

def step (b : SlBackoff) : Call → SlBackoff × Event
  | .next draws =>
    match slBackoffNext b draws with
    | none => (b, .drawing)
    | some (b, ms) => (b, .delay ms)
  | .reset => (slBackoffReset b, .reset)

/-- Every delay is between base and cap, and below three times the previous one or the base
itself. The previous one is the base at the start and after a reset. -/
def InRange (base cap : UInt32) : Nat → List Event → Prop
  | _, [] => True
  | previous, .delay ms :: later =>
    (base.toNat ≤ ms.toNat ∧ ms.toNat ≤ cap.toNat ∧ (ms.toNat < 3 * previous ∨ ms = base)) ∧
      InRange base cap ms.toNat later
  | _, .reset :: later => InRange base cap base.toNat later
  | previous, .drawing :: later => InRange base cap previous later

theorem init_some {base cap : UInt32} {b : SlBackoff} (accepted : slBackoffInit base cap = some b) :
    base ≤ cap ∧ b = { baseMs := base, capMs := cap, lastMs := base, attempt := 0 } := by
  unfold slBackoffInit at accepted
  split_ifs at accepted with bad
  exact ⟨UInt32.not_lt.mp (not_or.mp bad).2, (Option.some.inj accepted).symm⟩

/-- The last delay is the only thing a run hands on. -/
theorem run_in_range {base cap : UInt32} (small : base.toNat < 2 ^ 32 - 1) (ordered : base ≤ cap)
    (calls : List Call) {b : SlBackoff} (baseMs : b.baseMs = base) (capMs : b.capMs = cap) :
    InRange base cap b.lastMs.toNat (outputs step b calls) := by
  induction calls generalizing b with
  | nil => trivial
  | cons call rest ih =>
    subst baseMs capMs
    cases call with
    | reset =>
      change InRange b.baseMs b.capMs b.baseMs.toNat (outputs step (slBackoffReset b) rest)
      exact ih (b := slBackoffReset b) rfl rfl
    | next draws =>
      cases returned : slBackoffNext b draws with
      | none =>
        have waits : step b (.next draws) = (b, .drawing) := by simp only [step, returned]
        rw [outputs, waits]
        exact ih rfl rfl
      | some result =>
        obtain ⟨b', ms⟩ := result
        have answers : step b (.next draws) = (b', .delay ms) := by simp only [step, returned]
        obtain ⟨rfl, low, high⟩ := slBackoffNext_range small returned
        have later := ih (b := { b with lastMs := ms, attempt := b.attempt + 1 }) rfl rfl
        rw [outputs, answers]
        refine ⟨⟨low, ?_, high.symm.imp_left And.right⟩, later⟩
        rcases high with rfl | ⟨high, -⟩
        · exact UInt32.le_iff_toNat_le.mp ordered
        · exact Nat.le_of_lt high

/-- The generator draws the number one. -/
def drawOne : List (Option (FixedBytes 8)) := [some ⟨[0, 0, 0, 0, 0, 0, 0, 1], rfl⟩]

/-- With the largest base, a draw of one gives no delay at all. -/
theorem largest_base_next :
    outputs step { baseMs := 0xFFFFFFFF, capMs := 0xFFFFFFFF, lastMs := 0xFFFFFFFF, attempt := 0 }
      [.next drawOne] = [.delay 0] := by
  decide

theorem zero_out_of_range {base cap : UInt32} (positive : 0 < base.toNat) (previous : Nat) :
    ¬ InRange base cap previous [.delay 0] := by
  rintro ⟨⟨low, -⟩, -⟩
  exact Nat.not_le.mpr positive low

/-- The delays of every run are in range exactly for the bases below the largest 32-bit number. -/
theorem delays_in_range_iff {base cap : UInt32} {b : SlBackoff}
    (accepted : slBackoffInit base cap = some b) :
    (∀ calls, InRange base cap base.toNat (outputs step b calls)) ↔ base ≠ 0xFFFFFFFF := by
  obtain ⟨ordered, rfl⟩ := init_some accepted
  constructor
  · rintro all rfl
    have largest : cap = 0xFFFFFFFF := by
      have low := UInt32.le_iff_toNat_le.mp ordered
      have high := cap.toNat_lt
      apply UInt32.toNat_inj.mp
      simp only [UInt32.reduceToNat] at low ⊢
      omega
    subst largest
    have first := all [.next drawOne]
    rw [largest_base_next] at first
    exact zero_out_of_range (by decide) _ first
  · intro notLargest calls
    have small : base.toNat < 2 ^ 32 - 1 := by
      have high := base.toNat_lt
      have differs : base.toNat ≠ 2 ^ 32 - 1 := fun same => notLargest (UInt32.toNat_inj.mp same)
      omega
    exact run_in_range small ordered calls
      (b := { baseMs := base, capMs := cap, lastMs := base, attempt := 0 }) rfl rfl

/-- An ordinary base and cap, with a failure of the generator and a reset. -/
theorem ordinary_delays_in_range :
    InRange 100 5000 100
      (outputs step { baseMs := 100, capMs := 5000, lastMs := 100, attempt := 0 }
        [.next drawOne, .next [none], .reset, .next drawOne]) :=
  (delays_in_range_iff (show slBackoffInit 100 5000 = some
    { baseMs := 100, capMs := 5000, lastMs := 100, attempt := 0 } by decide)).mpr (by decide) _

/-- The largest base is accepted, and the first delay can be zero. -/
theorem largest_base_out_of_range :
    slBackoffInit 0xFFFFFFFF 0xFFFFFFFF =
      some { baseMs := 0xFFFFFFFF, capMs := 0xFFFFFFFF, lastMs := 0xFFFFFFFF, attempt := 0 } ∧
    ¬ InRange 0xFFFFFFFF 0xFFFFFFFF 0xFFFFFFFF
      (outputs step { baseMs := 0xFFFFFFFF, capMs := 0xFFFFFFFF, lastMs := 0xFFFFFFFF, attempt := 0 }
        [.next drawOne]) := by
  refine ⟨by decide, ?_⟩
  rw [largest_base_next]
  exact zero_out_of_range (by decide) _

end SecureLink.Guarantees.ReconnectDelays
