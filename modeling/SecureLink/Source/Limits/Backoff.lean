import SecureLink.Source.Random.Rng

/-!
# Reconnect backoff

src/sl_backoff.c:7-43, with the outcomes of the random generator as an argument. The delays are
32-bit numbers, the range they are drawn from is computed in 64 bits; but `base_ms + 1` is a
32-bit sum.
-/
namespace SecureLink.Source.Limits
open Library.BigEndian Source.Random

structure SlBackoff where
  baseMs : UInt32
  capMs : UInt32
  lastMs : UInt32
  attempt : UInt32
  deriving DecidableEq, Repr

def slBackoffInit (baseMs capMs : UInt32) : Option SlBackoff :=
  if baseMs = 0 ∨ capMs < baseMs then none
  else some { baseMs, capMs, lastMs := baseMs, attempt := 0 }

def slBackoffReset (b : SlBackoff) : SlBackoff := { b with lastMs := b.baseMs, attempt := 0 }

/-- The number of delays to draw from, starting with `base_ms`. -/
def slBackoffSpan (b : SlBackoff) : UInt64 :=
  let upper := b.lastMs.toUInt64 * 3
  let upper := if upper > b.capMs.toUInt64 then b.capMs.toUInt64 else upper
  let upper := if upper ≤ b.baseMs.toUInt64 then (b.baseMs + 1).toUInt64 else upper
  upper - b.baseMs.toUInt64

/-- The state and the delay returned for a draw. -/
def slBackoffDelay (b : SlBackoff) (r : UInt64) : SlBackoff × UInt32 :=
  let delay := b.baseMs + r.toUInt32
  ({ b with lastMs := delay, attempt := b.attempt + 1 }, delay)

/-- `none` while the generator is still drawing. -/
def slBackoffNext (b : SlBackoff) (draws : List (Option (FixedBytes 8))) : Option (SlBackoff × UInt32) :=
  match slRngUniform (slBackoffSpan b) draws with
  | .drawing => none
  | .failed => some (slBackoffDelay b 0)
  | .value r => some (slBackoffDelay b r)

/-! ## The range of a delay -/

/-- Below the largest 32-bit base, the range starts at the base, is not empty, and ends at the
cap and at three times the last delay, unless it is the base alone. -/
theorem slBackoffSpan_range {b : SlBackoff} (small : b.baseMs.toNat < 2 ^ 32 - 1) :
    0 < (slBackoffSpan b).toNat ∧
    ((slBackoffSpan b).toNat = 1 ∨
      b.baseMs.toNat + (slBackoffSpan b).toNat ≤ b.capMs.toNat ∧
      b.baseMs.toNat + (slBackoffSpan b).toNat ≤ 3 * b.lastMs.toNat) := by
  have cap := b.capMs.toNat_lt
  have last := b.lastMs.toNat_lt
  have tripled : (b.lastMs.toUInt64 * 3).toNat = 3 * b.lastMs.toNat := by
    rw [UInt64.toNat_mul, UInt32.toNat_toUInt64, Nat.mul_comm]
    exact Nat.mod_eq_of_lt (by simp; omega)
  have next : (b.baseMs + 1).toUInt64.toNat = b.baseMs.toNat + 1 := by
    rw [UInt32.toNat_toUInt64, UInt32.toNat_add]
    exact Nat.mod_eq_of_lt (by simp; omega)
  obtain ⟨upper, value⟩ : ∃ upper, upper = (if b.lastMs.toUInt64 * 3 > b.capMs.toUInt64 then
    b.capMs.toUInt64 else b.lastMs.toUInt64 * 3) := ⟨_, rfl⟩
  have bounds : upper.toNat ≤ b.capMs.toNat ∧ upper.toNat ≤ 3 * b.lastMs.toNat := by
    rw [value]
    split_ifs with above
    · rw [gt_iff_lt, UInt64.lt_iff_toNat_lt, tripled, UInt32.toNat_toUInt64] at above
      rw [UInt32.toNat_toUInt64]
      omega
    · rw [gt_iff_lt, UInt64.lt_iff_toNat_lt, tripled, UInt32.toNat_toUInt64] at above
      rw [tripled]
      omega
  simp only [slBackoffSpan, ← value]
  split_ifs with low
  · have span : ((b.baseMs + 1).toUInt64 - b.baseMs.toUInt64).toNat = 1 := by
      rw [UInt64.toNat_sub_of_le _ _ (by rw [UInt64.le_iff_toNat_le, next, UInt32.toNat_toUInt64]; omega),
        next, UInt32.toNat_toUInt64]
      omega
    rw [span]
    exact ⟨Nat.one_pos, Or.inl rfl⟩
  · have above : b.baseMs.toUInt64 ≤ upper := UInt64.le_of_lt (UInt64.not_le.mp low)
    rw [UInt64.le_iff_toNat_le, UInt32.toNat_toUInt64] at low
    rw [UInt64.toNat_sub_of_le _ _ above, UInt32.toNat_toUInt64]
    omega

/-- A delay from the range is formed without a carry. -/
theorem slBackoffDelay_toNat {b : SlBackoff} {r : UInt64} (fits : b.baseMs.toNat + r.toNat < 2 ^ 32) :
    (slBackoffDelay b r).2.toNat = b.baseMs.toNat + r.toNat := by
  have low : r.toUInt32.toNat = r.toNat := by
    rw [UInt64.toNat_toUInt32]
    exact Nat.mod_eq_of_lt (by omega)
  rw [slBackoffDelay, UInt32.toNat_add, low]
  exact Nat.mod_eq_of_lt fits

/-- Every call that returns uses a number below the span, or zero. -/
theorem slBackoffNext_some {b b' : SlBackoff} {draws : List (Option (FixedBytes 8))} {delay : UInt32}
    (returned : slBackoffNext b draws = some (b', delay)) :
    ∃ r, (r = 0 ∨ r < slBackoffSpan b) ∧ (b', delay) = slBackoffDelay b r := by
  unfold slBackoffNext at returned
  cases drawn : slRngUniform (slBackoffSpan b) draws with
  | drawing =>
    rw [drawn] at returned
    cases returned
  | failed =>
    simp only [drawn, Option.some.injEq] at returned
    exact ⟨0, Or.inl rfl, returned.symm⟩
  | value r =>
    simp only [drawn, Option.some.injEq] at returned
    exact ⟨r, Or.inr (slRngUniform_lt drawn), returned.symm⟩

/-- From a base below the largest 32-bit number, with the last delay anywhere: the next delay is
the base, or above it, below three times the last one and below the cap. -/
theorem slBackoffNext_range {b b' : SlBackoff} {draws : List (Option (FixedBytes 8))} {delay : UInt32}
    (small : b.baseMs.toNat < 2 ^ 32 - 1) (returned : slBackoffNext b draws = some (b', delay)) :
    b' = { b with lastMs := delay, attempt := b.attempt + 1 } ∧
    b.baseMs.toNat ≤ delay.toNat ∧
    (delay = b.baseMs ∨ delay.toNat < b.capMs.toNat ∧ delay.toNat < 3 * b.lastMs.toNat) := by
  obtain ⟨r, below, same⟩ := slBackoffNext_some returned
  obtain ⟨positive, range⟩ := slBackoffSpan_range small
  have below : r.toNat < (slBackoffSpan b).toNat := by
    rcases below with rfl | below
    · exact positive
    · exact UInt64.lt_iff_toNat_lt.mp below
  have cap := b.capMs.toNat_lt
  have fits : b.baseMs.toNat + r.toNat < 2 ^ 32 := by omega
  have value := slBackoffDelay_toNat fits
  have answer : delay = (slBackoffDelay b r).2 := congrArg Prod.snd same
  rw [← answer] at value
  refine ⟨?_, by omega, ?_⟩
  · rw [answer]
    exact congrArg Prod.fst same
  · by_cases first : r.toNat = 0
    · exact Or.inl (UInt32.toNat_inj.mp (by omega))
    · exact Or.inr (by omega)

end SecureLink.Source.Limits
