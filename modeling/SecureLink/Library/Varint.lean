import Mathlib.Algebra.BigOperators.Ring.Finset

/-!
# Base-128 numbers

Seven bits an octet, lowest first; the high bit of an octet says that more follow. The
relation below is what any writer of such numbers has to produce and what any reader can
rely on; it does not ask for the shortest form.
-/
namespace SecureLink.Library.Varint

/-- The octets are a complete base-128 number with this value. -/
inductive Spells : List UInt8 → Nat → Prop
  | last {b : UInt8} : b.toNat < 128 → Spells [b] b.toNat
  | more {b : UInt8} {rest : List UInt8} {v : Nat} :
      128 ≤ b.toNat → Spells rest v → Spells (b :: rest) (b.toNat % 128 + 128 * v)

theorem Spells.length_pos {bytes : List UInt8} {v : Nat} (h : Spells bytes v) :
    0 < bytes.length := by
  cases h <;> simp

/-- The last octet is its own digit. -/
theorem Spells.last_lt {bytes : List UInt8} {v : Nat} (h : Spells bytes v) :
    (bytes.getD (bytes.length - 1) 0).toNat < 128 := by
  induction h with
  | last small => exact small
  | @more b rest v _ later ih =>
    obtain ⟨n, length⟩ : ∃ n, rest.length = n + 1 := ⟨rest.length - 1, by have := later.length_pos; omega⟩
    rw [length] at ih
    rw [List.length_cons, length]
    exact ih

/-- The value, digit by digit. -/
theorem Spells.value {bytes : List UInt8} {v : Nat} (h : Spells bytes v) :
    v = ∑ i ∈ Finset.range bytes.length, (bytes.getD i 0).toNat % 128 * 128 ^ i := by
  induction h with
  | @last b small =>
    rw [List.length_singleton, Finset.sum_range_one, Nat.pow_zero, Nat.mul_one, List.getD_cons_zero,
      Nat.mod_eq_of_lt small]
  | @more b rest v _ _ ih =>
    have shifted : ∀ i, (rest.getD i 0).toNat % 128 * 128 ^ (i + 1) =
        128 * ((rest.getD i 0).toNat % 128 * 128 ^ i) := by
      intro i
      rw [Nat.pow_succ, ← Nat.mul_assoc, Nat.mul_comm]
    rw [List.length_cons, Finset.sum_range_succ', List.getD_cons_zero, Nat.pow_zero, Nat.mul_one,
      Nat.add_comm, ih, Finset.mul_sum]
    simp only [List.getD_cons_succ, shifted]

/-- Octets begin with a complete number, or all of them say that more follow. -/
theorem spells_or_continues (input : List UInt8) :
    (∃ bytes rest v, input = bytes ++ rest ∧ Spells bytes v) ∨ ∀ b ∈ input, 128 ≤ b.toNat := by
  induction input with
  | nil => exact Or.inr (by simp)
  | cons b input ih =>
    by_cases high : 128 ≤ b.toNat
    · rcases ih with ⟨bytes, rest, v, rfl, spells⟩ | continues
      · exact Or.inl ⟨b :: bytes, rest, _, rfl, .more high spells⟩
      · exact Or.inr (List.forall_mem_cons.mpr ⟨high, continues⟩)
    · exact Or.inl ⟨[b], input, _, rfl, .last (Nat.lt_of_not_le high)⟩

/-- A number cut short is all continuation octets. -/
theorem Spells.continues {bytes : List UInt8} {v : Nat} (h : Spells bytes v) {n : Nat}
    (cut : n < bytes.length) : ∀ b ∈ bytes.take n, 128 ≤ b.toNat := by
  induction h generalizing n with
  | last small =>
    have zero : n = 0 := by simpa using cut
    simp [zero]
  | more high _ ih =>
    cases n with
    | zero => simp
    | succ n =>
      intro b member
      rcases List.mem_cons.mp member with rfl | later
      · exact high
      · exact ih (by simpa using cut) b later

end SecureLink.Library.Varint
