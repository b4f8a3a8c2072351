import Mathlib.Data.List.Basic

/-!
# Bitmaps over 64-bit words

A vector of words read as one string of bits, least significant bit of the first word
first, and in-place loops over a vector that run from the last position down to the
first. Such a loop may be read position by position on the old vector when each
position is computed from positions at or below it.
-/
namespace SecureLink.Library.WordBitmap

section Sweep

variable {α : Type*} {n : Nat}

/-- `for (i = k - 1; i >= 0; --i) v[i] = body(i, v)`. -/
def sweepDown (body : (i : Nat) → i < n → Vector α n → α) :
    (k : Nat) → k ≤ n → Vector α n → Vector α n
  | 0, _, v => v
  | k + 1, h, v => sweepDown body k (Nat.le_of_succ_le h) (v.set k (body k h v) h)

variable {body : (i : Nat) → i < n → Vector α n → α}

theorem sweepDown_above {k : Nat} (h : k ≤ n) (v : Vector α n) {i : Nat} (hi : i < n)
    (above : k ≤ i) : (sweepDown body k h v)[i] = v[i] := by
  induction k generalizing v with
  | zero => rfl
  | succ k ih =>
    rw [sweepDown, ih _ _ (by omega), Vector.getElem_set, if_neg (by omega)]

/-- Every position holds what the body computes from the old vector. -/
theorem sweepDown_getElem
    (reads : ∀ (i : Nat) (hi : i < n) (v v' : Vector α n),
      (∀ (j : Nat) (_ : j ≤ i), v[j] = v'[j]) → body i hi v = body i hi v')
    {k : Nat} (h : k ≤ n) (v : Vector α n) {i : Nat} (hi : i < k) :
    (sweepDown body k h v)[i] = body i (by omega) v := by
  induction k generalizing v with
  | zero => omega
  | succ k ih =>
    rw [sweepDown]
    by_cases last : i = k
    · subst last
      rw [sweepDown_above _ _ (by omega) (Nat.le_refl i), Vector.getElem_set, if_pos rfl]
    · rw [ih _ _ (by omega)]
      apply reads
      intro j hj
      rw [Vector.getElem_set, if_neg (by omega)]

end Sweep

variable {n : Nat}

/-- Bit `p` of the string; `false` behind its end. -/
def bitAt (v : Vector (BitVec 64) n) (p : Nat) : Bool :=
  if h : p / 64 < n then v[p / 64].getLsbD (p % 64) else false

/-- Shifting a bit to the bottom and masking it tests it. -/
theorem shifted_and_one (word : BitVec 64) (k : Nat) :
    (word >>> k &&& 1#64 != 0#64) = word.getLsbD k := by
  rw [BitVec.and_one_eq_setWidth_ofBool_getLsbD, BitVec.getLsbD_ushiftRight, Nat.add_zero]
  cases word.getLsbD k <;> decide

@[simp] theorem bitAt_replicate_zero (p : Nat) : bitAt (Vector.replicate n 0#64) p = false := by
  unfold bitAt
  split <;> simp

/-- Words moved up by `k` positions, zeros below. -/
theorem bitAt_moved {v v' : Vector (BitVec 64) n} {k : Nat}
    (moved : ∀ (i : Nat) (hi : i < n), v'[i] = if k ≤ i then v[i - k] else 0)
    {p : Nat} (hp : p < 64 * n) :
    bitAt v' p = (decide (64 * k ≤ p) && bitAt v (p - 64 * k)) := by
  have inside : p / 64 < n := by omega
  unfold bitAt
  rw [dif_pos inside, moved _ inside]
  by_cases above : k ≤ p / 64
  · have far : 64 * k ≤ p := by omega
    have word : (p - 64 * k) / 64 = p / 64 - k := by omega
    have bit : (p - 64 * k) % 64 = p % 64 := by omega
    simp [above, far, word, bit, show p / 64 - k < n by omega]
  · have near : ¬ 64 * k ≤ p := by omega
    simp [above, near]

/-- Every word shifted up by `b` bits, with the bits carried over from the word below. -/
theorem bitAt_carried {v v' : Vector (BitVec 64) n} {b : Nat} (hb : b < 64)
    (carried : ∀ (i : Nat) (hi : i < n),
      v'[i] = v[i] <<< b ||| if 0 < i then v[i - 1] >>> (64 - b) else 0)
    {p : Nat} (hp : p < 64 * n) :
    bitAt v' p = (decide (b ≤ p) && bitAt v (p - b)) := by
  have inside : p / 64 < n := by omega
  unfold bitAt
  rw [dif_pos inside, carried _ inside, dif_pos (show (p - b) / 64 < n by omega),
    BitVec.getLsbD_or, BitVec.getLsbD_shiftLeft]
  by_cases low : p % 64 < b
  · -- the bit comes from the word below
    by_cases first : 0 < p / 64
    · have word : (p - b) / 64 = p / 64 - 1 := by omega
      have bit : (p - b) % 64 = 64 - b + p % 64 := by omega
      simp [low, first, word, bit, show b ≤ p by omega]
    · simp [low, first, show ¬ b ≤ p by omega]
  · have word : (p - b) / 64 = p / 64 := by omega
    have bit : (p - b) % 64 = p % 64 - b := by omega
    have out : ∀ w : BitVec 64, w.getLsbD (64 - b + p % 64) = false :=
      fun w => BitVec.getLsbD_of_ge w _ (by omega)
    have tail : ((if 0 < p / 64 then v[p / 64 - 1] >>> (64 - b) else 0 : BitVec 64)).getLsbD
        (p % 64) = false := by
      split
      · rw [BitVec.getLsbD_ushiftRight, out]
      · simp
    rw [tail]
    simp [low, word, bit, show b ≤ p by omega, Nat.mod_lt p (show 64 > 0 by decide)]

/-- One bit set. -/
theorem bitAt_set (v : Vector (BitVec 64) n) {q : Nat} (hq : q / 64 < n) (p : Nat) :
    bitAt (v.set (q / 64) (v[q / 64] ||| 1#64 <<< (q % 64))) p = (bitAt v p || p == q) := by
  unfold bitAt
  by_cases inside : p / 64 < n
  · rw [dif_pos inside, dif_pos inside, Vector.getElem_set]
    by_cases word : q / 64 = p / 64
    · have mask : (1#64 <<< (q % 64)).getLsbD (p % 64) = (p == q) := by
        rw [BitVec.getLsbD_shiftLeft, BitVec.getLsbD_one]
        by_cases same : p = q
        · subst same
          simp [Nat.mod_lt p (show 64 > 0 by decide)]
        · by_cases below : p % 64 < q % 64
          · simp [below, same]
          · have apart : p % 64 - q % 64 ≠ 0 := by omega
            simp only [apart, same, decide_false, Bool.and_false, beq_eq_false_iff_ne.mpr, ne_eq,
              not_false_eq_true]
      simp [word, BitVec.getLsbD_or, mask]
    · have apart : p ≠ q := by
        rintro rfl
        exact word rfl
      simp [word, apart]
  · have apart : p ≠ q := by
      rintro rfl
      exact inside hq
    simp [inside, apart]

end SecureLink.Library.WordBitmap
