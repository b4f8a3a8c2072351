import Mathlib.Data.List.Nodup
import Mathlib.Data.List.Perm.Subperm
import Mathlib.Data.Nat.Bitwise

/-!
# Bitmaps over octets

An array of octets read as one string of bits, least significant bit of the first octet
first. A position behind the end of the array has no bit.
-/
namespace SecureLink.Library.ByteBitmap

/-- Bit `p` of the string. -/
def bitAt (bits : List UInt8) (p : Nat) : Option Bool :=
  (bits[p / 8]?).map fun b => b.toNat.testBit (p % 8)

/-- The octet with bit `k` alone. -/
theorem toNat_mask {k : Nat} (hk : k < 8) : ((1 : UInt8) <<< UInt8.ofNat k).toNat = 2 ^ k := by
  have small : 2 ^ k < 2 ^ 8 := Nat.pow_lt_pow_right (by decide) hk
  have amount : (UInt8.ofNat k).toNat = k := UInt8.toNat_ofNat_of_lt' (Nat.lt_trans hk (by decide))
  rw [UInt8.toNat_shiftLeft, amount, Nat.mod_eq_of_lt hk, UInt8.toNat_one, Nat.one_shiftLeft,
    Nat.mod_eq_of_lt small]

/-- Shifting a bit to the bottom and masking it tests it. -/
theorem shifted_and_one (b : UInt8) {k : Nat} (hk : k < 8) :
    (b >>> UInt8.ofNat k &&& 1 != 0) = b.toNat.testBit k := by
  have amount : (UInt8.ofNat k).toNat = k := UInt8.toNat_ofNat_of_lt' (Nat.lt_trans hk (by decide))
  have value : (b >>> UInt8.ofNat k &&& 1).toNat = (b.toNat.testBit k).toNat := by
    rw [UInt8.toNat_and, UInt8.toNat_shiftRight, amount, Nat.mod_eq_of_lt hk, UInt8.toNat_one,
      Nat.and_one_is_mod, Nat.toNat_testBit, Nat.shiftRight_eq_div_pow]
  cases set : b.toNat.testBit k with
  | false =>
    rw [set] at value
    have zero : b >>> UInt8.ofNat k &&& 1 = 0 := UInt8.toNat_inj.mp value
    rw [zero]
    rfl
  | true =>
    rw [set] at value
    have one : b >>> UInt8.ofNat k &&& 1 = 1 := UInt8.toNat_inj.mp value
    rw [one]
    rfl

/-- Masking a bit in place tests it. -/
theorem and_mask_eq_zero (b : UInt8) {k : Nat} (hk : k < 8) :
    (b &&& (1 : UInt8) <<< UInt8.ofNat k == 0) = !b.toNat.testBit k := by
  have value : (b &&& (1 : UInt8) <<< UInt8.ofNat k).toNat = (b.toNat.testBit k).toNat * 2 ^ k := by
    rw [UInt8.toNat_and, toNat_mask hk, Nat.and_two_pow]
  have positive : 0 < 2 ^ k := Nat.pow_pos (by decide)
  rw [Bool.eq_iff_iff, beq_iff_eq, ← UInt8.toNat_inj, value]
  cases b.toNat.testBit k <;> simp

/-- One bit set. -/
theorem bitAt_set {bits : List UInt8} {q : Nat} {b : UInt8} (old : bits[q / 8]? = some b) (p : Nat) :
    bitAt (bits.set (q / 8) (b ||| (1 : UInt8) <<< UInt8.ofNat (q % 8))) p =
      (bitAt bits p).map (· || p == q) := by
  have inside : q / 8 < bits.length := (List.getElem?_eq_some_iff.mp old).1
  unfold bitAt
  by_cases octet : q / 8 = p / 8
  · rw [← octet, List.getElem?_set_self inside, old]
    have position : (p == q) = decide (q % 8 = p % 8) := by
      rw [Bool.eq_iff_iff, beq_iff_eq, decide_eq_true_eq]
      omega
    simp only [Option.map_some, UInt8.toNat_or, toNat_mask (Nat.mod_lt q (by decide)),
      Nat.testBit_or, Nat.testBit_two_pow, position]
  · have apart : (p == q) = false := beq_eq_false_iff_ne.mpr fun same => octet (by rw [same])
    rw [List.getElem?_set_ne octet, Option.map_map]
    simp only [Function.comp_def, apart, Bool.or_false]

theorem bitAt_replicate {n p : Nat} (inside : p / 8 < n) :
    bitAt (List.replicate n 0) p = some false := by
  simp [bitAt, inside]

/-- Different numbers below a bound. -/
theorem subperm_range {marks : List Nat} {n : Nat} (distinct : marks.Nodup)
    (below : ∀ m ∈ marks, m < n) : marks.Subperm (List.range n) :=
  distinct.subperm fun m hm => List.mem_range.mpr (below m hm)

theorem length_le_of_below {marks : List Nat} {n : Nat} (distinct : marks.Nodup)
    (below : ∀ m ∈ marks, m < n) : marks.length ≤ n := by
  simpa using (subperm_range distinct below).length_le

/-- As many different numbers below a bound as there are: all of them. -/
theorem mem_of_length_eq {marks : List Nat} {n : Nat} (distinct : marks.Nodup)
    (below : ∀ m ∈ marks, m < n) (full : marks.length = n) {k : Nat} (hk : k < n) : k ∈ marks := by
  have perm := (subperm_range distinct below).perm_of_length_le (by rw [List.length_range, full])
  exact perm.mem_iff.mpr (List.mem_range.mpr hk)

end SecureLink.Library.ByteBitmap
