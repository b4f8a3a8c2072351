import Mathlib.Tactic.Ring

/-!
# Linear feedback shift registers

A register that is shifted towards its low end, where a bit that leaves adds a polynomial.
Shifting is linear in exclusive or, and injective if the polynomial has the top bit. A
message is absorbed symbol by symbol: the symbol is added at the low end, then as many bits
are shifted out. From one state, two messages of the same length that fit the register lead
to different states. Bit by bit, the bit that leaves is compared with the next one of the
message; that is the same for symbols that are sent low bit first.
-/
namespace SecureLink.Library.ShiftRegister

variable {w : Nat} (poly : BitVec w)

def shift (c : BitVec w) : BitVec w := if c.getLsbD 0 then poly ^^^ (c >>> 1) else c >>> 1

/-- That many bits leave the register. -/
def shifts (n : Nat) : BitVec w → BitVec w := (shift poly)^[n]

/-- A message of symbols of `k` bits. -/
def absorb (k : Nat) (c : BitVec w) (message : List (BitVec w)) : BitVec w :=
  message.foldl (fun c x => shifts poly k (c ^^^ x)) c

theorem shift_xor (a b : BitVec w) : shift poly (a ^^^ b) = shift poly a ^^^ shift poly b := by
  unfold shift
  rw [BitVec.getLsbD_xor, BitVec.ushiftRight_xor_distrib]
  cases a.getLsbD 0 <;> cases b.getLsbD 0
  · rfl
  · change poly ^^^ (a >>> 1 ^^^ b >>> 1) = a >>> 1 ^^^ (poly ^^^ b >>> 1)
    rw [← BitVec.xor_assoc, BitVec.xor_comm poly, BitVec.xor_assoc]
  · exact (BitVec.xor_assoc ..).symm
  · change a >>> 1 ^^^ b >>> 1 = poly ^^^ a >>> 1 ^^^ (poly ^^^ b >>> 1)
    rw [BitVec.xor_comm poly (a >>> 1), BitVec.xor_assoc, ← BitVec.xor_assoc poly, BitVec.xor_self,
      BitVec.zero_xor]

theorem shifts_xor (n : Nat) (a b : BitVec w) :
    shifts poly n (a ^^^ b) = shifts poly n a ^^^ shifts poly n b := by
  induction n generalizing a b with
  | zero => rfl
  | succ n ih =>
    change shifts poly n (shift poly (a ^^^ b)) = _
    rw [shift_xor]
    exact ih _ _

theorem absorb_xor (k : Nat) {first second : List (BitVec w)} (length : first.length = second.length)
    (a b : BitVec w) :
    absorb poly k (a ^^^ b) (List.zipWith (· ^^^ ·) first second) =
      absorb poly k a first ^^^ absorb poly k b second := by
  induction first generalizing second a b with
  | nil =>
    obtain rfl := List.length_eq_zero_iff.mp length.symm
    rfl
  | cons x rest ih =>
    obtain ⟨y, later, rfl⟩ := List.exists_cons_of_length_eq_add_one length.symm
    have paired : a ^^^ b ^^^ (x ^^^ y) = a ^^^ x ^^^ (b ^^^ y) := by ac_rfl
    change absorb poly k (shifts poly k (a ^^^ b ^^^ (x ^^^ y))) _ = _
    rw [paired, shifts_xor, ih (Nat.succ.inj length)]
    rfl

section Serial

/-- One bit of a message: the bit that leaves is compared with it. -/
def feed (c : BitVec w) (bit : Bool) : BitVec w :=
  if c.getLsbD 0 ^^ bit then poly ^^^ (c >>> 1) else c >>> 1

/-- The `k` low bits, lowest first. -/
def lowBits (x : BitVec w) (k : Nat) : List Bool := (List.range k).map x.getLsbD

theorem lowBits_succ (x : BitVec w) (k : Nat) : lowBits x (k + 1) = x.getLsbD 0 :: lowBits (x >>> 1) k := by
  simp only [lowBits, List.range_succ_eq_map, List.map_cons, List.map_map]
  congr 1
  apply List.map_congr_left
  intro i _
  simp [Nat.add_comm]

theorem shift_feed (c x : BitVec w) : shift poly (c ^^^ x) = feed poly c (x.getLsbD 0) ^^^ (x >>> 1) := by
  unfold shift feed
  rw [BitVec.getLsbD_xor, BitVec.ushiftRight_xor_distrib]
  split
  · rw [BitVec.xor_assoc]
  · rfl

/-- A symbol added and shifted out is its bits fed one after the other. -/
theorem shifts_feed {k : Nat} (c : BitVec w) {x : BitVec w} (small : x.toNat < 2 ^ k) :
    shifts poly k (c ^^^ x) = (lowBits x k).foldl (feed poly) c := by
  induction k generalizing c x with
  | zero =>
    obtain rfl : x = 0#w := BitVec.eq_of_toNat_eq (by rw [BitVec.toNat_zero]; omega)
    rw [BitVec.xor_zero]
    rfl
  | succ k ih =>
    have half : (x >>> 1).toNat < 2 ^ k := by
      rw [BitVec.toNat_ushiftRight, Nat.shiftRight_eq_div_pow]
      omega
    change shifts poly k (shift poly (c ^^^ x)) = _
    rw [shift_feed, ih _ half, lowBits_succ]
    rfl

/-- A message of symbols is the bits of all of them. -/
theorem absorb_feed {k : Nat} {message : List (BitVec w)} (small : ∀ x ∈ message, x.toNat < 2 ^ k)
    (c : BitVec w) :
    absorb poly k c message = (message.flatMap fun x => lowBits x k).foldl (feed poly) c := by
  induction message generalizing c with
  | nil => rfl
  | cons x rest ih =>
    obtain ⟨here, later⟩ := List.forall_mem_cons.mp small
    rw [List.flatMap_cons, List.foldl_append, ← shifts_feed poly c here]
    exact ih later _

end Serial

section Injective
variable {poly} (top : poly.msb = true)
include top

/-- Whether a bit was set when it left shows in the top bit. -/
theorem shift_eq_zero {c : BitVec w} (zero : shift poly c = 0#w) : c = 0#w := by
  unfold shift at zero
  cases low : c.getLsbD 0 with
  | true =>
    have same : poly = c >>> 1 := by
      rw [low, if_pos rfl] at zero
      exact BitVec.xor_eq_zero_iff.mp zero
    have shifted : (c >>> 1).msb = false := by simp [BitVec.msb_ushiftRight]
    rw [same, shifted] at top
    cases top
  | false =>
    simp only [low, Bool.false_eq_true, if_false] at zero
    apply BitVec.eq_of_getLsbD_eq
    intro i inside
    cases i with
    | zero => rw [low, BitVec.getLsbD_zero]
    | succ i =>
      have bit := congrArg (fun v => v.getLsbD i) zero
      simpa [Nat.add_comm] using bit

theorem shift_injective : Function.Injective (shift poly) := by
  intro a b same
  apply BitVec.xor_eq_zero_iff.mp
  apply shift_eq_zero top
  rw [shift_xor, same, BitVec.xor_self]

theorem shifts_injective (n : Nat) : Function.Injective (shifts poly n) :=
  (shift_injective top).iterate n

/-- The rest of a message keeps different states apart. -/
theorem absorb_injective (k : Nat) (message : List (BitVec w)) {a b : BitVec w}
    (same : absorb poly k a message = absorb poly k b message) : a = b := by
  induction message generalizing a b with
  | nil => exact same
  | cons x rest ih => exact (BitVec.xor_left_inj x).mp (shifts_injective top k (ih same))

end Injective

theorem shift_shiftLeft {x : BitVec w} (room : 2 * x.toNat < 2 ^ w) : shift poly (x <<< 1) = x := by
  have low : (x <<< 1).getLsbD 0 = false := by simp
  unfold shift
  rw [low, if_neg Bool.false_ne_true]
  apply BitVec.eq_of_toNat_eq
  have doubled : (x <<< 1).toNat = 2 * x.toNat := by
    rw [BitVec.toNat_shiftLeft, Nat.shiftLeft_eq, Nat.pow_one, Nat.mul_comm, Nat.mod_eq_of_lt room]
  rw [BitVec.toNat_ushiftRight, doubled, Nat.shiftRight_eq_div_pow]
  omega

/-- Zeros leave without a trace. -/
theorem shifts_shiftLeft {k : Nat} {x : BitVec w} (room : x.toNat * 2 ^ k < 2 ^ w) :
    shifts poly k (x <<< k) = x := by
  induction k with
  | zero => simp [shifts]
  | succ k ih =>
    rw [Nat.pow_succ, ← Nat.mul_assoc] at room
    have less : x.toNat * 2 ^ k < 2 ^ w := by omega
    have first : shift poly (x <<< (k + 1)) = x <<< k := by
      rw [BitVec.shiftLeft_add]
      apply shift_shiftLeft
      rw [BitVec.toNat_shiftLeft, Nat.shiftLeft_eq, Nat.mod_eq_of_lt less]
      omega
    change shifts poly k (shift poly (x <<< (k + 1))) = x
    rw [first, ih less]

/-- A register is its low bits and the others. -/
theorem low_xor_high {k : Nat} {c low : BitVec w} (value : low.toNat = c.toNat % 2 ^ k) :
    c = low ^^^ (c >>> k <<< k) := by
  apply BitVec.eq_of_getLsbD_eq
  intro i inside
  have bit : low.getLsbD i = (decide (i < k) && c.getLsbD i) := by
    rw [BitVec.getLsbD, value, Nat.testBit_mod_two_pow, BitVec.getLsbD]
  rw [BitVec.getLsbD_xor, bit, BitVec.getLsbD_shiftLeft, BitVec.getLsbD_ushiftRight]
  by_cases low : i < k
  · simp [low]
  · simp [low, inside, Nat.add_sub_cancel' (Nat.not_lt.mp low)]

/-- The low bits can be looked up in a table, the others only move down. -/
theorem shifts_low {k : Nat} {c low : BitVec w} (value : low.toNat = c.toNat % 2 ^ k) :
    shifts poly k c = shifts poly k low ^^^ (c >>> k) := by
  have room : (c >>> k).toNat * 2 ^ k < 2 ^ w := by
    rw [BitVec.toNat_ushiftRight, Nat.shiftRight_eq_div_pow]
    exact Nat.lt_of_le_of_lt (Nat.div_mul_le_self _ _) c.isLt
  have linear := shifts_xor poly k low (c >>> k <<< k)
  rw [← low_xor_high value, shifts_shiftLeft poly room] at linear
  exact linear

section Burst
variable {poly} (top : poly.msb = true) {k : Nat}
include top

/-- After one symbol each the states differ by `d` in their low bits: before it the registers
differed by the same bits higher up. -/
theorem before_symbol {a b x y : BitVec w} {n : Nat} (room : k + n ≤ w) {d : BitVec w}
    (after : shifts poly k (a ^^^ x) ^^^ shifts poly k (b ^^^ y) = d) (low : d.toNat < 2 ^ n) :
    a ^^^ b ^^^ (x ^^^ y) = d <<< k ∧ (d <<< k).toNat = d.toNat * 2 ^ k ∧
      d.toNat * 2 ^ k < 2 ^ (k + n) := by
  have bound : d.toNat * 2 ^ k < 2 ^ (k + n) := by
    rw [Nat.pow_add, Nat.mul_comm (2 ^ k)]
    exact Nat.mul_lt_mul_of_pos_right low (Nat.two_pow_pos k)
  have fits : d.toNat * 2 ^ k < 2 ^ w :=
    Nat.lt_of_lt_of_le bound (Nat.pow_le_pow_right (by decide) room)
  refine ⟨?_, ?_, bound⟩
  · have paired : a ^^^ b ^^^ (x ^^^ y) = a ^^^ x ^^^ (b ^^^ y) := by ac_rfl
    apply shifts_injective top k
    rw [paired, shifts_xor, after, shifts_shiftLeft poly fits]
  · rw [BitVec.toNat_shiftLeft, Nat.shiftLeft_eq, Nat.mod_eq_of_lt fits]

/-- States that some symbols bring together differ in as many low bits only. -/
theorem absorb_close {first second : List (BitVec w)} (length : first.length = second.length)
    (small : ∀ x ∈ first ++ second, x.toNat < 2 ^ k) (room : k * first.length ≤ w) {a b : BitVec w}
    (same : absorb poly k a first = absorb poly k b second) :
    (a ^^^ b).toNat < 2 ^ (k * first.length) := by
  induction first generalizing second a b with
  | nil =>
    obtain rfl := List.length_eq_zero_iff.mp length.symm
    obtain rfl : a = b := same
    simp
  | cons x rest ih =>
    obtain ⟨y, later, rfl⟩ := List.exists_cons_of_length_eq_add_one length.symm
    rw [List.length_cons, Nat.mul_succ, Nat.add_comm] at room ⊢
    obtain ⟨d, after⟩ : ∃ d, shifts poly k (a ^^^ x) ^^^ shifts poly k (b ^^^ y) = d := ⟨_, rfl⟩
    have close := ih (Nat.succ.inj length) (fun z member => small z (by simp at member ⊢; tauto))
      (by omega) same
    rw [after] at close
    obtain ⟨higher, value, bound⟩ := before_symbol top room after close
    have difference : a ^^^ b = d <<< k ^^^ (x ^^^ y) := by
      rw [← higher, BitVec.xor_assoc (a ^^^ b), BitVec.xor_self, BitVec.xor_zero]
    have wide : 2 ^ k ≤ 2 ^ (k + k * rest.length) := Nat.pow_le_pow_right (by decide) (by omega)
    rw [difference, BitVec.toNat_xor, BitVec.toNat_xor, value]
    apply Nat.xor_lt_two_pow bound
    apply Nat.xor_lt_two_pow
    · exact Nat.lt_of_lt_of_le (small x (by simp)) wide
    · exact Nat.lt_of_lt_of_le (small y (by simp)) wide

/-- Different messages that fit the register are told apart. -/
theorem absorb_burst {first second : List (BitVec w)} (length : first.length = second.length)
    (small : ∀ x ∈ first ++ second, x.toNat < 2 ^ k) (room : k * first.length ≤ w) {a : BitVec w}
    (same : absorb poly k a first = absorb poly k a second) : first = second := by
  induction first generalizing second a with
  | nil => exact (List.length_eq_zero_iff.mp length.symm).symm
  | cons x rest ih =>
    obtain ⟨y, later, rfl⟩ := List.exists_cons_of_length_eq_add_one length.symm
    rw [List.length_cons, Nat.mul_succ, Nat.add_comm] at room
    have smaller : ∀ z ∈ rest ++ later, z.toNat < 2 ^ k := fun z member =>
      small z (by simp at member ⊢; tauto)
    obtain ⟨d, after⟩ : ∃ d, shifts poly k (a ^^^ x) ^^^ shifts poly k (a ^^^ y) = d := ⟨_, rfl⟩
    have close := absorb_close top (Nat.succ.inj length) smaller (by omega) same
    rw [after] at close
    obtain ⟨higher, value, -⟩ := before_symbol top room after close
    rw [BitVec.xor_self, BitVec.zero_xor] at higher
    -- the symbols differ below the place where the rest of the difference starts
    have zero : d.toNat = 0 := by
      have low := Nat.xor_lt_two_pow (small x (by simp)) (small y (by simp))
      rw [← BitVec.toNat_xor, higher, value] at low
      by_contra some
      exact absurd (Nat.le_mul_of_pos_left (2 ^ k) (Nat.pos_of_ne_zero some)) (Nat.not_le.mpr low)
    obtain rfl : d = 0#w := BitVec.eq_of_toNat_eq (by rw [zero, BitVec.toNat_zero])
    rw [BitVec.zero_shiftLeft] at higher
    obtain rfl := BitVec.xor_eq_zero_iff.mp higher
    rw [ih (Nat.succ.inj length) smaller (by omega) same]

end Burst

end SecureLink.Library.ShiftRegister
