import SecureLink.Library.BigEndian

/-!
# Numerals

Numbers as text to a base of up to sixteen, in lower case and without leading zeros, and the
reader of the decimal ones.
-/
namespace SecureLink.Library.Numerals
open BigEndian

def numeral (base n : Nat) : Bytes := (Nat.toDigits base n).map fun c => UInt8.ofNat c.toNat

def minus : UInt8 := 0x2D
def zero : UInt8 := 0x30

def decimalDigit (c : UInt8) : Bool := zero ≤ c && c ≤ 0x39

def signedNumeral (z : Int) : Bytes := if z < 0 then minus :: numeral 10 z.natAbs else numeral 10 z.natAbs

def decimalValue (digits : Bytes) : Nat := digits.foldl (fun value c => 10 * value + (c.toNat - 48)) 0

/-- Digits, the first of which is a zero only if it is the only one. -/
def isDecimal : Bytes → Bool
  | [] => false
  | c :: rest => (c :: rest).all decimalDigit && (c != zero || rest.isEmpty)

def readNat (digits : Bytes) : Option Nat :=
  if isDecimal digits then some (decimalValue digits) else none

def readInt : Bytes → Option Int
  | [] => none
  | c :: rest =>
    if c = minus then (readNat rest).map fun n : Nat => -(n : Int)
    else (readNat (c :: rest)).map fun n : Nat => (n : Int)

/-! ## Reading back -/

theorem numeral_ne_nil (base n : Nat) : numeral base n ≠ [] := by
  rw [numeral, ne_eq, List.map_eq_nil_iff]
  exact Nat.toDigits_ne_nil

/-- A digit as a character. -/
def digitByte (d : Nat) : UInt8 := UInt8.ofNat d.digitChar.toNat

theorem digitByte_spec {d : Nat} (digit : d < 10) :
    (digitByte d).toNat - 48 = d ∧ decimalDigit (digitByte d) = true ∧ (digitByte d = zero → d = 0) := by
  have all : ∀ d < 10, (digitByte d).toNat - 48 = d ∧ decimalDigit (digitByte d) = true ∧
      (digitByte d = zero → d = 0) := by
    decide
  exact all d digit

theorem numeral_small {n : Nat} (small : n < 10) : numeral 10 n = [digitByte n] := by
  rw [numeral, Nat.toDigits_of_lt_base small]
  rfl

theorem numeral_step {n : Nat} (large : ¬ n < 10) :
    numeral 10 n = numeral 10 (n / 10) ++ [digitByte (n % 10)] := by
  rw [numeral, Nat.toDigits_of_base_le (by decide) (Nat.le_of_not_lt large), List.map_append]
  rfl

/-- What holds of the digits, and of a number if it holds of the number without its last digit, holds
of every number. -/
theorem decimal_induction {motive : Nat → Prop} (small : ∀ n < 10, motive n)
    (step : ∀ n, ¬ n < 10 → motive (n / 10) → motive n) (n : Nat) : motive n := by
  induction n using Nat.strongRecOn with
  | ind n ih =>
    by_cases digit : n < 10
    · exact small n digit
    · exact step n digit (ih (n / 10) (by omega))

theorem decimalValue_numeral (n : Nat) : decimalValue (numeral 10 n) = n := by
  induction n using decimal_induction with
  | small n digit =>
    rw [numeral_small digit]
    show 10 * 0 + ((digitByte n).toNat - 48) = n
    rw [(digitByte_spec digit).1]
    omega
  | step n large ih =>
    rw [decimalValue] at ih
    rw [numeral_step large, decimalValue, List.foldl_append, ih]
    show 10 * (n / 10) + ((digitByte (n % 10)).toNat - 48) = n
    rw [(digitByte_spec (Nat.mod_lt n (by decide))).1]
    exact Nat.div_add_mod n 10

theorem decimalDigit_of_mem (n : Nat) : ∀ c ∈ numeral 10 n, decimalDigit c = true := by
  induction n using decimal_induction with
  | small n digit =>
    rw [numeral_small digit]
    exact List.forall_mem_singleton.mpr (digitByte_spec digit).2.1
  | step n large ih =>
    rw [numeral_step large, List.forall_mem_append]
    exact ⟨ih, List.forall_mem_singleton.mpr (digitByte_spec (Nat.mod_lt n (by decide))).2.1⟩

theorem head_numeral {n : Nat} (positive : 0 < n) : (numeral 10 n).head? ≠ some zero := by
  induction n using decimal_induction with
  | small n digit =>
    rw [numeral_small digit]
    intro leading
    have isZero := (digitByte_spec digit).2.2 (Option.some.inj leading)
    omega
  | step n large ih =>
    rw [numeral_step large, List.head?_append_of_ne_nil _ (numeral_ne_nil 10 _)]
    exact ih (by omega)

theorem isDecimal_numeral (n : Nat) : isDecimal (numeral 10 n) = true := by
  by_cases isZero : n = 0
  · subst isZero
    rfl
  · have digits := List.all_eq_true.mpr (decimalDigit_of_mem n)
    have leading := head_numeral (Nat.pos_of_ne_zero isZero)
    obtain ⟨c, rest, text⟩ := List.exists_cons_of_ne_nil (numeral_ne_nil 10 n)
    rw [text] at digits leading ⊢
    have first : (c != zero) = true := bne_iff_ne.mpr fun same => leading (congrArg some same)
    rw [isDecimal, digits, first]
    rfl

theorem readNat_numeral (n : Nat) : readNat (numeral 10 n) = some n := by
  rw [readNat, if_pos (isDecimal_numeral n), decimalValue_numeral]

theorem readInt_signedNumeral (z : Int) : readInt (signedNumeral z) = some z := by
  rw [signedNumeral]
  split
  next negative =>
    rw [readInt, if_pos rfl, readNat_numeral, Option.map_some]
    congr 1
    omega
  next positive =>
    obtain ⟨c, rest, text⟩ := List.exists_cons_of_ne_nil (numeral_ne_nil 10 z.natAbs)
    have digit : decimalDigit c = true := decimalDigit_of_mem z.natAbs c (by rw [text]; exact List.mem_cons_self)
    have unsigned : c ≠ minus := by
      rintro rfl
      exact absurd digit (by decide)
    rw [text, readInt, if_neg unsigned, ← text, readNat_numeral, Option.map_some]
    congr 1
    omega

end SecureLink.Library.Numerals
