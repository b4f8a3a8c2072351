import SecureLink.Library.Pieces
import SecureLink.Source.Input.InputSanitize

/-!
# What is valid UTF-8

A character is a Unicode scalar value, and `String.utf8EncodeChar` its standard encoding. A round
of the validator passes exactly the encoding of one character, so the strings that are passed in
full are the concatenations of encodings.
-/
namespace SecureLink.Guarantees.Utf8Exact
open Library.BigEndian Library.Pieces Source.Input

/-- The character in front. -/
def frontChar : Bytes → Option (Char × Bytes)
  | [] => none
  | b0 :: behind =>
    (utf8Round b0 behind).map fun round => (Char.ofNat round.1.toNat, (b0 :: behind).drop round.2)

/-! ## Encodings -/

/-- The least code point that is encoded with so many octets behind the first. -/
def least : Nat → Nat
  | 1 => 0x80
  | 2 => 0x800
  | _ => 0x10000

/-- The code points that are encoded with so many. -/
theorem encode_eq {c : Char} {extra : Nat} (isExtra : Extra extra) (low : least extra ≤ c.val.toNat)
    (high : c.val.toNat < leadCount extra * 64 ^ extra) :
    String.utf8EncodeChar c =
      UInt8.ofNat (leadBits extra + c.val.toNat / 64 ^ extra) :: tails extra c.val.toNat := by
  rw [String.utf8EncodeChar]
  rcases isExtra with rfl | rfl | rfl
  · simp only [least, leadCount, Nat.reducePow, Nat.reduceMul] at low high
    rw [if_neg (by omega), if_pos (by omega)]
    simp only [tails, leadBits, Nat.pow_one, Nat.pow_zero, Nat.div_one]
    rw [Nat.mod_eq_of_lt (show c.val.toNat / 64 < 32 by omega), Nat.add_comm]
  · simp only [least, leadCount, Nat.reducePow, Nat.reduceMul] at low high
    rw [if_neg (by omega), if_neg (by omega), if_pos (by omega)]
    simp only [tails, leadBits, Nat.pow_one, Nat.pow_zero, Nat.div_one, Nat.reducePow]
    rw [Nat.mod_eq_of_lt (show c.val.toNat / 4096 < 16 by omega), Nat.add_comm]
  · simp only [least, leadCount, Nat.reducePow, Nat.reduceMul] at low high
    rw [if_neg (by omega), if_neg (by omega), if_neg (by omega)]
    simp only [tails, leadBits, Nat.pow_one, Nat.pow_zero, Nat.div_one, Nat.reducePow]
    rw [Nat.mod_eq_of_lt (show c.val.toNat / 262144 < 8 by omega), Nat.add_comm]

theorem encode_ascii {c : Char} (small : c.val.toNat < 0x80) :
    String.utf8EncodeChar c = [UInt8.ofNat c.val.toNat] := by
  rw [String.utf8EncodeChar, if_pos (by omega)]

/-- Every character has one of the four lengths. -/
theorem encode_cases (c : Char) :
    c.val.toNat < 0x80 ∨
      ∃ extra, Extra extra ∧ least extra ≤ c.val.toNat ∧ c.val.toNat < leadCount extra * 64 ^ extra := by
  have bound : c.val.toNat < 0x110000 := by
    rcases c.valid with low | ⟨_, high⟩
    · omega
    · exact high
  by_cases one : c.val.toNat < 0x80
  · exact Or.inl one
  by_cases two : c.val.toNat < 0x800
  · exact Or.inr ⟨1, Or.inl rfl, Nat.le_of_not_lt one, two⟩
  by_cases three : c.val.toNat < 0x10000
  · exact Or.inr ⟨2, Or.inr (Or.inl rfl), Nat.le_of_not_lt two, three⟩
  · refine Or.inr ⟨3, Or.inr (Or.inr rfl), Nat.le_of_not_lt three, ?_⟩
    simp only [leadCount, Nat.reducePow, Nat.reduceMul]
    omega

/-! ## A round -/

/-- The checks leave the scalar values that are not encoded shorter. -/
theorem codePointOk_iff {cp : UInt32} {extra : Nat} (isExtra : Extra extra) :
    codePointOk cp extra = true ↔ least extra ≤ cp.toNat ∧ cp.isValidChar := by
  simp only [codePointOk, UInt32.isValidChar, Nat.isValidChar, UInt32.lt_iff_toNat_lt,
    UInt32.le_iff_toNat_le, ge_iff_le, gt_iff_lt, UInt32.reduceToNat]
  rcases isExtra with rfl | rfl | rfl <;> simp only [least] <;> grind

theorem lead_fits {extra top : Nat} (isExtra : Extra extra) (small : top < leadCount extra) :
    (top + 1) * 64 ^ extra ≤ 2 ^ 32 := by
  rcases isExtra with rfl | rfl | rfl <;> simp only [leadCount] at small <;> omega

/-- What a round passes is the encoding of its code point. -/
theorem utf8Round_some {b0 : UInt8} {behind : Bytes} {cp : UInt32} {n : Nat}
    (read : utf8Round b0 behind = some (cp, n)) :
    ∃ c : Char, c.val = cp ∧ b0 :: behind = String.utf8EncodeChar c ++ (b0 :: behind).drop n := by
  rw [utf8Round] at read
  split at read
  next ascii =>
    obtain ⟨rfl, rfl⟩ := Prod.mk.inj (Option.some.inj read)
    have small : b0.toUInt32.toNat < 0x80 := by
      rw [UInt8.toNat_toUInt32]
      exact UInt8.lt_iff_toNat_lt.mp ascii
    refine ⟨⟨b0.toUInt32, Or.inl (Nat.lt_trans small (by decide))⟩, rfl, ?_⟩
    rw [encode_ascii small, UInt8.toNat_toUInt32, UInt8.ofNat_toNat]
    rfl
  next =>
    obtain ⟨⟨lead, extra⟩, leadRead, read⟩ := Option.bind_eq_some_iff.mp read
    dsimp only at read
    split at read
    next => cases read
    next inside =>
      obtain ⟨value, follows, read⟩ := Option.bind_eq_some_iff.mp read
      split at read
      next ok =>
        obtain ⟨rfl, rfl⟩ := Prod.mk.inj (Option.some.inj read)
        obtain ⟨isExtra, small, octet⟩ := leadOctet_some leadRead
        obtain ⟨low, valid⟩ := (codePointOk_iff isExtra).mp ok
        have length : (behind.take extra).length = extra := by
          rw [List.length_take]
          omega
        obtain ⟨top, digits⟩ := continuationLoop_some (by rw [length]; exact lead_fits isExtra small) follows
        rw [length] at top digits
        have high : value.toNat < leadCount extra * 64 ^ extra := by
          rw [← top] at small
          exact (Nat.div_lt_iff_lt_mul (Nat.pow_pos (by decide))).mp small
        refine ⟨⟨value, valid⟩, rfl, ?_⟩
        rw [encode_eq (c := ⟨value, valid⟩) isExtra low high, top, ← octet, UInt8.ofNat_toNat, ← digits,
          Nat.add_comm, List.drop_succ_cons, List.cons_append, List.take_append_drop]
      next => cases read

/-- A round passes the encoding of every character, whatever follows it. -/
theorem utf8Round_encode (c : Char) (rest : Bytes) :
    ∃ b0 behind, String.utf8EncodeChar c ++ rest = b0 :: behind ∧
      utf8Round b0 behind = some (c.val, (String.utf8EncodeChar c).length) := by
  rcases encode_cases c with ascii | ⟨extra, isExtra, low, high⟩
  · have octet : (UInt8.ofNat c.val.toNat).toNat = c.val.toNat :=
      UInt8.toNat_ofNat_of_lt' (Nat.lt_trans ascii (by decide))
    refine ⟨UInt8.ofNat c.val.toNat, rest, by rw [encode_ascii ascii]; rfl, ?_⟩
    have small : UInt8.ofNat c.val.toNat < 0x80 := by
      rw [UInt8.lt_iff_toNat_lt, octet]
      exact ascii
    have back : (UInt8.ofNat c.val.toNat).toUInt32 = c.val := by
      apply UInt32.toNat_inj.mp
      rw [UInt8.toNat_toUInt32, octet]
    rw [utf8Round, if_pos small, back, encode_ascii ascii]
    rfl
  · have encoded := encode_eq isExtra low high
    have small : c.val.toNat / 64 ^ extra < leadCount extra :=
      (Nat.div_lt_iff_lt_mul (Nat.pow_pos (by decide))).mpr high
    have top : (UInt32.ofNat (c.val.toNat / 64 ^ extra)).toNat = c.val.toNat / 64 ^ extra :=
      UInt32.toNat_ofNat_of_lt' (Nat.lt_of_le_of_lt (Nat.div_le_self _ _) c.val.toNat_lt)
    have notAscii : ¬ UInt8.ofNat (leadBits extra + c.val.toNat / 64 ^ extra) < 0x80 := by
      rw [UInt8.not_lt, UInt8.le_iff_toNat_le]
      rw [UInt8.toNat_ofNat']
      rcases isExtra with rfl | rfl | rfl <;> simp only [leadCount, leadBits] at small ⊢ <;>
        simp only [UInt8.reduceToNat] <;> omega
    have fits : ((UInt32.ofNat (c.val.toNat / 64 ^ extra)).toNat + 1) * 64 ^ extra ≤ 2 ^ 32 := by
      rw [top]
      exact lead_fits isExtra small
    obtain ⟨r, follows, value⟩ := continuationLoop_tails (v := c.val.toNat) fits
    obtain rfl : r = c.val := by
      apply UInt32.toNat_inj.mp
      rw [value, top, Nat.mul_comm, Nat.div_add_mod]
    refine ⟨_, tails extra c.val.toNat ++ rest, by rw [encoded]; rfl, ?_⟩
    rw [utf8Round, if_neg notAscii, leadOctet_eq isExtra small, Option.bind_some]
    dsimp only
    rw [if_neg (by rw [List.length_append, length_tails]; omega), List.take_left' (length_tails _ _), follows,
      Option.bind_some, if_pos ((codePointOk_iff isExtra).mpr ⟨low, c.valid⟩), encoded, List.length_cons,
      length_tails, Nat.add_comm]

/-! ## Strings -/

theorem frontChar_encode (c : Char) (rest : Bytes) :
    frontChar (String.utf8EncodeChar c ++ rest) = some (c, rest) := by
  obtain ⟨b0, behind, split, read⟩ := utf8Round_encode c rest
  have past : (b0 :: behind).drop (String.utf8EncodeChar c).length = rest := by
    rw [← split, List.drop_left]
  rw [split, frontChar, read, Option.map_some]
  dsimp only
  rw [past]
  exact congrArg (fun c => some (c, rest)) (Char.ofNat_toNat c)

theorem frontChar_exact (input : Bytes) (c : Char) (rest : Bytes)
    (read : frontChar input = some (c, rest)) : input = String.utf8EncodeChar c ++ rest := by
  cases input with
  | nil => cases read
  | cons b0 behind =>
    obtain ⟨⟨cp, n⟩, round, same⟩ := Option.map_eq_some_iff.mp read
    obtain ⟨c', rfl, split⟩ := utf8Round_some round
    obtain ⟨rfl, rfl⟩ := Prod.mk.inj same
    rw [show Char.ofNat (c'.val, n).1.toNat = c' from Char.ofNat_toNat c']
    exact split

theorem frontChar_shortens : Shortens frontChar := by
  intro input c rest read
  have split := frontChar_exact input c rest read
  have positive : 0 < (String.utf8EncodeChar c).length := String.length_utf8EncodeChar c ▸ Char.utf8Size_pos c
  rw [split, List.length_append]
  omega

theorem validUtf8Loop_eq {fuel : Nat} {input : Bytes} (enough : input.length ≤ fuel) :
    validUtf8Loop fuel input = true ↔ (parse frontChar input).2 = [] := by
  induction fuel generalizing input with
  | zero =>
    obtain rfl := List.eq_nil_of_length_eq_zero (Nat.le_zero.mp enough)
    exact iff_of_true rfl rfl
  | succ fuel ih =>
    cases input with
    | nil => exact iff_of_true rfl rfl
    | cons b0 behind =>
      rw [validUtf8Loop]
      cases round : utf8Round b0 behind with
      | none =>
        have refused : frontChar (b0 :: behind) = none := by rw [frontChar, round, Option.map_none]
        rw [parse_refused refused]
        exact iff_of_false Bool.false_ne_true (List.cons_ne_nil _ _)
      | some found =>
        have read : frontChar (b0 :: behind) =
            some (Char.ofNat found.1.toNat, (b0 :: behind).drop found.2) := by
          rw [frontChar, round, Option.map_some]
        have shorter := frontChar_shortens _ _ _ read
        rw [parse_read frontChar_shortens read]
        exact ih (by omega)

/-- A string is valid exactly if it is the encodings of some characters one after the other. -/
theorem utf8_valid_iff (s : Bytes) :
    slIsValidUtf8 s = true ↔ ∃ cs : List Char, s = cs.flatMap String.utf8EncodeChar := by
  rw [slIsValidUtf8, validUtf8Loop_eq (Nat.le_refl _),
    nothing_left_iff frontChar_shortens frontChar_encode frontChar_exact]

end SecureLink.Guarantees.Utf8Exact
