import SecureLink.Library.BigEndian

/-!
# Validation of UTF-8

`sl_is_valid_utf8` of src/sl_input_sanitize.c:20-53. The index into the buffer is the part of it
that still lies ahead.
-/
namespace SecureLink.Source.Input
open Library.BigEndian

/-- The bits of the code point in a lead octet, and how many octets follow it. -/
def leadOctet (b0 : UInt8) : Option (UInt32 × Nat) :=
  if b0 &&& 0xE0 = 0xC0 then some ((b0 &&& 0x1F).toUInt32, 1)
  else if b0 &&& 0xF0 = 0xE0 then some ((b0 &&& 0x0F).toUInt32, 2)
  else if b0 &&& 0xF8 = 0xF0 then some ((b0 &&& 0x07).toUInt32, 3)
  else none

/-- The loop over the octets that follow. -/
def continuationLoop : Bytes → UInt32 → Option UInt32
  | [], cp => some cp
  | bk :: rest, cp =>
    if bk &&& 0xC0 ≠ 0x80 then none
    else continuationLoop rest (cp <<< 6 ||| (bk &&& 0x3F).toUInt32)

/-- The checks of a code point behind the loop. -/
def codePointOk (cp : UInt32) (extra : Nat) : Bool :=
  if extra = 1 ∧ cp < 0x80 then false
  else if extra = 2 ∧ cp < 0x800 then false
  else if extra = 3 ∧ cp < 0x10000 then false
  else if cp ≥ 0xD800 ∧ cp ≤ 0xDFFF then false
  else if cp > 0x10FFFF then false
  else true

/-- A round of the loop: the code point in front and how many octets it takes. -/
def utf8Round (b0 : UInt8) (behind : Bytes) : Option (UInt32 × Nat) :=
  if b0 < 0x80 then some (b0.toUInt32, 1)
  else
    (leadOctet b0).bind fun lead =>
      let extra := lead.2
      if extra ≥ behind.length + 1 then none
      else
        (continuationLoop (behind.take extra) lead.1).bind fun cp =>
          if codePointOk cp extra then some (cp, 1 + extra) else none

/-- Each round passes at least one octet, so the length bounds them. -/
def validUtf8Loop : Nat → Bytes → Bool
  | 0, _ => true
  | _ + 1, [] => true
  | fuel + 1, b0 :: behind =>
    match utf8Round b0 behind with
    | none => false
    | some (_, n) => validUtf8Loop fuel ((b0 :: behind).drop n)

def slIsValidUtf8 (buf : Bytes) : Bool := validUtf8Loop buf.length buf

/-! ## Octets as numbers -/

/-- The bits above those of the code point in the lead octet of a sequence, by how many follow. -/
def leadBits : Nat → Nat
  | 1 => 0xC0
  | 2 => 0xE0
  | _ => 0xF0

/-- How many lead octets there are, by how many octets follow. -/
def leadCount : Nat → Nat
  | 1 => 32
  | 2 => 16
  | _ => 8

/-- The numbers of octets that may follow. -/
def Extra (extra : Nat) : Prop := extra = 1 ∨ extra = 2 ∨ extra = 3

theorem leadOctet_some {b0 : UInt8} {cp : UInt32} {extra : Nat} (read : leadOctet b0 = some (cp, extra)) :
    Extra extra ∧ cp.toNat < leadCount extra ∧ b0.toNat = leadBits extra + cp.toNat := by
  have all : ∀ b0, (leadOctet b0).all fun lead =>
      decide ((lead.2 = 1 ∨ lead.2 = 2 ∨ lead.2 = 3) ∧ lead.1.toNat < leadCount lead.2 ∧
        b0.toNat = leadBits lead.2 + lead.1.toNat) := forall_octet (by decide +kernel)
  have here := all b0
  rw [read, Option.all_some, decide_eq_true_eq] at here
  exact here

theorem leadOctet_eq {extra top : Nat} (isExtra : Extra extra) (small : top < leadCount extra) :
    leadOctet (UInt8.ofNat (leadBits extra + top)) = some (UInt32.ofNat top, extra) := by
  have one : ∀ t < leadCount 1, leadOctet (UInt8.ofNat (leadBits 1 + t)) = some (UInt32.ofNat t, 1) := by
    decide
  have two : ∀ t < leadCount 2, leadOctet (UInt8.ofNat (leadBits 2 + t)) = some (UInt32.ofNat t, 2) := by
    decide
  have three : ∀ t < leadCount 3, leadOctet (UInt8.ofNat (leadBits 3 + t)) = some (UInt32.ofNat t, 3) := by
    decide
  rcases isExtra with rfl | rfl | rfl
  · exact one top small
  · exact two top small
  · exact three top small

/-- An octet that may follow, and its six bits. -/
theorem continuation_octet (b : UInt8) :
    (b &&& 0xC0 = 0x80 ↔ 0x80 ≤ b.toNat ∧ b.toNat < 0xC0) ∧ (b &&& 0x3F).toUInt32.toNat = b.toNat % 64 := by
  revert b
  exact forall_octet (by decide +kernel)

/-- Six more bits of the code point. -/
theorem toNat_joined {cp : UInt32} (small : cp.toNat < 2 ^ 26) (b : UInt8) :
    (cp <<< 6 ||| (b &&& 0x3F).toUInt32).toNat = cp.toNat * 64 + b.toNat % 64 := by
  have shifted : (cp <<< 6).toNat = cp.toNat <<< 6 := by
    rw [UInt32.toNat_shiftLeft]
    exact Nat.mod_eq_of_lt (by rw [Nat.shiftLeft_eq]; simp; omega)
  rw [UInt32.toNat_or, shifted, (continuation_octet b).2,
    ← Nat.shiftLeft_add_eq_or_of_lt (show b.toNat % 64 < 2 ^ 6 from Nat.mod_lt _ (by decide)), Nat.shiftLeft_eq]

/-- The last digits of a number to the base 64, as octets that follow. -/
def tails : Nat → Nat → Bytes
  | 0, _ => []
  | n + 1, v => UInt8.ofNat (v / 64 ^ n % 64 + 128) :: tails n v

theorem length_tails (n v : Nat) : (tails n v).length = n := by
  induction n with
  | zero => rfl
  | succ n ih => rw [tails, List.length_cons, ih]

theorem tail_toNat (v : Nat) : (UInt8.ofNat (v % 64 + 128)).toNat = v % 64 + 128 :=
  UInt8.toNat_ofNat_of_lt' (show v % 64 + 128 < 256 by omega)

/-- The loop reads the digits below those it starts with. -/
theorem continuationLoop_tails {n v : Nat} {cp : UInt32} (fits : (cp.toNat + 1) * 64 ^ n ≤ 2 ^ 32) :
    ∃ r, continuationLoop (tails n v) cp = some r ∧ r.toNat = cp.toNat * 64 ^ n + v % 64 ^ n := by
  induction n generalizing cp with
  | zero => exact ⟨cp, rfl, by simp [Nat.mod_one]⟩
  | succ n ih =>
    have octet := tail_toNat (v / 64 ^ n)
    have follows : UInt8.ofNat (v / 64 ^ n % 64 + 128) &&& 0xC0 = 0x80 :=
      (continuation_octet _).1.mpr (by rw [octet]; omega)
    have small : cp.toNat < 2 ^ 26 := by
      have power : 64 ≤ 64 ^ (n + 1) := Nat.le_self_pow (Nat.succ_ne_zero n) 64
      have low := Nat.mul_le_mul_left (cp.toNat + 1) power
      omega
    have joined := toNat_joined small (UInt8.ofNat (v / 64 ^ n % 64 + 128))
    rw [octet, show (v / 64 ^ n % 64 + 128) % 64 = v / 64 ^ n % 64 by omega] at joined
    have room : ((cp <<< 6 ||| (UInt8.ofNat (v / 64 ^ n % 64 + 128) &&& 0x3F).toUInt32).toNat + 1) * 64 ^ n ≤
        2 ^ 32 := by
      rw [joined]
      refine Nat.le_trans (Nat.mul_le_mul_right _ (show _ ≤ (cp.toNat + 1) * 64 by omega)) ?_
      rwa [Nat.mul_assoc, Nat.mul_comm 64, ← Nat.pow_succ]
    obtain ⟨r, read, value⟩ := ih room
    refine ⟨r, ?_, ?_⟩
    · rw [tails, continuationLoop, if_neg (not_not.mpr follows), read]
    · rw [value, joined, Nat.pow_succ, Nat.mod_mul]
      ring

/-- What the loop accepts are the digits of what it returns. -/
theorem continuationLoop_some {bytes : Bytes} {cp r : UInt32}
    (fits : (cp.toNat + 1) * 64 ^ bytes.length ≤ 2 ^ 32) (read : continuationLoop bytes cp = some r) :
    r.toNat / 64 ^ bytes.length = cp.toNat ∧ bytes = tails bytes.length r.toNat := by
  induction bytes generalizing cp with
  | nil =>
    obtain rfl := Option.some.inj read
    exact ⟨Nat.div_one _, rfl⟩
  | cons b rest ih =>
    rw [continuationLoop] at read
    split at read
    next => cases read
    next follows =>
      obtain ⟨low, high⟩ := (continuation_octet b).1.mp (not_not.mp follows)
      have small : cp.toNat < 2 ^ 26 := by
        have power : 64 ≤ 64 ^ (b :: rest).length := Nat.le_self_pow (Nat.succ_ne_zero _) 64
        have low := Nat.mul_le_mul_left (cp.toNat + 1) power
        omega
      have joined := toNat_joined small b
      have room : (cp.toNat * 64 + b.toNat % 64 + 1) * 64 ^ rest.length ≤ 2 ^ 32 := by
        refine Nat.le_trans (Nat.mul_le_mul_right _ (show _ ≤ (cp.toNat + 1) * 64 by omega)) ?_
        rwa [Nat.mul_assoc, Nat.mul_comm 64, ← Nat.pow_succ]
      obtain ⟨top, digits⟩ := ih (by rw [joined]; exact room) read
      rw [joined] at top
      refine ⟨?_, ?_⟩
      · rw [List.length_cons, Nat.pow_succ, ← Nat.div_div_eq_div_mul, top]
        omega
      · have first : UInt8.ofNat (r.toNat / 64 ^ rest.length % 64 + 128) = b := by
          apply UInt8.toNat_inj.mp
          rw [tail_toNat, top]
          omega
        rw [List.length_cons, tails, first, ← digits]

end SecureLink.Source.Input
