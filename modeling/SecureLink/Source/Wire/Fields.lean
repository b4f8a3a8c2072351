import Mathlib.Data.List.GetD
import SecureLink.Library.BigEndian

/-!
# Fixed-width fields

The static helpers `pack_u16`, `pack_u32`, `pack_u64` and their inverses. Each of
src/sl_beacon.c:5-33, src/sl_rpc_msg.c:5-18, src/sl_pubsub_msg.c:5-18, src/sl_extensions.c:5-12,
src/sl_file_meta.c:6-26, src/sl_file_chunk.c:8-15, src/sl_stream_frame.c:5-22,
src/sl_snapshot.c:12-29, src/sl_audit_log.c:20-28, src/sl_session_ticket.c:9-17,
src/sl_identity_file.c:17-25 and inc/byte_order.hpp:29-51 defines those it needs in the same way,
the last five with the suffix `_be`. A reader gets the bytes from its offset on; what lies behind
the end of a list reads as zero.
-/
namespace SecureLink.Source.Wire
open Library.BigEndian

def packU16 (v : UInt16) : Bytes := [(v >>> 8).toUInt8, v.toUInt8]

def packU32 (v : UInt32) : Bytes :=
  [(v >>> 24).toUInt8, (v >>> 16).toUInt8, (v >>> 8).toUInt8, v.toUInt8]

def packU64 (v : UInt64) : Bytes := packU32 (v >>> 32).toUInt32 ++ packU32 v.toUInt32

def unpackU16 (p : Bytes) : UInt16 :=
  (p.getD 0 0).toUInt16 <<< 8 ||| (p.getD 1 0).toUInt16

def unpackU32 (p : Bytes) : UInt32 :=
  (p.getD 0 0).toUInt32 <<< 24 ||| (p.getD 1 0).toUInt32 <<< 16 |||
    (p.getD 2 0).toUInt32 <<< 8 ||| (p.getD 3 0).toUInt32

def unpackU64 (p : Bytes) : UInt64 :=
  (unpackU32 p).toUInt64 <<< 32 ||| (unpackU32 (p.drop 4)).toUInt64

@[simp] theorem length_packU16 (v : UInt16) : (packU16 v).length = 2 := rfl

@[simp] theorem length_packU32 (v : UInt32) : (packU32 v).length = 4 := rfl

@[simp] theorem length_packU64 (v : UInt64) : (packU64 v).length = 8 := rfl

theorem packU16_eq (v : UInt16) : packU16 v = encode 2 v.toNat := by
  have high : (v >>> 8).toUInt8 = UInt8.ofNat (v.toNat / 256 ^ 1) := by
    apply UInt8.toNat_inj.mp
    simp [Nat.shiftRight_eq_div_pow]
  have low : v.toUInt8 = UInt8.ofNat (v.toNat / 256 ^ 0) := by simp
  simp only [packU16, encode, high, low]

theorem packU32_eq (v : UInt32) : packU32 v = encode 4 v.toNat := by
  have octet : ∀ shift < 32,
      (v >>> UInt32.ofNat shift).toUInt8 = UInt8.ofNat (v.toNat / 2 ^ shift) := by
    intro shift small
    apply UInt8.toNat_inj.mp
    simp [UInt32.toNat_shiftRight, Nat.shiftRight_eq_div_pow, Nat.mod_eq_of_lt small]
  have low : v.toUInt8 = UInt8.ofNat (v.toNat / 2 ^ 0) := by simp
  rw [packU32, low]
  simp only [encode]
  refine congrArg₂ _ (octet 24 (by decide)) (congrArg₂ _ (octet 16 (by decide))
    (congrArg₂ _ (octet 8 (by decide)) rfl))

/-- Joining a number above a shorter one. -/
theorem or_shifted {high low width : Nat} (below : low < 2 ^ width) :
    high <<< width ||| low = high * 2 ^ width + low := by
  rw [← Nat.shiftLeft_add_eq_or_of_lt below, Nat.shiftLeft_eq]

theorem unpackU16_toNat (b0 b1 : UInt8) (rest : Bytes) :
    (unpackU16 (b0 :: b1 :: rest)).toNat = decode [b0, b1] := by
  have h0 := b0.toNat_lt
  have h1 := b1.toNat_lt
  have fits : b0.toNat <<< 8 < 2 ^ 16 := by
    rw [Nat.shiftLeft_eq]
    omega
  have shifted : (b0.toUInt16 <<< 8).toNat = b0.toNat <<< 8 := by
    simpa using Nat.mod_eq_of_lt fits
  simp only [unpackU16, List.getD_cons_zero, List.getD_cons_succ, UInt16.toNat_or, shifted,
    UInt8.toNat_toUInt16, or_shifted (show b1.toNat < 2 ^ 8 from h1)]
  simp only [decode, List.foldl_cons, List.foldl_nil]
  omega

theorem unpackU32_toNat (b0 b1 b2 b3 : UInt8) (rest : Bytes) :
    (unpackU32 (b0 :: b1 :: b2 :: b3 :: rest)).toNat = decode [b0, b1, b2, b3] := by
  have bounds := And.intro b0.toNat_lt (And.intro b1.toNat_lt (And.intro b2.toNat_lt b3.toNat_lt))
  have shifted : ∀ (b : UInt8), ∀ shift ≤ 24,
      (b.toUInt32 <<< UInt32.ofNat shift).toNat = b.toNat <<< shift := by
    intro b shift small
    have octet := b.toNat_lt
    have fits : b.toNat <<< shift < 2 ^ 32 := by
      rw [Nat.shiftLeft_eq]
      calc b.toNat * 2 ^ shift ≤ 255 * 2 ^ 24 :=
            Nat.mul_le_mul (by omega) (Nat.pow_le_pow_right (by decide) small)
        _ < 2 ^ 32 := by decide
    have amount : (UInt32.ofNat shift).toNat % 32 = shift := by
      rw [UInt32.toNat_ofNat_of_lt' (Nat.lt_of_le_of_lt small (by decide))]
      omega
    rw [UInt32.toNat_shiftLeft, amount, UInt8.toNat_toUInt32]
    exact Nat.mod_eq_of_lt fits
  have s24 := shifted b0 24 (by decide)
  have s16 := shifted b1 16 (by decide)
  have s8 := shifted b2 8 (by decide)
  have low : b2.toNat <<< 8 ||| b3.toNat = b2.toNat * 2 ^ 8 + b3.toNat := or_shifted bounds.2.2.2
  have mid : b1.toNat <<< 16 ||| (b2.toNat * 2 ^ 8 + b3.toNat) =
      b1.toNat * 2 ^ 16 + (b2.toNat * 2 ^ 8 + b3.toNat) := or_shifted (by omega)
  have all : b0.toNat <<< 24 ||| (b1.toNat * 2 ^ 16 + (b2.toNat * 2 ^ 8 + b3.toNat)) =
      b0.toNat * 2 ^ 24 + (b1.toNat * 2 ^ 16 + (b2.toNat * 2 ^ 8 + b3.toNat)) :=
    or_shifted (by omega)
  have joined : (unpackU32 (b0 :: b1 :: b2 :: b3 :: rest)).toNat =
      b0.toNat <<< 24 ||| b1.toNat <<< 16 ||| b2.toNat <<< 8 ||| b3.toNat := by
    simp only [unpackU32, List.getD_cons_zero, List.getD_cons_succ, UInt32.toNat_or,
      UInt8.toNat_toUInt32]
    exact congrArg₂ _ (congrArg₂ _ (congrArg₂ _ s24 s16) s8) rfl
  rw [joined, Nat.or_assoc, Nat.or_assoc, low, mid, all]
  simp only [decode, List.foldl_cons, List.foldl_nil]
  omega

/-- A reader does not look behind its field. -/
theorem unpackU16_append {p : Bytes} (long : 2 ≤ p.length) (more : Bytes) :
    unpackU16 (p ++ more) = unpackU16 p := by
  simp only [unpackU16, List.getD_append p more 0 _ (show 0 < p.length by omega),
    List.getD_append p more 0 _ (show 1 < p.length by omega)]

theorem unpackU32_append {p : Bytes} (long : 4 ≤ p.length) (more : Bytes) :
    unpackU32 (p ++ more) = unpackU32 p := by
  simp only [unpackU32, List.getD_append p more 0 _ (show 0 < p.length by omega),
    List.getD_append p more 0 _ (show 1 < p.length by omega),
    List.getD_append p more 0 _ (show 2 < p.length by omega),
    List.getD_append p more 0 _ (show 3 < p.length by omega)]

theorem unpackU16_pack (v : UInt16) (rest : Bytes) : unpackU16 (packU16 v ++ rest) = v := by
  apply UInt16.toNat_inj.mp
  have read : (unpackU16 (packU16 v ++ rest)).toNat = decode (packU16 v) := unpackU16_toNat _ _ rest
  rw [read, packU16_eq, decode_encode]
  exact Nat.mod_eq_of_lt v.toNat_lt

theorem unpackU32_pack (v : UInt32) (rest : Bytes) : unpackU32 (packU32 v ++ rest) = v := by
  apply UInt32.toNat_inj.mp
  have read : (unpackU32 (packU32 v ++ rest)).toNat = decode (packU32 v) :=
    unpackU32_toNat _ _ _ _ rest
  rw [read, packU32_eq, decode_encode]
  exact Nat.mod_eq_of_lt v.toNat_lt

/-- A 64-bit number is its two halves. -/
theorem halves (high low : UInt32) :
    (high.toUInt64 <<< 32 ||| low.toUInt64).toNat = high.toNat * 2 ^ 32 + low.toNat := by
  have hh := high.toNat_lt
  have hl := low.toNat_lt
  have fits : high.toNat <<< 32 < 2 ^ 64 := by
    rw [Nat.shiftLeft_eq]
    omega
  have shifted : (high.toUInt64 <<< 32).toNat = high.toNat <<< 32 := by
    simpa using Nat.mod_eq_of_lt fits
  rw [UInt64.toNat_or, shifted, UInt32.toNat_toUInt64, or_shifted hl]

theorem unpackU64_pack (v : UInt64) (rest : Bytes) : unpackU64 (packU64 v ++ rest) = v := by
  apply UInt64.toNat_inj.mp
  have first : unpackU32 (packU64 v ++ rest) = (v >>> 32).toUInt32 := by
    rw [packU64, List.append_assoc, unpackU32_pack]
  have second : unpackU32 ((packU64 v ++ rest).drop 4) = v.toUInt32 := by
    rw [packU64, List.append_assoc, List.drop_left' (length_packU32 _), unpackU32_pack]
  have bound := v.toNat_lt
  have top : (v >>> 32).toUInt32.toNat = v.toNat / 2 ^ 32 := by
    simp [Nat.shiftRight_eq_div_pow]
    omega
  have bottom : v.toUInt32.toNat = v.toNat % 2 ^ 32 := by simp
  rw [unpackU64, first, second, halves, top, bottom]
  omega

theorem packU16_unpack {p : Bytes} (long : 2 ≤ p.length) : packU16 (unpackU16 p) = p.take 2 := by
  obtain ⟨b0, b1, rest, rfl⟩ : ∃ b0 b1 rest, p = b0 :: b1 :: rest := by
    match p, long with
    | b0 :: b1 :: rest, _ => exact ⟨b0, b1, rest, rfl⟩
  rw [packU16_eq, unpackU16_toNat]
  exact encode_decode [b0, b1]

theorem packU32_unpack {p : Bytes} (long : 4 ≤ p.length) : packU32 (unpackU32 p) = p.take 4 := by
  obtain ⟨b0, b1, b2, b3, rest, rfl⟩ : ∃ b0 b1 b2 b3 rest, p = b0 :: b1 :: b2 :: b3 :: rest := by
    match p, long with
    | b0 :: b1 :: b2 :: b3 :: rest, _ => exact ⟨b0, b1, b2, b3, rest, rfl⟩
  rw [packU32_eq, unpackU32_toNat]
  exact encode_decode [b0, b1, b2, b3]

theorem packU64_unpack {p : Bytes} (long : 8 ≤ p.length) : packU64 (unpackU64 p) = p.take 8 := by
  have value : (unpackU64 p).toNat =
      (unpackU32 p).toNat * 2 ^ 32 + (unpackU32 (p.drop 4)).toNat := halves _ _
  have low := (unpackU32 (p.drop 4)).toNat_lt
  have top : (unpackU64 p >>> 32).toUInt32 = unpackU32 p := by
    apply UInt32.toNat_inj.mp
    have bound := (unpackU32 p).toNat_lt
    simp [Nat.shiftRight_eq_div_pow, value]
    omega
  have bottom : (unpackU64 p).toUInt32 = unpackU32 (p.drop 4) := by
    apply UInt32.toNat_inj.mp
    simp [value]
  rw [packU64, top, bottom, packU32_unpack (by omega),
    packU32_unpack (by rw [List.length_drop]; omega), ← List.take_add]

/-! ## Reads that know where the input ends -/

/-- A read at an index; `none` is one behind the end. -/
def byteAt (bytes : Bytes) (i : Nat) : Option UInt8 := bytes[i]?

def u16At (bytes : Bytes) (off : Nat) : Option UInt16 := do
  let b0 ← byteAt bytes off
  let b1 ← byteAt bytes (off + 1)
  pure (unpackU16 [b0, b1])

def u32At (bytes : Bytes) (off : Nat) : Option UInt32 := do
  let b0 ← byteAt bytes off
  let b1 ← byteAt bytes (off + 1)
  let b2 ← byteAt bytes (off + 2)
  let b3 ← byteAt bytes (off + 3)
  pure (unpackU32 [b0, b1, b2, b3])

/-- The bytes of a range; `none` if it reaches behind the end. -/
def rangeAt (bytes : Bytes) (off len : Nat) : Option Bytes :=
  if off + len ≤ bytes.length then some ((bytes.drop off).take len) else none

/-- `(len > 0) ? in + off : NULL`, with the bytes it points to. -/
def pointerAt (bytes : Bytes) (off len : Nat) : Option (Option Bytes) :=
  if len > 0 then (rangeAt bytes off len).map some else some none

theorem byteAt_eq {bytes : Bytes} {i : Nat} (inside : i < bytes.length) :
    byteAt bytes i = some (bytes.getD i 0) := by
  rw [byteAt, List.getD_eq_getElem _ _ inside, List.getElem?_eq_getElem inside]

theorem byteAt_drop (bytes : Bytes) (off i : Nat) : byteAt bytes (off + i) = (bytes.drop off)[i]? := by
  rw [byteAt, List.getElem?_drop]

theorem u16At_eq {bytes : Bytes} {off : Nat} (inside : off + 2 ≤ bytes.length) :
    u16At bytes off = some (unpackU16 (bytes.drop off)) := by
  have long : 2 ≤ (bytes.drop off).length := by
    rw [List.length_drop]
    omega
  have first := byteAt_drop bytes off 0
  have second := byteAt_drop bytes off 1
  match shape : bytes.drop off, long with
  | b0 :: b1 :: rest, _ =>
    rw [shape] at first second
    simp only [Nat.add_zero] at first
    rw [u16At, first, second]
    rfl

theorem u32At_eq {bytes : Bytes} {off : Nat} (inside : off + 4 ≤ bytes.length) :
    u32At bytes off = some (unpackU32 (bytes.drop off)) := by
  have long : 4 ≤ (bytes.drop off).length := by
    rw [List.length_drop]
    omega
  have first := byteAt_drop bytes off 0
  have others := byteAt_drop bytes off
  match shape : bytes.drop off, long with
  | b0 :: b1 :: b2 :: b3 :: rest, _ =>
    rw [shape] at first others
    simp only [Nat.add_zero] at first
    rw [u32At, first, others 1, others 2, others 3]
    rfl

theorem rangeAt_eq {bytes : Bytes} {off len : Nat} (inside : off + len ≤ bytes.length) :
    rangeAt bytes off len = some ((bytes.drop off).take len) := if_pos inside

theorem pointerAt_eq {bytes : Bytes} {off len : Nat} (inside : off + len ≤ bytes.length) :
    pointerAt bytes off len = some (if len > 0 then some ((bytes.drop off).take len) else none) := by
  rw [pointerAt, rangeAt_eq inside]
  split <;> rfl

/-! ## Pointers with a length -/

/-- The first `len` octets behind a pointer. -/
def octets (p : Option Bytes) (len : Nat) : Bytes := (p.getD []).take len

/-- The pointer to them that an unpacked message has. -/
def received (p : Option Bytes) (len : Nat) : Option Bytes := if len > 0 then some (octets p len) else none

section Held
variable {p : Option Bytes} {len : Nat} (held : len ≤ (p.getD []).length)
include held

theorem length_octets : (octets p len).length = len := by
  rw [octets, List.length_take, Nat.min_eq_left held]

/-- A check for `NULL` with a length above zero passes. -/
theorem null_unchecked {positive : Bool} (means : positive = true → 0 < len) :
    ¬ (positive && p.isNone) = true := by
  rw [Bool.and_eq_true]
  intro both
  cases p with
  | some bytes => cases both.2
  | none => exact absurd (means both.1) (Nat.not_lt.mpr held)

theorem octets_received : octets (received p len) len = octets p len := by
  rw [received]
  split
  next => rw [octets, Option.getD_some, List.take_of_length_le (Nat.le_of_eq (length_octets held))]
  next zero => rw [Nat.eq_zero_of_not_pos zero, octets, octets, List.take_zero, List.take_zero]

end Held

end SecureLink.Source.Wire
