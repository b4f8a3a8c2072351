import SecureLink.Library.BigEndian

/-!
# Handshake message framing

inc/sl_handshake_msg.h and src/sl_handshake_msg.c: the message type byte, the
4-byte header (type, 24-bit length) and the fixed-size hello body. NULL-pointer
guards are not represented; a missing result is `none` where the source returns -1.
-/
namespace SecureLink.Source.Handshake
open Library.BigEndian

def slHsHeaderLen : Nat := 4
def slHsRandomLen : Nat := 32
def slHsMaxPayload : Nat := 2048
def slEcdhPubkeyLen : Nat := 65
def slHsHelloBodyLen : Nat := slHsRandomLen + slEcdhPubkeyLen + 2
def slHsCipherAes256Gcm : Nat := 0x0001

/-- `sl_hs_type_t`. The wire byte is cast without a check, so any further value
can appear and is kept. -/
inductive HsType where
  | invalid | clientHello | serverHello | certificate | certVerify | finished
  | other (code : UInt8) (unnamed : 5 < code)
  deriving DecidableEq, Repr

def HsType.toByte : HsType → UInt8
  | .invalid => 0
  | .clientHello => 1
  | .serverHello => 2
  | .certificate => 3
  | .certVerify => 4
  | .finished => 5
  | .other code _ => code

/-- The cast `(sl_hs_type_t)in[0]`. -/
def HsType.ofByte (b : UInt8) : HsType :=
  if h : 5 < b then .other b h
  else if b = 0 then .invalid
  else if b = 1 then .clientHello
  else if b = 2 then .serverHello
  else if b = 3 then .certificate
  else if b = 4 then .certVerify
  else .finished

@[simp] theorem HsType.ofByte_toByte (type : HsType) : HsType.ofByte type.toByte = type := by
  cases type with
  | other code h => simp [HsType.toByte, HsType.ofByte, h]
  | _ => decide

@[simp] theorem HsType.toByte_ofByte (b : UInt8) : (HsType.ofByte b).toByte = b := by
  by_cases unnamed : 5 < b
  · simp [HsType.ofByte, unnamed, HsType.toByte]
  · have named : b = 0 ∨ b = 1 ∨ b = 2 ∨ b = 3 ∨ b = 4 ∨ b = 5 := by
      rw [UInt8.not_lt, UInt8.le_iff_toNat_le] at unnamed
      simp only [← UInt8.toNat_inj] at unnamed ⊢
      simp only [UInt8.reduceToNat] at unnamed ⊢
      omega
    rcases named with rfl | rfl | rfl | rfl | rfl | rfl <;> rfl

/-- `sl_hs_pack_header`: refuses lengths that do not fit in 24 bits. -/
def slHsPackHeader (type : HsType) (payloadLen : Nat) : Option Bytes :=
  if payloadLen > 0xFFFFFF then none
  else some [type.toByte, UInt8.ofNat (payloadLen >>> 16 &&& 0xFF),
    UInt8.ofNat (payloadLen >>> 8 &&& 0xFF), UInt8.ofNat (payloadLen &&& 0xFF)]

/-- `sl_hs_unpack_header` on the first four bytes; only the length is checked. -/
def slHsUnpackHeader : Bytes → Option (HsType × Nat)
  | b0 :: b1 :: b2 :: b3 :: _ =>
    let payloadLen := (b1.toNat <<< 16) ||| (b2.toNat <<< 8) ||| b3.toNat
    if payloadLen > slHsMaxPayload then none
    else some (HsType.ofByte b0, payloadLen)
  | _ => none

/-- The four header bytes for a length that fits. -/
def header (type : HsType) (payloadLen : Nat) : Bytes :=
  type.toByte :: encode 3 payloadLen

theorem slHsPackHeader_eq (type : HsType) (payloadLen : Nat) (fits : payloadLen ≤ 0xFFFFFF) :
    slHsPackHeader type payloadLen = some (header type payloadLen) := by
  have mask : ∀ n : Nat, UInt8.ofNat (n &&& 0xFF) = UInt8.ofNat n := by
    intro n
    apply UInt8.toNat_inj.mp
    simp only [UInt8.toNat_ofNat', Nat.and_two_pow_sub_one_eq_mod n 8, Nat.mod_mod]
  simp only [slHsPackHeader, if_neg (Nat.not_lt.mpr fits), header, encode, mask,
    Nat.shiftRight_eq_div_pow]
  norm_num

/-- The three length bytes, read by shifts, are the positional value. -/
theorem length_bytes (b1 b2 b3 : UInt8) :
    (b1.toNat <<< 16) ||| (b2.toNat <<< 8) ||| b3.toNat = decode [b1, b2, b3] := by
  have h2 := b2.toNat_lt
  have h3 := b3.toNat_lt
  have low : (b2.toNat <<< 8) ||| b3.toNat = b2.toNat * 256 + b3.toNat := by
    rw [← Nat.shiftLeft_add_eq_or_of_lt (by simpa using h3), Nat.shiftLeft_eq]
  rw [Nat.or_assoc, low, ← Nat.shiftLeft_add_eq_or_of_lt (by omega), Nat.shiftLeft_eq]
  simp only [decode, List.foldl_cons, List.foldl_nil]
  omega

/-- Unpacking what pack wrote, with any bytes behind it. -/
theorem slHsUnpackHeader_header (type : HsType) (payloadLen : Nat) (rest : Bytes)
    (fits : payloadLen ≤ slHsMaxPayload) :
    slHsUnpackHeader (header type payloadLen ++ rest) = some (type, payloadLen) := by
  have small : payloadLen < 256 ^ 3 := Nat.lt_of_le_of_lt fits (by decide)
  have value := decode_encode 3 payloadLen
  rw [Nat.mod_eq_of_lt small] at value
  simp only [encode] at value
  simp only [header, encode, List.cons_append, List.nil_append, slHsUnpackHeader, length_bytes,
    value, if_neg (Nat.not_lt.mpr fits), HsType.ofByte_toByte]

/-- Conversely, unpacking succeeds only on the bytes pack writes. -/
theorem slHsUnpackHeader_inv {bytes : Bytes} {type : HsType} {payloadLen : Nat}
    (h : slHsUnpackHeader bytes = some (type, payloadLen)) :
    payloadLen ≤ slHsMaxPayload ∧ bytes.take slHsHeaderLen = header type payloadLen := by
  unfold slHsUnpackHeader at h
  split at h
  next b0 b1 b2 b3 rest =>
    dsimp only at h
    split at h
    · cases h
    next bound =>
      simp only [Option.some.injEq, Prod.mk.injEq, length_bytes] at h bound
      obtain ⟨rfl, rfl⟩ := h
      refine ⟨Nat.not_lt.mp bound, ?_⟩
      have inverse := encode_decode [b1, b2, b3]
      simp only [List.length_cons, List.length_nil, Nat.zero_add, Nat.reduceAdd] at inverse
      simp [header, inverse, slHsHeaderLen]
  · cases h

structure SlHsHello where
  random : Bytes
  ecdhPub : Bytes
  cipher : Nat
  deriving DecidableEq, Repr

/-- `sl_hs_pack_hello` into a buffer of `cap` bytes. -/
def slHsPackHello (h : SlHsHello) (cap : Nat) : Option Bytes :=
  if cap < slHsHelloBodyLen then none
  else some (h.random ++ h.ecdhPub ++
    [UInt8.ofNat (h.cipher >>> 8), UInt8.ofNat (h.cipher &&& 0xFF)])

/-- `sl_hs_unpack_hello`: the length must be exact. -/
def slHsUnpackHello (body : Bytes) : Option SlHsHello :=
  if body.length ≠ slHsHelloBodyLen then none
  else
    let tail := body.drop (slHsRandomLen + slEcdhPubkeyLen)
    some {
      random := body.take slHsRandomLen
      ecdhPub := (body.drop slHsRandomLen).take slEcdhPubkeyLen
      cipher := (tail.getD 0 0).toNat <<< 8 ||| (tail.getD 1 0).toNat }

end SecureLink.Source.Handshake
