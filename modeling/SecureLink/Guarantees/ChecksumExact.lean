import SecureLink.Source.Store.Checksum

/-!
# The checksum is CRC-32C

src/sl_crc32.c looks up eight steps of the register in a table. Its result is that of the
register fed with one bit at a time, lowest bit of every octet first; the data may come in
any pieces; and as the register is linear, the checksum of an exclusive or of three strings
is that of their checksums.
-/
namespace SecureLink.Guarantees.ChecksumExact
open Library.BigEndian Library.ShiftRegister Source.Store

/-- The bits of the data in the order of a reflected CRC. -/
def messageBits (data : Bytes) : List Bool :=
  data.flatMap fun b => (List.range 8).map b.toNat.testBit

/-- CRC-32C, one bit at a time. -/
def bitSerialCrc (data : Bytes) : UInt32 :=
  ⟨(messageBits data).foldl (feed 0x82F63B78#32) 0xFFFFFFFF#32 ^^^ 0xFFFFFFFF#32⟩

/-- Octet by octet. -/
def xorBytes (x y : Bytes) : Bytes := List.zipWith (· ^^^ ·) x y

theorem crcSymbol_lowBits (b : UInt8) : lowBits (crcSymbol b) 8 = (List.range 8).map b.toNat.testBit := by
  apply List.map_congr_left
  intro i _
  rw [BitVec.getLsbD, crcSymbol_toNat]

theorem slCrc32c_bitSerial (data : Bytes) : slCrc32c data = bitSerialCrc data := by
  apply UInt32.toBitVec_inj.mp
  have bits : (data.map crcSymbol).flatMap (fun x => lowBits x 8) = messageBits data := by
    rw [List.flatMap_map, messageBits]
    simp only [crcSymbol_lowBits]
  have register := slCrc32cUpdate_toBitVec slCrc32cInit data
  rw [absorb_feed crcPoly (crcSymbol_small data), bits] at register
  rw [slCrc32c, slCrc32cFinalize, UInt32.toBitVec_xor, register]
  rfl

theorem slCrc32cUpdate_pieces (crc : UInt32) (pieces : List Bytes) :
    pieces.foldl slCrc32cUpdate crc = slCrc32cUpdate crc pieces.flatten := by
  induction pieces generalizing crc with
  | nil => rfl
  | cons piece rest ih => rw [List.foldl_cons, ih, List.flatten_cons, slCrc32cUpdate_append]

theorem slCrc32cUpdate_xor (a b : UInt32) {x y : Bytes} (length : x.length = y.length) :
    slCrc32cUpdate (a ^^^ b) (xorBytes x y) = slCrc32cUpdate a x ^^^ slCrc32cUpdate b y := by
  have symbols : (xorBytes x y).map crcSymbol =
      List.zipWith (· ^^^ ·) (x.map crcSymbol) (y.map crcSymbol) := by
    rw [xorBytes, List.map_zipWith, List.zipWith_map]
    rfl
  have lengths : (x.map crcSymbol).length = (y.map crcSymbol).length := by
    rw [List.length_map, List.length_map, length]
  apply UInt32.toBitVec_inj.mp
  rw [slCrc32cUpdate_toBitVec, symbols, UInt32.toBitVec_xor, absorb_xor crcPoly 8 lengths,
    UInt32.toBitVec_xor, slCrc32cUpdate_toBitVec, slCrc32cUpdate_toBitVec]

theorem slCrc32c_affine {x y z : Bytes} (xy : x.length = y.length) (yz : y.length = z.length) :
    slCrc32c (xorBytes (xorBytes x y) z) = slCrc32c x ^^^ slCrc32c y ^^^ slCrc32c z := by
  have start : slCrc32cInit = slCrc32cInit ^^^ slCrc32cInit ^^^ slCrc32cInit := by decide
  have width : (xorBytes x y).length = z.length := by
    rw [xorBytes, List.length_zipWith]
    omega
  have register : slCrc32cUpdate slCrc32cInit (xorBytes (xorBytes x y) z) =
      slCrc32cUpdate slCrc32cInit x ^^^ slCrc32cUpdate slCrc32cInit y ^^^
        slCrc32cUpdate slCrc32cInit z := by
    rw [← slCrc32cUpdate_xor _ _ xy, ← slCrc32cUpdate_xor _ _ width, ← start]
  have inverted (a b c m : UInt32) : a ^^^ b ^^^ c ^^^ m = a ^^^ m ^^^ (b ^^^ m) ^^^ (c ^^^ m) := by
    have twice : m ^^^ m ^^^ m = m := by rw [UInt32.xor_self, UInt32.zero_xor]
    calc a ^^^ b ^^^ c ^^^ m = a ^^^ b ^^^ c ^^^ (m ^^^ m ^^^ m) := by rw [twice]
      _ = a ^^^ m ^^^ (b ^^^ m) ^^^ (c ^^^ m) := by ac_rfl
  rw [slCrc32c, slCrc32cFinalize, register]
  exact inverted _ _ _ _

/-- The table-driven checksum is the bit-serial one, in any pieces, and affine. -/
theorem crc32c_exact :
    (∀ data : Bytes, slCrc32c data = bitSerialCrc data) ∧
    (∀ (crc : UInt32) (pieces : List Bytes),
      pieces.foldl slCrc32cUpdate crc = slCrc32cUpdate crc pieces.flatten) ∧
    (∀ n (x y z : FixedBytes n),
      slCrc32c (xorBytes (xorBytes x.1 y.1) z.1) = slCrc32c x.1 ^^^ slCrc32c y.1 ^^^ slCrc32c z.1) :=
  ⟨slCrc32c_bitSerial, slCrc32cUpdate_pieces,
    fun _ x y z => slCrc32c_affine (x.2.trans y.2.symm) (y.2.trans z.2.symm)⟩

/-- The check value of CRC-32C, the checksum of the digits one to nine. -/
example : bitSerialCrc (ascii "123456789") = 0xE3069283 := by decide +kernel

end SecureLink.Guarantees.ChecksumExact
