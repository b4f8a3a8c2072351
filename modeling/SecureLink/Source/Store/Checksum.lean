import SecureLink.Library.ShiftRegister
import SecureLink.Source.Store.Codec

/-!
# The checksum detects short bursts

The table of src/sl_crc32.c:6-16 holds eight shifts of a register for each octet, so a step of
`sl_crc32c_update` adds the octet to the register and shifts it out. A change of up to four
octets in a row, which is as wide as the register, cannot go unnoticed: it leads to another
state, and the octets behind it keep the states apart.
-/
namespace SecureLink.Source.Store
open Library.BigEndian Library.ShiftRegister

def crcPoly : BitVec 32 := 0x82F63B78#32

def crcSymbol (b : UInt8) : BitVec 32 := b.toUInt32.toBitVec

theorem crcSymbol_toNat (b : UInt8) : (crcSymbol b).toNat = b.toNat := by
  simp [crcSymbol]

theorem crcSymbol_injective : Function.Injective crcSymbol := by
  intro a b same
  apply UInt8.toNat_inj.mp
  rw [← crcSymbol_toNat, same, crcSymbol_toNat]

theorem crcSymbol_small (data : Bytes) : ∀ x ∈ data.map crcSymbol, x.toNat < 2 ^ 8 := by
  intro x member
  obtain ⟨b, -, rfl⟩ := List.mem_map.mp member
  rw [crcSymbol_toNat]
  exact b.toNat_lt

theorem slCrc32cTable_toBitVec (i : UInt32) :
    (slCrc32cTable i).toBitVec = shifts crcPoly 8 i.toBitVec := by
  have bit : Function.Semiconj UInt32.toBitVec
      (fun c => if c &&& 1 ≠ 0 then (0x82F63B78 : UInt32) ^^^ (c >>> 1) else c >>> 1)
      (shift crcPoly) := by
    intro c
    have value : (c &&& 1).toNat = c.toNat % 2 := Nat.and_two_pow_sub_one_eq_mod c.toNat 1
    have low : (c &&& 1 ≠ 0) ↔ c.toBitVec.getLsbD 0 = true := by
      rw [ne_eq, ← UInt32.toNat_inj, value, BitVec.getLsbD, Nat.testBit_zero]
      simp
    change (if c &&& 1 ≠ 0 then _ else _ : UInt32).toBitVec = _
    unfold shift
    by_cases set : c &&& 1 ≠ 0
    · rw [if_pos set, if_pos (low.mp set)]
      rfl
    · rw [if_neg set, if_neg fun bit => set (low.mpr bit)]
      rfl
  unfold slCrc32cTable
  rw [List.foldl_const]
  exact bit.iterate_right 8 i

/-- One step of the update: the table word is what the low octet leaves behind. -/
theorem crcStep_toBitVec (crc : UInt32) (b : UInt8) :
    (slCrc32cTable ((crc ^^^ b.toUInt32) &&& 0xFF) ^^^ (crc >>> 8)).toBitVec =
      shifts crcPoly 8 (crc.toBitVec ^^^ crcSymbol b) := by
  have low : ((crc ^^^ b.toUInt32) &&& 0xFF).toBitVec.toNat =
      (crc.toBitVec ^^^ crcSymbol b).toNat % 2 ^ 8 :=
    Nat.and_two_pow_sub_one_eq_mod (crc.toBitVec ^^^ crcSymbol b).toNat 8
  have above : crcSymbol b >>> 8 = 0#32 := by
    apply BitVec.eq_of_toNat_eq
    rw [BitVec.toNat_ushiftRight, crcSymbol_toNat, Nat.shiftRight_eq_div_pow]
    exact Nat.div_eq_of_lt b.toNat_lt
  rw [UInt32.toBitVec_xor, slCrc32cTable_toBitVec, shifts_low crcPoly low,
    BitVec.ushiftRight_xor_distrib, above, BitVec.xor_zero]
  rfl

theorem slCrc32cUpdate_toBitVec (crc : UInt32) (data : Bytes) :
    (slCrc32cUpdate crc data).toBitVec = absorb crcPoly 8 crc.toBitVec (data.map crcSymbol) := by
  induction data generalizing crc with
  | nil => rfl
  | cons b rest ih =>
    have next := ih (slCrc32cTable ((crc ^^^ b.toUInt32) &&& 0xFF) ^^^ (crc >>> 8))
    rw [crcStep_toBitVec] at next
    exact next

theorem slCrc32cUpdate_append (crc : UInt32) (first second : Bytes) :
    slCrc32cUpdate crc (first ++ second) = slCrc32cUpdate (slCrc32cUpdate crc first) second :=
  List.foldl_append

theorem slCrc32cUpdate_injective {a b : UInt32} {data : Bytes}
    (same : slCrc32cUpdate a data = slCrc32cUpdate b data) : a = b := by
  have top : crcPoly.msb = true := by decide
  apply UInt32.toBitVec_inj.mp
  apply absorb_injective top 8 (data.map crcSymbol)
  rw [← slCrc32cUpdate_toBitVec, same, slCrc32cUpdate_toBitVec]

theorem slCrc32cUpdate_burst {crc : UInt32} {first second : Bytes}
    (length : first.length = second.length) (short : first.length ≤ 4)
    (same : slCrc32cUpdate crc first = slCrc32cUpdate crc second) : first = second := by
  have top : crcPoly.msb = true := by decide
  have small : ∀ x ∈ first.map crcSymbol ++ second.map crcSymbol, x.toNat < 2 ^ 8 := by
    rw [← List.map_append]
    exact crcSymbol_small (first ++ second)
  have states := congrArg UInt32.toBitVec same
  rw [slCrc32cUpdate_toBitVec, slCrc32cUpdate_toBitVec] at states
  apply List.map_injective_iff.mpr crcSymbol_injective
  apply absorb_burst top (by simpa using length) small _ states
  rw [List.length_map]
  omega

/-- Two strings that differ in up to four octets in a row have different checksums. -/
theorem slCrc32cUpdate_detects {before first second after : Bytes}
    (length : first.length = second.length) (short : first.length ≤ 4) {crc : UInt32}
    (same : slCrc32cUpdate crc (before ++ (first ++ after)) =
      slCrc32cUpdate crc (before ++ (second ++ after))) : first = second := by
  simp only [slCrc32cUpdate_append] at same
  exact slCrc32cUpdate_burst length short (slCrc32cUpdate_injective same)

end SecureLink.Source.Store
