import Mathlib.Data.List.GetD
import SecureLink.Library.Pieces
import SecureLink.Source.Store.Codec

/-!
# Variable-length numbers

The writer, the size predictor and the reader of src/sl_varint.c are three loops over the same
digits. What is written is read back behind anything, so a sequence of numbers needs no
separators. In the other direction the reader bounds the number of octets and not the value: of
the last octet of ten only one bit is left.
-/
namespace SecureLink.Guarantees.VarintCodec
open Library.BigEndian Library.Varint Library.Pieces Source.Store

/-! ## From a number to octets and back -/

theorem size_le_ten (v : UInt64) : slVarintSizeU64 v.toNat ≤ 10 :=
  slVarintSizeU64_le (Nat.lt_of_lt_of_le v.toNat_lt (by decide))

/-- What is written is read back, whatever follows it. -/
theorem decode_written {v : UInt64} {outCap : Nat} {bytes : Bytes}
    (written : slVarintEncodeU64 v.toNat outCap = some bytes) (rest : Bytes) :
    slVarintDecodeU64 (bytes ++ rest) = some (v.toNat, bytes.length) := by
  obtain ⟨spells, length⟩ := slVarintEncodeU64_written written
  exact slVarintDecodeU64_spells spells rest (by rw [length]; exact size_le_ten v) v.toNat_lt

theorem decode_cut {v : UInt64} {outCap : Nat} {bytes cut : Bytes}
    (written : slVarintEncodeU64 v.toNat outCap = some bytes) (front : cut <+: bytes)
    (strict : cut ≠ bytes) : slVarintDecodeU64 cut = none := by
  have shorter : cut.length < bytes.length :=
    Nat.lt_of_le_of_ne front.length_le fun same => strict (front.eq_of_length same)
  rw [List.prefix_iff_eq_take.mp front]
  exact slVarintDecodeU64_cut (slVarintEncodeU64_written written).1 shorter

/-! ## Sequences -/

/-- The octets of a number, with room for all of them. -/
def encoding (v : UInt64) : Bytes := (slVarintEncodeU64 v.toNat slVarintMaxLen).getD []

/-- One number off the front. -/
def frontNumber (input : Bytes) : Option (UInt64 × Bytes) :=
  (slVarintDecodeU64 input).map fun read => (UInt64.ofNat read.1, input.drop read.2)

theorem encoding_written (v : UInt64) :
    slVarintEncodeU64 v.toNat slVarintMaxLen = some (encoding v) := by
  obtain ⟨bytes, written⟩ := Option.isSome_iff_exists.mp
    ((slVarintEncodeU64_isSome v.toNat slVarintMaxLen).mpr (size_le_ten v))
  rw [encoding, written, Option.getD_some]

/-- The room does not matter once there is enough. -/
theorem written_eq_encoding {v : UInt64} {outCap : Nat} {bytes : Bytes}
    (written : slVarintEncodeU64 v.toNat outCap = some bytes) : bytes = encoding v := by
  have large := slVarintEncodeU64_room written slVarintMaxLen
  rw [Nat.add_comm, slVarintEncodeU64_room (encoding_written v)] at large
  exact (Option.some.inj large).symm

theorem frontNumber_encoding (v : UInt64) (rest : Bytes) :
    frontNumber (encoding v ++ rest) = some (v, rest) := by
  rw [frontNumber, decode_written (encoding_written v), Option.map_some, UInt64.ofNat_toNat,
    List.drop_left]

theorem frontNumber_shortens : Shortens frontNumber := by
  intro input v rest read
  obtain ⟨⟨w, n⟩, decoded, same⟩ := Option.map_eq_some_iff.mp read
  obtain ⟨bytes, behind, _, rfl, spells, rfl, _⟩ := slVarintDecodeU64_read decoded
  have positive := spells.length_pos
  cases same
  rw [List.drop_left, List.length_append]
  omega

/-- For every number, every capacity and every following octets: how many octets are written and
when, that they are read back, and that nothing shorter is. A concatenation of numbers is read
back too, and determines them. -/
theorem varint_round_trip :
    (∀ (v : UInt64) (outCap : Nat),
      1 ≤ slVarintSizeU64 v.toNat ∧ slVarintSizeU64 v.toNat ≤ 10 ∧
      ((slVarintEncodeU64 v.toNat outCap).isSome = true ↔ slVarintSizeU64 v.toNat ≤ outCap) ∧
      ∀ bytes, slVarintEncodeU64 v.toNat outCap = some bytes →
        bytes = encoding v ∧ bytes.length = slVarintSizeU64 v.toNat ∧
        (∀ rest, slVarintDecodeU64 (bytes ++ rest) = some (v.toNat, bytes.length)) ∧
        ∀ cut, cut <+: bytes → cut ≠ bytes → slVarintDecodeU64 cut = none) ∧
    ∀ vs : List UInt64, parse frontNumber (vs.flatMap encoding) = (vs, []) ∧
      ∀ vs' : List UInt64, vs'.flatMap encoding = vs.flatMap encoding → vs' = vs := by
  have refused := front_nil frontNumber_shortens
  constructor
  · intro v outCap
    refine ⟨slVarintSizeU64_pos _, size_le_ten v, slVarintEncodeU64_isSome _ _, ?_⟩
    intro bytes written
    exact ⟨written_eq_encoding written, (slVarintEncodeU64_written written).2, decode_written written,
      fun cut front strict => decode_cut written front strict⟩
  · intro vs
    constructor
    · have read := parse_flatMap frontNumber_shortens frontNumber_encoding vs []
      rwa [List.append_nil, parse_refused refused, List.append_nil] at read
    · intro vs' same
      have split : vs'.flatMap encoding ++ [] = vs.flatMap encoding ++ [] := by rw [same]
      exact (flatMap_injective frontNumber_shortens frontNumber_encoding refused refused split).1

/-! ## From octets to a number -/

/-- The value of the first octets, seven bits each. -/
def valueOf (input : Bytes) (n : Nat) : Nat :=
  ∑ i ∈ Finset.range n, (input.getD i 0).toNat % 128 * 128 ^ i

theorem valueOf_append {bytes : Bytes} {w : Nat} (spells : Spells bytes w) (rest : Bytes) :
    valueOf (bytes ++ rest) bytes.length = w := by
  rw [spells.value, valueOf]
  refine Finset.sum_congr rfl fun i inside => ?_
  rw [List.getD_append _ _ _ _ (Finset.mem_range.mp inside)]

theorem valueOf_lt (input : Bytes) (n : Nat) : valueOf input n < 128 ^ n := by
  induction n with
  | zero => exact Nat.one_pos
  | succ n ih =>
    have digit : (input.getD n 0).toNat % 128 ≤ 127 := Nat.le_of_lt_succ (Nat.mod_lt _ (by decide))
    have top := Nat.mul_le_mul_right (128 ^ n) digit
    rw [valueOf, Finset.sum_range_succ, Nat.pow_succ]
    rw [valueOf] at ih
    omega

/-- Nine octets stay below the word; a tenth has one bit left. -/
theorem valueOf_ten_lt_iff (input : Bytes) (last : (input.getD 9 0).toNat < 128) :
    valueOf input 10 < 2 ^ 64 ↔ (input.getD 9 0).toNat ≤ 1 := by
  have nine := valueOf_lt input 9
  have split : valueOf input 10 = valueOf input 9 + (input.getD 9 0).toNat * 128 ^ 9 := by
    rw [valueOf, Finset.sum_range_succ, Nat.mod_eq_of_lt last, valueOf]
  rw [split]
  omega

/-- A number of at most ten octets has ten exactly if nine continue. -/
theorem length_eq_ten_iff {bytes : Bytes} {w : Nat} (spells : Spells bytes w)
    (short : bytes.length ≤ slVarintMaxLen) (rest : Bytes) :
    bytes.length = 10 ↔ ∀ i < 9, 128 ≤ ((bytes ++ rest).getD i 0).toNat := by
  constructor
  · intro ten i below
    rw [List.getD_append _ _ _ _ (by omega), List.getD_eq_getElem _ _ (by omega)]
    apply spells.continues (n := 9) (by omega)
    exact List.mem_take_iff_getElem.mpr ⟨i, by omega, rfl⟩
  · intro continues
    have positive := spells.length_pos
    have limit : slVarintMaxLen = 10 := rfl
    by_contra fewer
    have high := continues (bytes.length - 1) (by omega)
    rw [List.getD_append _ _ _ _ (by omega)] at high
    exact Nat.not_lt.mpr high spells.last_lt

/-- What is read is the value of the octets, and that fits 64 bits, exactly if a tenth octet, which
is read if nine continue, is at most 1. -/
theorem varint_exact_iff (input : Bytes) (v n : Nat) (read : slVarintDecodeU64 input = some (v, n)) :
    (v = valueOf input n ∧ valueOf input n < 2 ^ 64) ↔
      ((∀ i < 9, 128 ≤ (input.getD i 0).toNat) → (input.getD 9 0).toNat ≤ 1) := by
  obtain ⟨bytes, rest, w, rfl, spells, rfl, short, rfl⟩ := slVarintDecodeU64_read read
  have value := valueOf_append spells rest
  have whole : (w % 2 ^ 64 = w ∧ w < 2 ^ 64) ↔ w < 2 ^ 64 :=
    and_iff_right_of_imp Nat.mod_eq_of_lt
  rw [value, whole, ← value, ← length_eq_ten_iff spells short]
  by_cases ten : bytes.length = 10
  · have last := spells.last_lt
    rw [ten] at last
    rw [← List.getD_append bytes rest 0 9 (by omega)] at last
    rw [ten, valueOf_ten_lt_iff _ last]
    exact ⟨fun small _ => small, fun small => small rfl⟩
  · have fewer : bytes.length ≤ 9 := by
      have limit : slVarintMaxLen = 10 := rfl
      omega
    have small := valueOf_lt (bytes ++ rest) bytes.length
    have power : 128 ^ bytes.length ≤ 128 ^ 9 := Nat.pow_le_pow_right (by decide) fewer
    exact iff_of_true (by omega) (fun is => absurd is ten)

/-- The largest power of two that fits. -/
theorem top_bit_read :
    slVarintDecodeU64 (List.replicate 9 0x80 ++ [1]) = some (2 ^ 63, 10) ∧
      2 ^ 63 = valueOf (List.replicate 9 0x80 ++ [1]) 10 := by
  have read : slVarintDecodeU64 (List.replicate 9 0x80 ++ [1]) = some (2 ^ 63, 10) := by decide
  exact ⟨read, ((varint_exact_iff _ _ _ read).mpr fun _ => by decide).1⟩

/-- Twice as much is read as 0. -/
theorem next_bit_lost :
    slVarintDecodeU64 (List.replicate 9 0x80 ++ [2]) = some (0, 10) ∧
      valueOf (List.replicate 9 0x80 ++ [2]) 10 = 2 ^ 64 := by
  decide

end SecureLink.Guarantees.VarintCodec
