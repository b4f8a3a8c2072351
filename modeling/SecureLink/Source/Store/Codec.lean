import SecureLink.Library.BigEndian
import SecureLink.Library.Varint

/-!
# Variable-length numbers and the record checksum

src/sl_varint.c:3-37 and src/sl_crc32.c:6-39. A 64-bit number is a `Nat` below 2^64; the table of
the checksum is a function of its index.
-/
namespace SecureLink.Source.Store
open Library.BigEndian Library.Varint

def slVarintMaxLen : Nat := 10

/-- The loop of the size predictor. -/
def slVarintSizeLoop (v n : Nat) : Nat :=
  if v ≥ 0x80 then slVarintSizeLoop (v >>> 7) (n + 1) else n
termination_by v
decreasing_by
  rw [Nat.shiftRight_eq_div_pow]
  omega

def slVarintSizeU64 (v : Nat) : Nat := slVarintSizeLoop v 1

/-- The octets written into a buffer of the given capacity; `none` is the return value -1. -/
def slVarintEncodeU64 (v : Nat) : Nat → Option Bytes
  | 0 => none
  | outCap + 1 =>
    if v ≥ 0x80 then
      (slVarintEncodeU64 (v >>> 7) outCap).map (UInt8.ofNat (v ||| 0x80) :: ·)
    else some [UInt8.ofNat v]

/-- The loop of the reader from index `i` on. -/
def slVarintDecodeLoop : Bytes → Nat → Nat → Nat → Option (Nat × Nat)
  | [], _, _, _ => none
  | b :: rest, i, result, shift =>
    if slVarintMaxLen ≤ i then none
    else
      let result := result ||| (((b.toNat &&& 0x7F) <<< shift) % 2 ^ 64)
      if b.toNat &&& 0x80 = 0 then some (result, i + 1)
      else if shift + 7 > 63 then none
      else slVarintDecodeLoop rest (i + 1) result (shift + 7)

/-- The number read and how many octets it took; `none` is the return value -1. -/
def slVarintDecodeU64 (input : Bytes) : Option (Nat × Nat) :=
  slVarintDecodeLoop input 0 0 0

def slCrc32cTable (i : UInt32) : UInt32 :=
  (List.range 8).foldl
    (fun c _ => if c &&& 1 ≠ 0 then (0x82F63B78 : UInt32) ^^^ (c >>> 1) else c >>> 1) i

def slCrc32cInit : UInt32 := 0xFFFFFFFF

def slCrc32cUpdate (crc : UInt32) (data : Bytes) : UInt32 :=
  data.foldl (fun crc b => slCrc32cTable ((crc ^^^ b.toUInt32) &&& 0xFF) ^^^ (crc >>> 8)) crc

def slCrc32cFinalize (crc : UInt32) : UInt32 := crc ^^^ 0xFFFFFFFF

def slCrc32c (data : Bytes) : UInt32 := slCrc32cFinalize (slCrc32cUpdate slCrc32cInit data)

theorem high_bit_clear (b : UInt8) : b.toNat &&& 0x80 = 0 ↔ b.toNat < 128 := by
  have all : ∀ n < 256, n &&& 0x80 = 0 ↔ n < 128 := by decide +kernel
  exact all _ b.toNat_lt

theorem low_bits (b : UInt8) : b.toNat &&& 0x7F = b.toNat % 128 :=
  Nat.and_two_pow_sub_one_eq_mod b.toNat 7

/-- The continuation octet the writer emits. -/
theorem continuation_octet (v : Nat) : (UInt8.ofNat (v ||| 0x80)).toNat = v % 128 + 128 := by
  have all : ∀ n < 256, n ||| 0x80 = n % 128 + 128 := by decide +kernel
  have low : (v ||| 0x80) % 2 ^ 8 = v % 256 ||| 0x80 := Nat.or_mod_two_pow
  rw [UInt8.toNat_ofNat', low, all _ (Nat.mod_lt _ (by decide))]
  omega

theorem slVarintSizeLoop_add (v n : Nat) : slVarintSizeLoop v (n + 1) = slVarintSizeLoop v n + 1 := by
  fun_induction slVarintSizeLoop v n with
  | case1 v n high ih => rw [slVarintSizeLoop, if_pos high, ih]
  | case2 v n low => rw [slVarintSizeLoop, if_neg low]

theorem slVarintSizeU64_eq (v : Nat) :
    slVarintSizeU64 v = if v ≥ 0x80 then slVarintSizeU64 (v / 128) + 1 else 1 := by
  rw [slVarintSizeU64, slVarintSizeLoop, Nat.shiftRight_eq_div_pow, slVarintSizeLoop_add,
    slVarintSizeU64]

theorem slVarintSizeU64_pos (v : Nat) : 0 < slVarintSizeU64 v := by
  rw [slVarintSizeU64_eq]
  split
  · exact Nat.succ_pos _
  · exact Nat.one_pos

theorem slVarintSizeU64_le {k v : Nat} (small : v < 128 ^ (k + 1)) : slVarintSizeU64 v ≤ k + 1 := by
  induction k generalizing v with
  | zero =>
    rw [slVarintSizeU64_eq, if_neg (by omega)]
  | succ k ih =>
    rw [slVarintSizeU64_eq]
    split
    · have fits : v / 128 < 128 ^ (k + 1) := by
        rw [Nat.div_lt_iff_lt_mul (by decide), ← Nat.pow_succ]
        exact small
      exact Nat.succ_le_succ (ih fits)
    · exact Nat.succ_le_succ (Nat.zero_le _)

/-- The number is written out in full, in as many octets as predicted. -/
theorem slVarintEncodeU64_written {v outCap : Nat} {bytes : Bytes}
    (written : slVarintEncodeU64 v outCap = some bytes) :
    Spells bytes v ∧ bytes.length = slVarintSizeU64 v := by
  induction outCap generalizing v bytes with
  | zero => cases written
  | succ outCap ih =>
    rw [slVarintSizeU64_eq]
    rw [slVarintEncodeU64, Nat.shiftRight_eq_div_pow] at written
    by_cases high : v ≥ 0x80
    · rw [if_pos high] at written ⊢
      obtain ⟨later, rest, rfl⟩ := Option.map_eq_some_iff.mp written
      obtain ⟨spells, length⟩ := ih rest
      have octet := continuation_octet v
      have value : v = (UInt8.ofNat (v ||| 0x80)).toNat % 128 + 128 * (v / 2 ^ 7) := by omega
      have whole := Spells.more (b := UInt8.ofNat (v ||| 0x80)) (by omega) spells
      rw [← value] at whole
      exact ⟨whole, by rw [List.length_cons, length]⟩
    · rw [if_neg high] at written ⊢
      cases written
      have octet : (UInt8.ofNat v).toNat = v := by
        rw [UInt8.toNat_ofNat']
        omega
      have whole := Spells.last (b := UInt8.ofNat v) (by omega)
      rw [octet] at whole
      exact ⟨whole, rfl⟩

/-- The writer fails only for want of room. -/
theorem slVarintEncodeU64_isSome (v outCap : Nat) :
    (slVarintEncodeU64 v outCap).isSome = true ↔ slVarintSizeU64 v ≤ outCap := by
  induction outCap generalizing v with
  | zero =>
    have positive := slVarintSizeU64_pos v
    exact iff_of_false Bool.false_ne_true (by omega)
  | succ outCap ih =>
    rw [slVarintEncodeU64, slVarintSizeU64_eq, Nat.shiftRight_eq_div_pow]
    by_cases high : v ≥ 0x80
    · rw [if_pos high, if_pos high, Option.isSome_map, ih, Nat.succ_le_succ_iff]
    · rw [if_neg high, if_neg high]
      exact iff_of_true rfl (Nat.succ_le_succ (Nat.zero_le _))

/-- More room changes nothing. -/
theorem slVarintEncodeU64_room {v outCap : Nat} {bytes : Bytes}
    (written : slVarintEncodeU64 v outCap = some bytes) (more : Nat) :
    slVarintEncodeU64 v (outCap + more) = some bytes := by
  induction outCap generalizing v bytes with
  | zero => cases written
  | succ outCap ih =>
    rw [Nat.succ_add, slVarintEncodeU64]
    rw [slVarintEncodeU64] at written
    by_cases high : v ≥ 0x80
    · rw [if_pos high] at written ⊢
      obtain ⟨later, rest, rfl⟩ := Option.map_eq_some_iff.mp written
      rw [ih rest, Option.map_some]
    · rw [if_neg high] at written ⊢
      exact written

/-- With ten octets of room every 64-bit number is written out in full. -/
theorem slVarintEncodeU64_spells {k v outCap : Nat} (small : v < 128 ^ k) (some_digit : 0 < k)
    (room : k ≤ outCap) :
    ∃ bytes, slVarintEncodeU64 v outCap = some bytes ∧ Spells bytes v ∧ bytes.length ≤ k := by
  obtain ⟨k, rfl⟩ : ∃ n, k = n + 1 := ⟨k - 1, by omega⟩
  have size := slVarintSizeU64_le small
  obtain ⟨bytes, written⟩ := Option.isSome_iff_exists.mp
    ((slVarintEncodeU64_isSome v outCap).mpr (Nat.le_trans size room))
  obtain ⟨spells, length⟩ := slVarintEncodeU64_written written
  exact ⟨bytes, written, spells, by rw [length]; exact size⟩

/-- One octet joins the number read so far above all its bits; what leaves 64 bits is lost. -/
theorem joined_octet {result shift digit : Nat} (below : result < 2 ^ shift) (inside : shift ≤ 64) :
    result ||| ((digit <<< shift) % 2 ^ 64) = (result + digit * 2 ^ shift) % 2 ^ 64 := by
  have word : 2 ^ 64 = 2 ^ shift * 2 ^ (64 - shift) := by
    rw [← Nat.pow_add]
    congr 1
    omega
  have value : (digit <<< shift) % 2 ^ 64 = 2 ^ shift * (digit % 2 ^ (64 - shift)) := by
    rw [Nat.shiftLeft_eq, Nat.mul_comm, word, Nat.mul_mod_mul_left]
  have sum : result + digit * 2 ^ shift = digit * 2 ^ shift + result := Nat.add_comm _ _
  rw [value, Nat.or_comm, ← Nat.two_pow_add_eq_or_of_lt below, sum, word, Nat.mod_mul,
    Nat.mul_comm digit, Nat.mul_add_mod, Nat.mod_eq_of_lt below, Nat.mul_add_div (Nat.two_pow_pos shift),
    Nat.div_eq_of_lt below, Nat.add_zero, Nat.add_comm]

/-- The reader takes a complete number of up to ten octets modulo the word, whatever follows it. -/
theorem slVarintDecodeLoop_complete {bytes : Bytes} {v : Nat} (spells : Spells bytes v) (rest : Bytes)
    {i result : Nat} (inside : i < slVarintMaxLen) (below : result < 2 ^ (7 * i)) :
    slVarintDecodeLoop (bytes ++ rest) i result (7 * i) =
      if i + bytes.length ≤ slVarintMaxLen then
        some ((result + v * 2 ^ (7 * i)) % 2 ^ 64, i + bytes.length)
      else none := by
  have ten : slVarintMaxLen = 10 := rfl
  induction spells generalizing i result with
  | @last b small =>
    have digit : b.toNat % 128 = b.toNat := Nat.mod_eq_of_lt small
    rw [List.singleton_append, slVarintDecodeLoop, if_neg (Nat.not_le.mpr inside)]
    dsimp only
    rw [if_pos ((high_bit_clear b).mpr small), low_bits, digit, joined_octet below (by omega),
      List.length_singleton, if_pos (by omega)]
  | @more b bytes v high later ih =>
    have nonempty := later.length_pos
    have more : ¬ b.toNat &&& 0x80 = 0 := fun clear =>
      absurd ((high_bit_clear b).mp clear) (Nat.not_lt.mpr high)
    have power : 2 ^ (7 * (i + 1)) = 128 * 2 ^ (7 * i) := by
      rw [Nat.mul_succ, Nat.pow_add, Nat.mul_comm]
    have total : result + (b.toNat % 128 + 128 * v) * 2 ^ (7 * i) =
        result + b.toNat % 128 * 2 ^ (7 * i) + v * 2 ^ (7 * (i + 1)) := by
      rw [power, Nat.add_mul, Nat.add_assoc, Nat.mul_assoc, Nat.mul_left_comm]
    rw [List.cons_append, slVarintDecodeLoop, if_neg (Nat.not_le.mpr inside)]
    dsimp only
    rw [if_neg more, low_bits, List.length_cons]
    by_cases last : 7 * i + 7 > 63
    · -- the tenth octet asks for another one
      rw [if_pos last, if_neg (by omega)]
    · have bound : result + b.toNat % 128 * 2 ^ (7 * i) < 2 ^ (7 * (i + 1)) := by
        have digit : b.toNat % 128 * 2 ^ (7 * i) ≤ 127 * 2 ^ (7 * i) :=
          Nat.mul_le_mul_right _ (by omega)
        omega
      have word : 2 ^ (7 * (i + 1)) ≤ 2 ^ 64 := Nat.pow_le_pow_right (by decide) (by omega)
      rw [if_neg last, joined_octet below (by omega), Nat.mod_eq_of_lt (Nat.lt_of_lt_of_le bound word),
        show 7 * i + 7 = 7 * (i + 1) from rfl, ih (by omega) bound, total]
      simp only [Nat.add_assoc, Nat.add_comm bytes.length 1]

theorem slVarintDecodeU64_complete {bytes : Bytes} {v : Nat} (spells : Spells bytes v) (rest : Bytes) :
    slVarintDecodeU64 (bytes ++ rest) =
      if bytes.length ≤ slVarintMaxLen then some (v % 2 ^ 64, bytes.length) else none := by
  have read := slVarintDecodeLoop_complete spells rest (show 0 < slVarintMaxLen by decide)
    (show 0 < 2 ^ (7 * 0) by decide)
  simp only [Nat.mul_zero, Nat.pow_zero, Nat.mul_one, Nat.zero_add] at read
  exact read

/-- The reader gets a written number back, whatever follows it. -/
theorem slVarintDecodeU64_spells {bytes : Bytes} {v : Nat} (spells : Spells bytes v) (rest : Bytes)
    (short : bytes.length ≤ slVarintMaxLen) (small : v < 2 ^ 64) :
    slVarintDecodeU64 (bytes ++ rest) = some (v, bytes.length) := by
  rw [slVarintDecodeU64_complete spells, if_pos short, Nat.mod_eq_of_lt small]

/-- The reader does not answer before it has seen a last octet. -/
theorem slVarintDecodeLoop_continues {input : Bytes} (high : ∀ b ∈ input, 128 ≤ b.toNat)
    (i result shift : Nat) : slVarintDecodeLoop input i result shift = none := by
  induction input generalizing i result shift with
  | nil => rfl
  | cons b rest ih =>
    have more : ¬ b.toNat &&& 0x80 = 0 := fun clear =>
      absurd ((high_bit_clear b).mp clear) (Nat.not_lt.mpr (high b (by simp)))
    simp only [slVarintDecodeLoop, if_neg more, ih (fun c later => high c (by simp [later])),
      ite_self]

/-- What was read is a complete number of up to ten octets, modulo the word. -/
theorem slVarintDecodeU64_read {input : Bytes} {v n : Nat}
    (read : slVarintDecodeU64 input = some (v, n)) :
    ∃ bytes rest w, input = bytes ++ rest ∧ Spells bytes w ∧ bytes.length = n ∧ n ≤ slVarintMaxLen ∧
      v = w % 2 ^ 64 := by
  rcases spells_or_continues input with ⟨bytes, rest, w, rfl, spells⟩ | continues
  · rw [slVarintDecodeU64_complete spells] at read
    split at read
    next short =>
      cases read
      exact ⟨bytes, rest, w, rfl, spells, rfl, short, rfl⟩
    next => cases read
  · have never := slVarintDecodeLoop_continues continues 0 0 0
    rw [slVarintDecodeU64, never] at read
    cases read

/-- A number that was read takes octets of the input, and is read again from any input that has
them in front. -/
theorem slVarintDecodeU64_front {input : Bytes} {v n : Nat}
    (read : slVarintDecodeU64 input = some (v, n)) :
    n ≤ slVarintMaxLen ∧ n ≤ input.length ∧
      ∀ m, n ≤ m → ∀ more, slVarintDecodeU64 (input.take m ++ more) = some (v, n) := by
  obtain ⟨bytes, rest, w, rfl, spells, rfl, short, rfl⟩ := slVarintDecodeU64_read read
  refine ⟨short, by simp, fun m enough more => ?_⟩
  rw [List.take_append, List.take_of_length_le enough, List.append_assoc,
    slVarintDecodeU64_complete spells, if_pos short]

theorem slVarintDecodeU64_grows {input : Bytes} {v n : Nat}
    (read : slVarintDecodeU64 input = some (v, n)) :
    n ≤ input.length ∧ ∀ more, slVarintDecodeU64 (input ++ more) = some (v, n) := by
  obtain ⟨_, inside, again⟩ := slVarintDecodeU64_front read
  refine ⟨inside, fun more => ?_⟩
  have whole := again _ inside more
  rwa [List.take_length] at whole

/-- A number cut short is not read. -/
theorem slVarintDecodeU64_cut {bytes : Bytes} {v : Nat} (spells : Spells bytes v) {n : Nat}
    (cut : n < bytes.length) : slVarintDecodeU64 (bytes.take n) = none :=
  slVarintDecodeLoop_continues (spells.continues cut) 0 0 0

end SecureLink.Source.Store
