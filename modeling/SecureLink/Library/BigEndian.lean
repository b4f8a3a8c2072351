import Mathlib.Data.List.Basic
import Mathlib.Tactic.Ring

/-!
# Fixed-width big-endian octets

Network-order encoding of a natural number in a given number of octets, and the
positional decoder. Widths stay symbolic; nothing here mentions a wire format.
-/
namespace SecureLink.Library.BigEndian

abbrev Bytes := List UInt8

/-- An octet array of fixed size. -/
abbrev FixedBytes (size : Nat) := { bytes : Bytes // bytes.length = size }

/-- The octets of a text in the seven-bit character set. -/
def ascii (text : String) : Bytes := text.toList.map (fun c => UInt8.ofNat c.toNat)

def comma : UInt8 := 0x2C
def dot : UInt8 := 0x2E
def colon : UInt8 := 0x3A

theorem octets_below {p : UInt8 → Prop} {bound : Nat} (all : ∀ k < bound, p (UInt8.ofNat k)) (c : UInt8)
    (small : c.toNat < bound) : p c := by
  have here := all c.toNat small
  rwa [UInt8.ofNat_toNat] at here

/-- What holds of the octets of the first 256 numbers holds of every octet. -/
theorem forall_octet {p : UInt8 → Prop} (all : ∀ k < 256, p (UInt8.ofNat k)) (c : UInt8) : p c :=
  octets_below all c c.toNat_lt

/-- The `width` low octets of `n`, most significant first. -/
def encode : Nat → Nat → Bytes
  | 0, _ => []
  | width + 1, n => UInt8.ofNat (n / 256 ^ width) :: encode width n

/-- Positional value of an octet string, most significant octet first. -/
def decode (bytes : Bytes) : Nat := bytes.foldl (fun acc b => acc * 256 + b.toNat) 0

@[simp] theorem encode_length (width n : Nat) : (encode width n).length = width := by
  induction width with
  | zero => rfl
  | succ width ih => simp [encode, ih]

/-- The accumulator of the decoder is shifted past the octets still to come. -/
theorem foldl_encode (width n acc : Nat) :
    (encode width n).foldl (fun acc b => acc * 256 + b.toNat) acc =
      acc * 256 ^ width + n % 256 ^ width := by
  induction width generalizing acc with
  | zero => simp [encode, Nat.mod_one]
  | succ width ih =>
    have split : n % 256 ^ (width + 1) =
        n % 256 ^ width + 256 ^ width * (n / 256 ^ width % 256) := by
      rw [Nat.pow_succ, Nat.mod_mul]
    have octet : (UInt8.ofNat (n / 256 ^ width)).toNat = n / 256 ^ width % 256 := by simp
    simp only [encode, List.foldl_cons, ih, octet, split]
    ring

theorem decode_encode (width n : Nat) : decode (encode width n) = n % 256 ^ width := by
  simpa only [decode, Nat.zero_mul, Nat.zero_add] using foldl_encode width n 0

theorem foldl_shift (bytes : Bytes) (acc : Nat) :
    bytes.foldl (fun acc b => acc * 256 + b.toNat) acc =
      acc * 256 ^ bytes.length + decode bytes := by
  induction bytes generalizing acc with
  | nil => simp [decode]
  | cons b rest ih =>
    simp only [decode, List.foldl_cons, List.length_cons]
    rw [ih, ih (0 * 256 + b.toNat)]
    ring

theorem decode_cons (b : UInt8) (rest : Bytes) :
    decode (b :: rest) = b.toNat * 256 ^ rest.length + decode rest := by
  simpa [decode] using foldl_shift rest (0 * 256 + b.toNat)

theorem decode_lt (bytes : Bytes) : decode bytes < 256 ^ bytes.length := by
  induction bytes with
  | nil => simp [decode]
  | cons b rest ih =>
    have octet := b.toNat_lt
    rw [decode_cons, List.length_cons, Nat.pow_succ]
    calc b.toNat * 256 ^ rest.length + decode rest
        < b.toNat * 256 ^ rest.length + 256 ^ rest.length := by omega
      _ = (b.toNat + 1) * 256 ^ rest.length := by ring
      _ ≤ 256 * 256 ^ rest.length := Nat.mul_le_mul_right _ (by omega)
      _ = 256 ^ rest.length * 256 := by ring

/-- Digits above the width do not show. -/
theorem encode_high (width high n : Nat) :
    encode width (high * 256 ^ width + n) = encode width n := by
  induction width generalizing high with
  | zero => rfl
  | succ width ih =>
    have pos : 0 < 256 ^ width := Nat.pow_pos (by decide)
    have shift : high * 256 ^ (width + 1) + n = high * 256 * 256 ^ width + n := by ring
    have top : (high * 256 * 256 ^ width + n) / 256 ^ width = high * 256 + n / 256 ^ width := by
      rw [Nat.add_comm, Nat.add_mul_div_right _ _ pos, Nat.add_comm]
    have octet : UInt8.ofNat (high * 256 + n / 256 ^ width) = UInt8.ofNat (n / 256 ^ width) := by
      apply UInt8.toNat_inj.mp
      simp only [UInt8.toNat_ofNat']
      omega
    rw [encode, encode, shift, top, octet, ih]

theorem encode_decode (bytes : Bytes) : encode bytes.length (decode bytes) = bytes := by
  induction bytes with
  | nil => rfl
  | cons b rest ih =>
    have pos : 0 < 256 ^ rest.length := Nat.pow_pos (by decide)
    have top : (b.toNat * 256 ^ rest.length + decode rest) / 256 ^ rest.length = b.toNat := by
      rw [Nat.add_comm, Nat.add_mul_div_right _ _ pos, Nat.div_eq_of_lt (decode_lt rest),
        Nat.zero_add]
    rw [decode_cons, List.length_cons, encode, top, encode_high, ih, UInt8.ofNat_toNat]

/-- Below the width's capacity the encoding loses nothing. -/
theorem encode_injective {width n m : Nat} (hn : n < 256 ^ width) (hm : m < 256 ^ width)
    (h : encode width n = encode width m) : n = m := by
  have hd := congrArg decode h
  rwa [decode_encode, decode_encode, Nat.mod_eq_of_lt hn, Nat.mod_eq_of_lt hm] at hd

end SecureLink.Library.BigEndian
