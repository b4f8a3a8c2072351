import SecureLink.Library.BigEndian

/-!
# Trace contexts

src/sl_trace_id.c:8-85, src/sl_trace_flags.c:17-44 and src/sl_trace_context.c:12-47. A buffer is the
characters in front of its terminator; what a failed call leaves in the structure is not kept.
-/
namespace SecureLink.Source.Trace
open Library.BigEndian

def slTraceIdLen : Nat := 16
def slTraceIdHexLen : Nat := 32
def slSpanIdLen : Nat := 8
def slSpanIdHexLen : Nat := 16
def slTraceCtxWireLen : Nat := 55
def slTraceFlagsMask : UInt8 := 0x07

def dash : UInt8 := 0x2D
def zeroChar : UInt8 := 0x30

/-! ## Identifiers -/

def fromHexChar (c : UInt8) : Option UInt8 :=
  if 0x30 ≤ c ∧ c ≤ 0x39 then some (c - 0x30)
  else if 0x61 ≤ c ∧ c ≤ 0x66 then some (10 + c - 0x61)
  else none

/-- The loop over the pairs of characters. -/
def hexToBytesLoop : (n : Nat) → Bytes → Option (FixedBytes n)
  | 0, _ => some ⟨[], rfl⟩
  | n + 1, hex =>
    (fromHexChar (hex.getD 0 0)).bind fun hi =>
      (fromHexChar (hex.getD 1 0)).bind fun lo =>
        (hexToBytesLoop n (hex.drop 2)).map fun rest =>
          ⟨(hi <<< 4 ||| lo) :: rest.1, congrArg Nat.succ rest.2⟩

def hexToBytes (hex : Bytes) (outLen : Nat) : Option (FixedBytes outLen) :=
  if hex.length ≠ outLen * 2 then none else hexToBytesLoop outLen hex

/-- The table of the digits. -/
def hexDigit (n : UInt8) : UInt8 := (ascii "0123456789abcdef").getD n.toNat 0

/-- The loop over the bytes. -/
def bytesToHexLoop : Bytes → Bytes
  | [] => []
  | b :: rest => hexDigit (b >>> 4 &&& 0x0F) :: hexDigit (b &&& 0x0F) :: bytesToHexLoop rest

def bytesToHex (bytes : Bytes) (outCap : Nat) : Option Bytes :=
  if outCap < bytes.length * 2 + 1 then none else some (bytesToHexLoop bytes)

abbrev SlTraceId := FixedBytes slTraceIdLen
abbrev SlSpanId := FixedBytes slSpanIdLen

def slTraceIdIsZero (id : SlTraceId) : Bool := id.1.all (· == 0)
def slSpanIdIsZero (id : SlSpanId) : Bool := id.1.all (· == 0)

def slTraceIdToHex (id : SlTraceId) (outCap : Nat) : Option Bytes := bytesToHex id.1 outCap
def slSpanIdToHex (id : SlSpanId) (outCap : Nat) : Option Bytes := bytesToHex id.1 outCap

def slTraceIdFromHex (hex : Bytes) : Option SlTraceId := hexToBytes hex slTraceIdLen
def slSpanIdFromHex (hex : Bytes) : Option SlSpanId := hexToBytes hex slSpanIdLen

/-! ## Flags -/

def nibToHex (n : UInt8) : UInt8 := if n < 10 then 0x30 + n else 0x61 + (n - 10)

def slTraceFlagsToHex (f : UInt8) (outCap : Nat) : Option Bytes :=
  if outCap < 3 then none else some [nibToHex (f >>> 4 &&& 0x0F), nibToHex (f &&& 0x0F)]

def slTraceFlagsFromHex (hex : Bytes) : Option UInt8 :=
  if hex.length ≠ 2 then none
  else
    (fromHexChar (hex.getD 0 0)).bind fun hi =>
      (fromHexChar (hex.getD 1 0)).bind fun lo =>
        let v := hi <<< 4 ||| lo
        if v &&& ~~~slTraceFlagsMask ≠ 0 then none else some v

/-! ## Contexts -/

@[ext] structure SlTraceCtx where
  traceId : SlTraceId
  spanId : SlSpanId
  flags : UInt8
  deriving DecidableEq

def slTraceCtxFormat (c : SlTraceCtx) (outCap : Nat) : Option Bytes :=
  if outCap < slTraceCtxWireLen + 1 then none
  else
    (slTraceIdToHex c.traceId (slTraceIdHexLen + 1)).bind fun tid =>
      (slSpanIdToHex c.spanId (slSpanIdHexLen + 1)).bind fun sid =>
        (slTraceFlagsToHex c.flags 3).bind fun fl =>
          let text := [zeroChar, zeroChar, dash] ++ (tid ++ (dash :: (sid ++ (dash :: fl))))
          if text.length ≠ slTraceCtxWireLen then none else some text

def slTraceCtxParse (input : Bytes) : Option SlTraceCtx :=
  if input.length ≠ slTraceCtxWireLen then none
  else if input.getD 0 0 ≠ zeroChar ∨ input.getD 1 0 ≠ zeroChar ∨ input.getD 2 0 ≠ dash then none
  else if input.getD (3 + slTraceIdHexLen) 0 ≠ dash then none
  else if input.getD (3 + slTraceIdHexLen + 1 + slSpanIdHexLen) 0 ≠ dash then none
  else
    (slTraceIdFromHex ((input.drop 3).take slTraceIdHexLen)).bind fun traceId =>
      (slSpanIdFromHex ((input.drop (3 + slTraceIdHexLen + 1)).take slSpanIdHexLen)).bind fun spanId =>
        (slTraceFlagsFromHex ((input.drop (slTraceCtxWireLen - 2)).take 2)).bind fun flags =>
          if slTraceIdIsZero traceId || slSpanIdIsZero spanId then none
          else some { traceId, spanId, flags }

/-! ## Digits -/

theorem fromHexChar_hexDigit {n : UInt8} (small : n < 16) : fromHexChar (hexDigit n) = some n := by
  have all : ∀ n : UInt8, n.toNat < 16 → fromHexChar (hexDigit n) = some n := octets_below (by decide)
  exact all n (UInt8.lt_iff_toNat_lt.mp small)

/-- A character is read only as the digit that is written as it. -/
theorem hexDigit_fromHexChar {c n : UInt8} (read : fromHexChar c = some n) :
    n < 16 ∧ hexDigit n = c := by
  have all : ∀ c, (fromHexChar c).all fun n => decide (n < 16) && (hexDigit n == c) :=
    forall_octet (by decide +kernel)
  have here := all c
  rw [read, Option.all_some, Bool.and_eq_true, decide_eq_true_eq, beq_iff_eq] at here
  exact here

theorem nibToHex_eq {n : UInt8} (small : n < 16) : nibToHex n = hexDigit n := by
  have all : ∀ n : UInt8, n.toNat < 16 → nibToHex n = hexDigit n := octets_below (by decide)
  exact all n (UInt8.lt_iff_toNat_lt.mp small)

/-- A byte and its halves. -/
theorem halves (b : UInt8) :
    (b >>> 4 &&& 0x0F) <<< 4 ||| (b &&& 0x0F) = b ∧ b >>> 4 &&& 0x0F < 16 ∧ b &&& 0x0F < 16 := by
  revert b
  exact forall_octet (by decide +kernel)

theorem halves_joined {hi lo : UInt8} (smallHi : hi < 16) (smallLo : lo < 16) :
    (hi <<< 4 ||| lo) >>> 4 &&& 0x0F = hi ∧ (hi <<< 4 ||| lo) &&& 0x0F = lo := by
  have all : ∀ h < 16, ∀ l < 16,
      (UInt8.ofNat h <<< 4 ||| UInt8.ofNat l) >>> 4 &&& 0x0F = UInt8.ofNat h ∧
      (UInt8.ofNat h <<< 4 ||| UInt8.ofNat l) &&& 0x0F = UInt8.ofNat l := by decide +kernel
  have here := all hi.toNat (UInt8.lt_iff_toNat_lt.mp smallHi) lo.toNat (UInt8.lt_iff_toNat_lt.mp smallLo)
  rwa [UInt8.ofNat_toNat, UInt8.ofNat_toNat] at here

/-! ## Bytes as text -/

theorem length_bytesToHexLoop (bytes : Bytes) : (bytesToHexLoop bytes).length = bytes.length * 2 := by
  induction bytes with
  | nil => rfl
  | cons b rest ih =>
    rw [bytesToHexLoop, List.length_cons, List.length_cons, ih, List.length_cons]
    omega

theorem hexToBytesLoop_hex {n : Nat} (bytes : FixedBytes n) :
    hexToBytesLoop n (bytesToHexLoop bytes.1) = some bytes := by
  induction n with
  | zero => exact congrArg some (Subtype.ext (List.eq_nil_of_length_eq_zero bytes.2).symm)
  | succ n ih =>
    obtain ⟨bytes, length⟩ := bytes
    obtain ⟨b, rest, rfl⟩ : ∃ b rest, bytes = b :: rest := List.exists_cons_of_length_eq_add_one length
    obtain ⟨joined, smallHi, smallLo⟩ := halves b
    have later := ih ⟨rest, Nat.succ.inj length⟩
    simp only [bytesToHexLoop, hexToBytesLoop, List.getD_cons_zero, List.getD_cons_succ,
      fromHexChar_hexDigit smallHi, fromHexChar_hexDigit smallLo, Option.bind_some, List.drop_succ_cons,
      List.drop_zero, later, Option.map_some, joined]

/-- The text that is read is the text of what was read. -/
theorem bytesToHexLoop_read {n : Nat} {hex : Bytes} (long : hex.length = n * 2) {bytes : FixedBytes n}
    (read : hexToBytesLoop n hex = some bytes) : bytesToHexLoop bytes.1 = hex := by
  induction n generalizing hex with
  | zero =>
    obtain rfl := List.eq_nil_of_length_eq_zero long
    obtain rfl := Option.some.inj read
    rfl
  | succ n ih =>
    have two : 2 ≤ hex.length := by omega
    obtain ⟨a, b, hex, rfl⟩ : ∃ a b rest, hex = a :: b :: rest := by
      match hex, two with
      | a :: b :: rest, _ => exact ⟨a, b, rest, rfl⟩
    rw [hexToBytesLoop] at read
    obtain ⟨hi, readHi, read⟩ := Option.bind_eq_some_iff.mp read
    obtain ⟨lo, readLo, read⟩ := Option.bind_eq_some_iff.mp read
    obtain ⟨rest, later, rfl⟩ := Option.map_eq_some_iff.mp read
    obtain ⟨smallHi, charHi⟩ := hexDigit_fromHexChar readHi
    obtain ⟨smallLo, charLo⟩ := hexDigit_fromHexChar readLo
    obtain ⟨high, low⟩ := halves_joined smallHi smallLo
    have length : hex.length = n * 2 := by
      rw [List.length_cons, List.length_cons] at long
      omega
    rw [bytesToHexLoop, high, low, charHi, charLo, ih length later]
    rfl

theorem bytesToHex_eq (bytes : Bytes) : bytesToHex bytes (bytes.length * 2 + 1) = some (bytesToHexLoop bytes) :=
  if_neg (Nat.lt_irrefl _)

theorem hexToBytes_hex {n : Nat} (bytes : FixedBytes n) : hexToBytes (bytesToHexLoop bytes.1) n = some bytes := by
  rw [hexToBytes, if_neg (by rw [length_bytesToHexLoop, bytes.2]; exact not_not.mpr rfl), hexToBytesLoop_hex]

theorem bytesToHexLoop_of_hexToBytes {n : Nat} {hex : Bytes} {bytes : FixedBytes n}
    (read : hexToBytes hex n = some bytes) : bytesToHexLoop bytes.1 = hex := by
  rw [hexToBytes] at read
  split at read
  next => cases read
  next long => exact bytesToHexLoop_read (not_not.mp long) read

/-- The separators are in their places. -/
def Framed (input : Bytes) : Prop :=
  input.length = slTraceCtxWireLen ∧ input.getD 0 0 = zeroChar ∧ input.getD 1 0 = zeroChar ∧
    input.getD 2 0 = dash ∧ input.getD (3 + slTraceIdHexLen) 0 = dash ∧
    input.getD (3 + slTraceIdHexLen + 1 + slSpanIdHexLen) 0 = dash

/-- Everything the parser asks for. -/
theorem slTraceCtxParse_iff {input : Bytes} {c : SlTraceCtx} :
    slTraceCtxParse input = some c ↔ Framed input ∧
      slTraceIdFromHex ((input.drop 3).take slTraceIdHexLen) = some c.traceId ∧
      slSpanIdFromHex ((input.drop (3 + slTraceIdHexLen + 1)).take slSpanIdHexLen) = some c.spanId ∧
      slTraceFlagsFromHex ((input.drop (slTraceCtxWireLen - 2)).take 2) = some c.flags ∧
      slTraceIdIsZero c.traceId = false ∧ slSpanIdIsZero c.spanId = false := by
  constructor
  · intro read
    rw [slTraceCtxParse] at read
    split_ifs at read with length front second third
    simp only [not_or, ne_eq, not_not] at length front second third
    obtain ⟨traceId, readTrace, read⟩ := Option.bind_eq_some_iff.mp read
    obtain ⟨spanId, readSpan, read⟩ := Option.bind_eq_some_iff.mp read
    obtain ⟨flags, readFlags, read⟩ := Option.bind_eq_some_iff.mp read
    split at read
    next => cases read
    next ids =>
      obtain rfl := Option.some.inj read
      rw [Bool.or_eq_true, not_or, Bool.not_eq_true, Bool.not_eq_true] at ids
      exact ⟨⟨length, front.1, front.2.1, front.2.2, second, third⟩, readTrace, readSpan, readFlags, ids⟩
  · rintro ⟨⟨length, zero, zero', first, second, third⟩, readTrace, readSpan, readFlags, trace, span⟩
    have front : ¬ (input.getD 0 0 ≠ zeroChar ∨ input.getD 1 0 ≠ zeroChar ∨ input.getD 2 0 ≠ dash) := by
      rw [not_or, not_or]
      exact ⟨not_not.mpr zero, not_not.mpr zero', not_not.mpr first⟩
    rw [slTraceCtxParse, if_neg (not_not.mpr length), if_neg front, if_neg (not_not.mpr second),
      if_neg (not_not.mpr third), readTrace, Option.bind_some, readSpan, Option.bind_some, readFlags,
      Option.bind_some, trace, span]
    rfl

end SecureLink.Source.Trace
