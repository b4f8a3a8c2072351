import SecureLink.Source.Trace.TraceContext

/-!
# The text of a trace context

`00-`, the trace id, the span id and the flags in lower-case digits. The reader accepts one
spelling of each context, the one that is written.
-/
namespace SecureLink.Guarantees.TraceText
open Library.BigEndian Source.Trace

/-- Both ids are there, and no flag is unknown. -/
def Valid (c : SlTraceCtx) : Prop :=
  slTraceIdIsZero c.traceId = false ∧ slSpanIdIsZero c.spanId = false ∧ c.flags &&& ~~~slTraceFlagsMask = 0

/-- The fields between their separators. -/
def layout (tid sid fl : Bytes) : Bytes :=
  zeroChar :: zeroChar :: dash :: (tid ++ (dash :: (sid ++ (dash :: fl))))

def flagsText (f : UInt8) : Bytes := [nibToHex (f >>> 4 &&& 0x0F), nibToHex (f &&& 0x0F)]

def text (c : SlTraceCtx) : Bytes :=
  layout (bytesToHexLoop c.traceId.1) (bytesToHexLoop c.spanId.1) (flagsText c.flags)

/-! ## The layout -/

section Layout
variable {tid sid fl : Bytes} (tidLen : tid.length = 32) (sidLen : sid.length = 16) (flLen : fl.length = 2)
include tidLen sidLen flLen

theorem length_layout : (layout tid sid fl).length = 55 := by
  simp only [layout, List.length_cons, List.length_append, tidLen, sidLen, flLen]

omit flLen in
/-- What stands where. -/
theorem layout_drop :
    (layout tid sid fl).drop 35 = dash :: (sid ++ (dash :: fl)) ∧
      (layout tid sid fl).drop 52 = dash :: fl := by
  have first : (layout tid sid fl).drop 35 = dash :: (sid ++ (dash :: fl)) := by
    rw [layout, show 35 = 3 + 32 from rfl, ← List.drop_drop]
    exact List.drop_left' tidLen
  refine ⟨first, ?_⟩
  rw [show 52 = 35 + 17 from rfl, ← List.drop_drop, first, List.drop_succ_cons]
  exact List.drop_left' sidLen

end Layout

theorem getD_of_drop {l rest : Bytes} {n : Nat} {c : UInt8} (behind : l.drop n = c :: rest) :
    l.getD n 0 = c := by
  rw [List.getD_eq_getElem?_getD, ← List.head?_drop, behind]
  rfl

theorem drop_eq_getD_cons {l : Bytes} {n : Nat} (inside : n < l.length) :
    l.drop n = l.getD n 0 :: l.drop (n + 1) := by
  rw [List.drop_eq_getElem_cons inside, List.getD_eq_getElem?_getD, List.getElem?_eq_getElem inside,
    Option.getD_some]

/-- A text of the right length with the separators in their places is its fields. -/
theorem eq_layout {input : Bytes} (length : input.length = 55) (zero : input.getD 0 0 = zeroChar)
    (zero' : input.getD 1 0 = zeroChar) (first : input.getD 2 0 = dash) (second : input.getD 35 0 = dash)
    (third : input.getD 52 0 = dash) :
    input = layout ((input.drop 3).take 32) ((input.drop 36).take 16) ((input.drop 53).take 2) := by
  have front : input = zeroChar :: zeroChar :: dash :: input.drop 3 := by
    have all := drop_eq_getD_cons (l := input) (n := 0) (by omega)
    rw [drop_eq_getD_cons (n := 0 + 1) (by omega), drop_eq_getD_cons (n := 0 + 1 + 1) (by omega), zero] at all
    simp only [Nat.zero_add, Nat.reduceAdd, zero', first, List.drop_zero] at all
    exact all
  have ids : input.drop 3 = (input.drop 3).take 32 ++ input.drop 35 := by
    rw [← show (input.drop 3).drop 32 = input.drop 35 from List.drop_drop, List.take_append_drop]
  have spans : input.drop 36 = (input.drop 36).take 16 ++ input.drop 52 := by
    rw [← show (input.drop 36).drop 16 = input.drop 52 from List.drop_drop, List.take_append_drop]
  have rest : (input.drop 53).take 2 = input.drop 53 :=
    List.take_of_length_le (by rw [List.length_drop]; omega)
  calc input = zeroChar :: zeroChar :: dash :: input.drop 3 := front
    _ = zeroChar :: zeroChar :: dash :: ((input.drop 3).take 32 ++ (dash :: input.drop 36)) := by
      rw [← second, ← drop_eq_getD_cons (by omega), ← ids]
    _ = _ := by
      rw [layout, rest, ← third, ← drop_eq_getD_cons (by omega), ← spans]

/-! ## Flags -/

theorem slTraceFlagsFromHex_text {f : UInt8} (known : f &&& ~~~slTraceFlagsMask = 0) :
    slTraceFlagsFromHex (flagsText f) = some f := by
  obtain ⟨joined, smallHi, smallLo⟩ := halves f
  simp only [slTraceFlagsFromHex, flagsText, List.length_cons, List.length_nil, Nat.zero_add, Nat.reduceAdd,
    ne_eq, not_true_eq_false, if_false, List.getD_cons_zero, List.getD_cons_succ, nibToHex_eq smallHi,
    nibToHex_eq smallLo, fromHexChar_hexDigit smallHi, fromHexChar_hexDigit smallLo, Option.bind_some,
    joined, known]

theorem flagsText_read {hex : Bytes} {f : UInt8} (read : slTraceFlagsFromHex hex = some f) :
    flagsText f = hex ∧ f &&& ~~~slTraceFlagsMask = 0 := by
  rw [slTraceFlagsFromHex] at read
  split at read
  next => cases read
  next two =>
    obtain ⟨a, b, rfl⟩ := List.length_eq_two.mp (not_not.mp two)
    obtain ⟨hi, readHi, read⟩ := Option.bind_eq_some_iff.mp read
    obtain ⟨lo, readLo, read⟩ := Option.bind_eq_some_iff.mp read
    dsimp only at read
    split at read
    next => cases read
    next known =>
      obtain rfl := Option.some.inj read
      obtain ⟨smallHi, charHi⟩ := hexDigit_fromHexChar readHi
      obtain ⟨smallLo, charLo⟩ := hexDigit_fromHexChar readLo
      obtain ⟨high, low⟩ := halves_joined smallHi smallLo
      refine ⟨?_, not_not.mp known⟩
      rw [flagsText, high, low, nibToHex_eq smallHi, nibToHex_eq smallLo, charHi, charLo]
      rfl

/-! ## Contexts -/

theorem length_tid (c : SlTraceCtx) : (bytesToHexLoop c.traceId.1).length = 32 := by
  rw [length_bytesToHexLoop, c.traceId.2]
  rfl

theorem length_sid (c : SlTraceCtx) : (bytesToHexLoop c.spanId.1).length = 16 := by
  rw [length_bytesToHexLoop, c.spanId.2]
  rfl

theorem length_text (c : SlTraceCtx) : (text c).length = 55 :=
  length_layout (length_tid c) (length_sid c) rfl

theorem slTraceCtxFormat_eq (c : SlTraceCtx) {outCap : Nat} (room : slTraceCtxWireLen + 1 ≤ outCap) :
    slTraceCtxFormat c outCap = some (text c) := by
  have tid : slTraceIdToHex c.traceId (slTraceIdHexLen + 1) = some (bytesToHexLoop c.traceId.1) := by
    have made := bytesToHex_eq c.traceId.1
    rwa [c.traceId.2] at made
  have sid : slSpanIdToHex c.spanId (slSpanIdHexLen + 1) = some (bytesToHexLoop c.spanId.1) := by
    have made := bytesToHex_eq c.spanId.1
    rwa [c.spanId.2] at made
  have whole := length_text c
  rw [slTraceCtxFormat, if_neg (Nat.not_lt.mpr room), tid, Option.bind_some, sid, Option.bind_some]
  exact if_neg (not_not.mpr whole)

theorem slTraceCtxParse_text {c : SlTraceCtx} (valid : Valid c) : slTraceCtxParse (text c) = some c := by
  obtain ⟨first, second⟩ : (text c).drop 35 = _ ∧ (text c).drop 52 = dash :: flagsText c.flags :=
    layout_drop (length_tid c) (length_sid c)
  have tid : ((text c).drop 3).take 32 = bytesToHexLoop c.traceId.1 := List.take_left' (length_tid c)
  have sid : ((text c).drop (35 + 1)).take 16 = bytesToHexLoop c.spanId.1 := by
    rw [← List.drop_drop, first]
    exact List.take_left' (length_sid c)
  have fl : ((text c).drop (52 + 1)).take 2 = flagsText c.flags := by
    rw [← List.drop_drop, second]
    rfl
  refine slTraceCtxParse_iff.mpr ⟨⟨length_text c, rfl, rfl, rfl, getD_of_drop first, getD_of_drop second⟩,
    ?_, ?_, ?_, valid.1, valid.2.1⟩
  · exact (congrArg slTraceIdFromHex tid).trans (hexToBytes_hex c.traceId)
  · exact (congrArg slSpanIdFromHex sid).trans (hexToBytes_hex c.spanId)
  · exact (congrArg slTraceFlagsFromHex fl).trans (slTraceFlagsFromHex_text valid.2.2)

/-- What is parsed is the text of a valid context. -/
theorem text_of_parse {input : Bytes} {c : SlTraceCtx} (read : slTraceCtxParse input = some c) :
    Valid c ∧ text c = input := by
  obtain ⟨⟨length, zero, zero', first, second, third⟩, readTrace, readSpan, readFlags, trace, span⟩ :=
    slTraceCtxParse_iff.mp read
  obtain ⟨fl, known⟩ := flagsText_read readFlags
  refine ⟨⟨trace, span, known⟩, ?_⟩
  rw [text, bytesToHexLoop_of_hexToBytes readTrace, bytesToHexLoop_of_hexToBytes readSpan, fl]
  exact (eq_layout length zero zero' first second third).symm

/-- Formatting a valid context and parsing what was formatted gives it back. Whatever is parsed is a
valid context, and formatting it gives the same text; so no two texts stand for one context. -/
theorem trace_text_bijective :
    (∀ c outCap, Valid c → 56 ≤ outCap →
      ∃ text, slTraceCtxFormat c outCap = some text ∧ text.length = 55 ∧ slTraceCtxParse text = some c) ∧
    (∀ input c, slTraceCtxParse input = some c →
      Valid c ∧ ∀ outCap, 56 ≤ outCap → slTraceCtxFormat c outCap = some input) ∧
    ∀ input input' c, slTraceCtxParse input = some c → slTraceCtxParse input' = some c → input = input' := by
  refine ⟨?_, ?_, ?_⟩
  · intro c outCap valid room
    exact ⟨text c, slTraceCtxFormat_eq c room, length_text c, slTraceCtxParse_text valid⟩
  · intro input c read
    obtain ⟨valid, same⟩ := text_of_parse read
    refine ⟨valid, fun outCap room => ?_⟩
    rw [slTraceCtxFormat_eq c room, same]
  · intro input input' c read read'
    rw [← (text_of_parse read).2, (text_of_parse read').2]

end SecureLink.Guarantees.TraceText
