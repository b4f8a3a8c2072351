import SecureLink.Library.Pieces
import SecureLink.Source.Wire.Extensions

/-!
# What the decoder of extension blocks accepts

The format is a length and, in as many bytes, complete extensions one after the other. The loop
of `sl_extensions_decode` ends as soon as fewer than four bytes are ahead and does not look
whether none are. So up to three bytes behind the last extension are accepted; anything else that
is no extension is refused.
-/
namespace SecureLink.Guarantees.ExtensionParsing
open Library.BigEndian Library.Pieces Source.Wire

/-- An extension of the format; the decoder skips those whose body is too long for it. -/
structure WireExtension where
  type : UInt16
  body : Bytes
  short : body.length < 2 ^ 16

def wire (x : WireExtension) : Bytes := extensionBytes x.type (UInt16.ofNat x.body.length) x.body

/-- The extension in front, if it is complete. -/
def frontExtension (ahead : Bytes) : Option (WireExtension × Bytes) :=
  if 4 + (unpackU16 (ahead.drop 2)).toNat ≤ ahead.length then
    some (⟨unpackU16 ahead, (ahead.drop 4).take (unpackU16 (ahead.drop 2)).toNat,
      Nat.lt_of_le_of_lt (List.length_take_le _ _) (UInt16.toNat_lt _)⟩,
      ahead.drop (4 + (unpackU16 (ahead.drop 2)).toNat))
  else none

/-! ## One extension -/

theorem length_field (x : WireExtension) : (UInt16.ofNat x.body.length).toNat = x.body.length :=
  UInt16.toNat_ofNat_of_lt' x.short

theorem frontExtension_wire (x : WireExtension) (rest : Bytes) :
    frontExtension (wire x ++ rest) = some (x, rest) := by
  obtain ⟨type, len, body, past, length⟩ := extension_fields x.type (length_field x).symm rest
  rw [← wire] at type len body past length
  have whole : 4 + (unpackU16 ((wire x ++ rest).drop 2)).toNat ≤ (wire x ++ rest).length := by
    rw [len, length]
    exact Nat.le_add_right _ _
  rw [frontExtension, if_pos whole]
  simp only [type, len, body, past]

theorem frontExtension_shortens : Shortens frontExtension := by
  intro ahead x rest read
  rw [frontExtension] at read
  split at read
  next whole =>
    cases read
    rw [List.length_drop]
    omega
  next => cases read

/-- The bytes that are taken are those of the extension. -/
theorem frontExtension_exact (ahead : Bytes) (x : WireExtension) (rest : Bytes)
    (read : frontExtension ahead = some (x, rest)) : ahead = wire x ++ rest := by
  rw [frontExtension] at read
  split at read
  next whole =>
    cases read
    have length : ((ahead.drop 4).take (unpackU16 (ahead.drop 2)).toNat).length =
        (unpackU16 (ahead.drop 2)).toNat := by
      rw [List.length_take, List.length_drop]
      omega
    have lenField : packU16 (unpackU16 (ahead.drop 2)) = (ahead.drop 2).take 2 :=
      packU16_unpack (by rw [List.length_drop]; omega)
    rw [wire, length, UInt16.ofNat_toNat, extensionBytes, packU16_unpack (by omega), lenField,
      List.append_assoc, List.append_assoc, ← List.drop_drop, List.take_append_drop]
    have behind : (ahead.drop 2).drop 2 = ahead.drop 4 := List.drop_drop
    rw [← behind, List.take_append_drop, List.take_append_drop]
  next => cases read

/-- Fewer than four bytes are no extension. -/
theorem frontExtension_short {ahead : Bytes} (short : ahead.length < 4) :
    frontExtension ahead = none := by
  rw [frontExtension, if_neg (by omega)]

/-! ## The loop -/

/-- A complete extension is kept or skipped, and the loop goes on behind it. -/
theorem decodeLoop_whole {ahead : Bytes} (out : SlExtensions)
    (whole : 4 + (unpackU16 (ahead.drop 2)).toNat ≤ ahead.length) :
    ∃ next, decodeLoop ahead out = decodeLoop (ahead.drop (4 + (unpackU16 (ahead.drop 2)).toNat)) next := by
  have header : 4 ≤ ahead.length := by omega
  rw [decodeLoop, if_pos header]
  exact ⟨_, dif_neg (Nat.not_lt.mpr whole)⟩

/-- What is left when the loop ends decides what it returns. -/
theorem decodeLoop_code (ahead : Bytes) (out : SlExtensions) :
    (decodeLoop ahead out).2 = if (parse frontExtension ahead).2.length < 4 then 0 else -1 := by
  induction ahead using pieces_induction frontExtension_shortens generalizing out with
  | refused ahead none =>
    rw [parse_refused none, decodeLoop]
    by_cases header : 4 ≤ ahead.length
    · have beyond : 4 + (unpackU16 (ahead.drop 2)).toNat > ahead.length := by
        by_contra whole
        rw [frontExtension, if_pos (Nat.not_lt.mp whole)] at none
        cases none
      dsimp only
      rw [if_pos header, dif_pos beyond, if_neg (Nat.not_lt.mpr header)]
    · rw [if_neg header, if_pos (Nat.lt_of_not_le header)]
  | read ahead x rest here ih =>
    rw [parse_read frontExtension_shortens here]
    rw [frontExtension] at here
    split at here
    next whole =>
      cases here
      obtain ⟨next, step⟩ := decodeLoop_whole out whole
      rw [step]
      exact ih next
    next => cases here

/-! ## The block -/

/-- The bytes that the length announces. -/
def block (bytes : Bytes) : Bytes := (bytes.drop 2).take (unpackU16 bytes).toNat

/-- There is a length, and as many bytes follow. -/
def Announced (bytes : Bytes) : Prop :=
  2 ≤ bytes.length ∧ (unpackU16 bytes).toNat + 2 ≤ bytes.length

/-- Exactly a concatenation of complete extensions. -/
def Complete (block : Bytes) : Prop := ∃ exts : List WireExtension, block = exts.flatMap wire

/-- Complete extensions, and some bytes behind them that are too few for a header. -/
def Stray (block : Bytes) : Prop :=
  ∃ (exts : List WireExtension) (stray : Bytes),
    block = exts.flatMap wire ++ stray ∧ 0 < stray.length ∧ stray.length < 4

theorem complete_iff (block : Bytes) : Complete block ↔ (parse frontExtension block).2 = [] :=
  (nothing_left_iff frontExtension_shortens frontExtension_wire frontExtension_exact).symm

theorem stray_iff (block : Bytes) :
    Stray block ↔ 0 < (parse frontExtension block).2.length ∧ (parse frontExtension block).2.length < 4 := by
  constructor
  · intro ⟨exts, stray, same, positive, few⟩
    rw [same, parse_flatMap frontExtension_shortens frontExtension_wire,
      parse_refused (frontExtension_short few)]
    exact ⟨positive, few⟩
  · intro few
    exact ⟨_, _, (flatMap_parse frontExtension_shortens frontExtension_exact block).symm, few⟩

theorem slExtensionsDecode_code (bytes : Bytes) :
    ((slExtensionsDecode bytes).2 = 0 ↔
      Announced bytes ∧ (parse frontExtension (block bytes)).2.length < 4) ∧
    ((slExtensionsDecode bytes).2 = 0 ∨ (slExtensionsDecode bytes).2 = -1) := by
  rw [slExtensionsDecode, Announced]
  by_cases prefixed : bytes.length < 2
  · rw [if_pos prefixed]
    exact ⟨iff_of_false (by decide) (by omega), Or.inr rfl⟩
  rw [if_neg prefixed]
  dsimp only
  by_cases beyond : (unpackU16 bytes).toNat + 2 > bytes.length
  · rw [if_pos beyond]
    exact ⟨iff_of_false (by decide) (by omega), Or.inr rfl⟩
  rw [if_neg beyond, decodeLoop_code, ← block]
  split
  next few => exact ⟨iff_of_true rfl ⟨⟨by omega, by omega⟩, few⟩, Or.inl rfl⟩
  next many => exact ⟨iff_of_false (by decide) fun ok => many ok.2, Or.inr rfl⟩

/-- Every byte string is accepted or refused with -1. It is accepted only if the block is exactly a
concatenation of complete extensions, unless one to three bytes are left behind them. -/
theorem malformed_rejected_iff (bytes : Bytes) :
    ((slExtensionsDecode bytes).2 = 0 ∨ (slExtensionsDecode bytes).2 = -1) ∧
    (((slExtensionsDecode bytes).2 = 0 → Announced bytes ∧ Complete (block bytes)) ↔
      ¬ (Announced bytes ∧ Stray (block bytes))) := by
  obtain ⟨accepted, codes⟩ := slExtensionsDecode_code bytes
  refine ⟨codes, ?_⟩
  rw [accepted, complete_iff, stray_iff]
  constructor
  · intro only ⟨announced, positive, few⟩
    have missing := (only ⟨announced, few⟩).2
    rw [missing] at positive
    exact absurd positive (by decide)
  · intro never ⟨announced, few⟩
    refine ⟨announced, ?_⟩
    by_contra positive
    exact never ⟨announced, List.length_pos_iff.mpr positive, few⟩

/-- A block of one byte is accepted. -/
theorem stray_byte_accepted :
    (slExtensionsDecode [0, 1, 7]).2 = 0 ∧ ¬ Complete (block [0, 1, 7]) := by
  have one : (parse frontExtension (block [0, 1, 7])).2 = [7] := by decide
  constructor
  · refine (slExtensionsDecode_code _).1.mpr ⟨⟨by decide, by decide⟩, ?_⟩
    rw [one]
    decide
  · rw [complete_iff, one]
    decide

end SecureLink.Guarantees.ExtensionParsing
