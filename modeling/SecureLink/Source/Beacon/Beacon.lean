import SecureLink.Source.Record.Record
import SecureLink.Source.Wire.Fields

/-!
# Beacons

src/sl_beacon.c:35-74 and src/sl_beacon_codec.c:8-88. Of the payload array of a beacon only the
bytes in use are kept. As in the record layer AES-256-GCM is a parameter, and a successful seal also
returns the AEAD call it made.
-/
namespace SecureLink.Source.Beacon
open Library.BigEndian Record
open Wire (packU32 packU64 unpackU32 unpackU64 unpackU32_pack unpackU64_pack
  packU32_unpack packU64_unpack length_packU16 length_packU32 length_packU64)

def slBeaconHeaderLen : Nat := 32
def slBeaconMaxPayload : Nat := 1024
def slBeaconFlagRequestAck : UInt16 := 0x0001
def slBeaconFlagLast : UInt16 := 0x0002

/-- The fields of `sl_beacon_t` that are packed into the header. -/
structure BeaconHeader where
  clientId : UInt64
  sequence : UInt64
  timestampMs : UInt64
  intervalMs : UInt32
  payloadLen : UInt16
  flags : UInt16
  deriving DecidableEq, Repr

structure SlBeacon extends BeaconHeader where
  payload : Bytes
  deriving DecidableEq, Repr

def slBeaconPackHeader (b : BeaconHeader) : Bytes :=
  packU64 b.clientId ++ (packU64 b.sequence ++ (packU64 b.timestampMs ++ (packU32 b.intervalMs ++
    (Wire.packU16 b.payloadLen ++ Wire.packU16 b.flags))))

def slBeaconUnpackHeader (bytes : Bytes) : BeaconHeader where
  clientId := unpackU64 bytes
  sequence := unpackU64 (bytes.drop 8)
  timestampMs := unpackU64 (bytes.drop 16)
  intervalMs := unpackU32 (bytes.drop 24)
  payloadLen := Wire.unpackU16 (bytes.drop 28)
  flags := Wire.unpackU16 (bytes.drop 30)

/-- Whether the source returns 0. -/
def slBeaconValidate (b : BeaconHeader) : Bool :=
  if b.sequence = 0 then false
  else if b.payloadLen.toNat > slBeaconMaxPayload then false
  else if b.flags &&& ~~~(slBeaconFlagRequestAck ||| slBeaconFlagLast) ≠ 0 then false
  else if b.intervalMs ≠ 0 ∧ (b.intervalMs < 100 ∨ b.intervalMs > 600000) then false
  else true

def slBeaconWireSize (b : BeaconHeader) : Nat :=
  slBeaconHeaderLen + b.payloadLen.toNat + slAeadTagLen

/-- What `sl_aead_seal` is called with. -/
structure SealArgs where
  key : Bytes
  nonce : Bytes
  aad : Bytes
  pt : Bytes
  deriving DecidableEq, Repr

section Aead
variable (A : Aead) (key : FixedBytes slAeadKeyLen) (staticIv : FixedBytes slAeadIvLen)

/-- The first part of `sl_beacon_seal`, up to the call of the AEAD. -/
def slBeaconSealArgs (b : SlBeacon) (seq : UInt64) : Option SealArgs :=
  if !slBeaconValidate b.toBeaconHeader then none
  else
    some {
      key := key.1
      nonce := slNonceBuild staticIv seq
      aad := slBeaconPackHeader b.toBeaconHeader
      pt := b.payload.take b.payloadLen.toNat }

def slBeaconSeal (b : SlBeacon) (seq : UInt64) : Option (Bytes × Sealed) :=
  match slBeaconSealArgs key staticIv b seq with
  | none => none
  | some args =>
    match A.slAeadSeal args.key args.nonce args.aad args.pt with
    | none => none
    | some (ct, tag) =>
      some (args.aad ++ ct.1 ++ tag.1,
        { key := args.key, nonce := args.nonce, aad := args.aad, pt := args.pt, ct := ct.1, tag := tag.1 })

def slBeaconOpen (wire : Bytes) (seq : UInt64) : Option SlBeacon :=
  if wire.length < slBeaconHeaderLen + slAeadTagLen then none
  else
    let b := slBeaconUnpackHeader wire
    if !slBeaconValidate b then none
    else if wire.length ≠ slBeaconWireSize b then none
    else
      let aad := wire.take slBeaconHeaderLen
      let ct := (wire.drop slBeaconHeaderLen).take b.payloadLen.toNat
      let tag := (wire.drop (slBeaconHeaderLen + b.payloadLen.toNat)).take slAeadTagLen
      let nonce := slNonceBuild staticIv seq
      match A.slAeadOpen key.1 nonce aad ct tag with
      | none => none
      | some payload => some { b with payload := payload.1 }

end Aead

/-- `sl_beacon_t` with the whole of its array. -/
structure SlBeaconT extends BeaconHeader where
  payload : FixedBytes slBeaconMaxPayload
  deriving DecidableEq

namespace SlBeaconT

/-- The fields and the bytes in use. -/
def inUse (b : SlBeaconT) : SlBeacon :=
  { b.toBeaconHeader with payload := b.payload.1.take b.payloadLen.toNat }

def zeroPayload : FixedBytes slBeaconMaxPayload :=
  ⟨List.replicate slBeaconMaxPayload 0, List.length_replicate⟩

/-- The bytes that are written to the front of an array. -/
def overwrite (payload : FixedBytes slBeaconMaxPayload) (bytes : Bytes) :
    FixedBytes slBeaconMaxPayload :=
  ⟨(bytes ++ payload.1.drop bytes.length).take slBeaconMaxPayload, by
    rw [List.length_take, List.length_append, List.length_drop, payload.2]
    omega⟩

/-- `sl_beacon_unpack_header`. -/
def unpack (wire : Bytes) : SlBeaconT :=
  { slBeaconUnpackHeader wire with payload := zeroPayload }

end SlBeaconT

/-- `sl_beacon_open` with the structure it writes, given what that held before, and the number it
returns. -/
def slBeaconOpenInto (A : Aead) (key : FixedBytes slAeadKeyLen) (staticIv : FixedBytes slAeadIvLen)
    (wire : Bytes) (seq : UInt64) (b : SlBeaconT) : SlBeaconT × Int :=
  if wire.length < slBeaconHeaderLen + slAeadTagLen then (b, -1)
  else
    let b := SlBeaconT.unpack wire
    if !slBeaconValidate b.toBeaconHeader then (b, -1)
    else if wire.length ≠ slBeaconWireSize b.toBeaconHeader then (b, -1)
    else
      let aad := wire.take slBeaconHeaderLen
      let ct := (wire.drop slBeaconHeaderLen).take b.payloadLen.toNat
      let tag := (wire.drop (slBeaconHeaderLen + b.payloadLen.toNat)).take slAeadTagLen
      let nonce := slNonceBuild staticIv seq
      match A.slAeadOpen key.1 nonce aad ct tag with
      -- whatever of the payload was written is scrubbed
      | none => ({ b with payload := SlBeaconT.zeroPayload }, -1)
      | some pt => ({ b with payload := SlBeaconT.overwrite b.payload pt.1 }, 0)

/-- Every 32 bytes are the header of their fields. -/
theorem slBeaconPackHeader_unpack {bytes : Bytes} (long : slBeaconHeaderLen ≤ bytes.length) :
    slBeaconPackHeader (slBeaconUnpackHeader bytes) = bytes.take slBeaconHeaderLen := by
  have bound : 32 ≤ bytes.length := long
  have inside : ∀ (off : Nat) {width : Nat}, off + width ≤ 32 → width ≤ (bytes.drop off).length := by
    intro off width fits
    rw [List.length_drop]
    omega
  have join : ∀ off width rest : Nat, (bytes.drop off).take width ++
      (bytes.drop (off + width)).take rest = (bytes.drop off).take (width + rest) := by
    intro off width rest
    rw [← List.drop_drop, List.take_add]
  simp only [slBeaconPackHeader, slBeaconUnpackHeader, packU64_unpack (p := bytes) (by omega),
    packU64_unpack (inside 8 (by decide)), packU64_unpack (inside 16 (by decide)),
    packU32_unpack (inside 24 (by decide)), Wire.packU16_unpack (inside 28 (by decide)),
    Wire.packU16_unpack (inside 30 (by decide))]
  rw [join 28 2 2, join 24 4 4, join 16 8 8, join 8 8 16]
  exact join 0 8 24

/-- Nothing of the header is lost on the wire. -/
theorem slBeaconUnpackHeader_pack (b : BeaconHeader) (rest : Bytes) :
    slBeaconUnpackHeader (slBeaconPackHeader b ++ rest) = b := by
  obtain ⟨clientId, sequence, timestampMs, intervalMs, payloadLen, flags⟩ := b
  simp only [slBeaconUnpackHeader, slBeaconPackHeader, List.append_assoc]
  refine BeaconHeader.mk.injEq .. ▸ ⟨unpackU64_pack _ _, unpackU64_pack _ _, unpackU64_pack _ _,
    unpackU32_pack _ _, Wire.unpackU16_pack _ _, Wire.unpackU16_pack _ _⟩

theorem slBeaconPackHeader_injective {b b' : BeaconHeader}
    (same : slBeaconPackHeader b = slBeaconPackHeader b') : b = b' := by
  have left := slBeaconUnpackHeader_pack b []
  rw [same, slBeaconUnpackHeader_pack] at left
  exact left.symm

section Aead

variable {A : Aead} {key : FixedBytes slAeadKeyLen} {staticIv : FixedBytes slAeadIvLen}

/-- A successful seal checked the header, and made the call whose results are on the wire. -/
theorem slBeaconSeal_made {b : SlBeacon} {seq : UInt64} {wire : Bytes} {call : Sealed}
    (h : slBeaconSeal A key staticIv b seq = some (wire, call)) :
    slBeaconValidate b.toBeaconHeader = true ∧
    ∃ (ct : FixedBytes (b.payload.take b.payloadLen.toNat).length) (tag : FixedBytes slAeadTagLen),
      wire = slBeaconPackHeader b.toBeaconHeader ++ ct.1 ++ tag.1 ∧
      call = {
        key := key.1
        nonce := slNonceBuild staticIv seq
        aad := slBeaconPackHeader b.toBeaconHeader
        pt := b.payload.take b.payloadLen.toNat
        ct := ct.1
        tag := tag.1 } := by
  unfold slBeaconSeal slBeaconSealArgs at h
  split at h
  · cases h
  next args made =>
    split_ifs at made with invalid
    cases made
    simp only at h
    split at h
    · cases h
    next ct tag _ =>
      cases h
      exact ⟨by simpa using invalid, ct, tag, rfl, rfl⟩

/-- A seal authenticates the header it puts on the wire. -/
theorem slBeaconSeal_some {b : SlBeacon} {seq : UInt64} {wire : Bytes} {call : Sealed}
    (h : slBeaconSeal A key staticIv b seq = some (wire, call)) :
    call.key = key.1 ∧ call.aad = slBeaconPackHeader b.toBeaconHeader ∧
      wire = call.aad ++ call.ct ++ call.tag := by
  obtain ⟨_, ct, tag, rfl, rfl⟩ := slBeaconSeal_made h
  exact ⟨rfl, rfl, rfl⟩

/-- Everything a successful open checked. -/
theorem slBeaconOpen_some {wire : Bytes} {seq : UInt64} {b : SlBeacon}
    (h : slBeaconOpen A key staticIv wire seq = some b) :
    b.toBeaconHeader = slBeaconUnpackHeader wire ∧
    ∃ ct tag, ∃ pt : FixedBytes ct.length,
      A.slAeadOpen key.1 (slNonceBuild staticIv seq)
        (slBeaconPackHeader (slBeaconUnpackHeader wire)) ct tag = some pt ∧
      wire = slBeaconPackHeader (slBeaconUnpackHeader wire) ++ ct ++ tag ∧ b.payload = pt.1 := by
  unfold slBeaconOpen at h
  dsimp only at h
  split_ifs at h with short valid size
  split at h
  · cases h
  next pt opened =>
    cases h
    have long : slBeaconHeaderLen ≤ wire.length := by omega
    have header := slBeaconPackHeader_unpack long
    refine ⟨rfl, _, _, pt, by rw [header]; exact opened, ?_, rfl⟩
    -- the length check leaves nothing behind the tag
    have tag : (wire.drop (slBeaconHeaderLen + (slBeaconUnpackHeader wire).payloadLen.toNat)).take
        slAeadTagLen =
        wire.drop (slBeaconHeaderLen + (slBeaconUnpackHeader wire).payloadLen.toNat) := by
      apply List.take_of_length_le
      rw [List.length_drop, not_not.mp size, slBeaconWireSize]
      omega
    rw [header, tag, List.append_assoc, ← List.drop_drop, List.take_append_drop,
      List.take_append_drop]

/-- What a successful seal returns. -/
theorem slBeaconSeal_call {b : SlBeacon} {seq : UInt64} {wire : Bytes} {call : Sealed}
    (h : slBeaconSeal A key staticIv b seq = some (wire, call)) :
    slBeaconValidate b.toBeaconHeader = true ∧ call.nonce = slNonceBuild staticIv seq ∧
      call.pt = b.payload.take b.payloadLen.toNat ∧ call.ct.length = call.pt.length ∧
      call.tag.length = slAeadTagLen := by
  obtain ⟨valid, ct, tag, rfl, rfl⟩ := slBeaconSeal_made h
  exact ⟨valid, rfl, rfl, ct.2, tag.2⟩

theorem validate_payloadLen {b : BeaconHeader} (valid : slBeaconValidate b = true) :
    b.payloadLen.toNat ≤ slBeaconMaxPayload := by
  unfold slBeaconValidate at valid
  split_ifs at valid with zero long
  exact Nat.le_of_not_lt long

theorem length_slBeaconPackHeader (b : BeaconHeader) :
    (slBeaconPackHeader b).length = slBeaconHeaderLen := by
  simp only [slBeaconPackHeader, List.length_append, length_packU64, length_packU32, length_packU16]
  rfl

theorem slBeaconOpen_checked {wire : Bytes} (long : slBeaconHeaderLen + slAeadTagLen ≤ wire.length)
    (valid : slBeaconValidate (slBeaconUnpackHeader wire) = true)
    (size : wire.length = slBeaconWireSize (slBeaconUnpackHeader wire)) (seq : UInt64) :
    slBeaconOpen A key staticIv wire seq =
      ((A.slAeadOpen key.1 (slNonceBuild staticIv seq) (wire.take slBeaconHeaderLen)
        ((wire.drop slBeaconHeaderLen).take (slBeaconUnpackHeader wire).payloadLen.toNat)
        ((wire.drop (slBeaconHeaderLen + (slBeaconUnpackHeader wire).payloadLen.toNat)).take
          slAeadTagLen)).map Subtype.val).map
        fun payload => { slBeaconUnpackHeader wire with payload } := by
  rw [slBeaconOpen, if_neg (Nat.not_lt.mpr long)]
  dsimp only
  rw [if_neg (by rw [valid]; decide), if_neg (not_not.mpr size)]
  cases A.slAeadOpen _ _ _ _ _ <;> rfl

/-- The parts of a wire go to the AEAD as they stand. -/
theorem slBeaconOpen_eq {b : BeaconHeader} (valid : slBeaconValidate b = true) {ct tag : Bytes}
    (ctLen : ct.length = b.payloadLen.toNat) (tagLen : tag.length = slAeadTagLen) (seq : UInt64) :
    slBeaconOpen A key staticIv (slBeaconPackHeader b ++ ct ++ tag) seq =
      ((A.slAeadOpen key.1 (slNonceBuild staticIv seq) (slBeaconPackHeader b) ct tag).map
        Subtype.val).map fun payload => { b with payload } := by
  have header := length_slBeaconPackHeader b
  have fields : slBeaconUnpackHeader (slBeaconPackHeader b ++ ct ++ tag) = b := by
    rw [List.append_assoc, slBeaconUnpackHeader_pack]
  have size : (slBeaconPackHeader b ++ ct ++ tag).length = slBeaconWireSize b := by
    rw [List.length_append, List.length_append, header, ctLen, tagLen, slBeaconWireSize]
  have long : slBeaconHeaderLen + slAeadTagLen ≤ (slBeaconPackHeader b ++ ct ++ tag).length := by
    rw [size, slBeaconWireSize]
    omega
  have aad : (slBeaconPackHeader b ++ ct ++ tag).take slBeaconHeaderLen = slBeaconPackHeader b := by
    rw [List.append_assoc, ← header, List.take_left]
  have text : ((slBeaconPackHeader b ++ ct ++ tag).drop slBeaconHeaderLen).take b.payloadLen.toNat =
      ct := by
    rw [List.append_assoc, ← header, List.drop_left, ← ctLen, List.take_left]
  have behind : ((slBeaconPackHeader b ++ ct ++ tag).drop
      (slBeaconHeaderLen + b.payloadLen.toNat)).take slAeadTagLen = tag := by
    rw [List.drop_left' (by rw [List.length_append, header, ctLen]), ← tagLen, List.take_length]
  rw [slBeaconOpen_checked long (by rw [fields]; exact valid) (by rw [fields]; exact size), fields, aad,
    text, behind]

theorem SlBeaconT.overwrite_take (payload : FixedBytes slBeaconMaxPayload) {bytes : Bytes}
    (fits : bytes.length ≤ slBeaconMaxPayload) :
    (overwrite payload bytes).1.take bytes.length = bytes := by
  rw [overwrite, List.take_take, Nat.min_eq_left fits, List.take_left]

section Into
variable {wire : Bytes} {seq : UInt64} {b : SlBeaconT}

/-- Everything that is checked before the AEAD is called. -/
def WellFormed (wire : Bytes) : Prop :=
  slBeaconValidate (slBeaconUnpackHeader wire) = true ∧
    wire.length = slBeaconWireSize (slBeaconUnpackHeader wire)

theorem slBeaconOpen_refused (refused : ¬ WellFormed wire) :
    slBeaconOpen A key staticIv wire seq = none := by
  unfold slBeaconOpen
  dsimp only
  split_ifs with short invalid size
  · rfl
  · rfl
  · rfl
  · exact absurd ⟨by simpa using invalid, not_not.mp size⟩ refused

theorem slBeaconOpenInto_refused (long : slBeaconHeaderLen + slAeadTagLen ≤ wire.length)
    (refused : ¬ WellFormed wire) :
    slBeaconOpenInto A key staticIv wire seq b = (SlBeaconT.unpack wire, -1) := by
  rw [slBeaconOpenInto, if_neg (Nat.not_lt.mpr long)]
  dsimp only
  by_cases valid : slBeaconValidate (SlBeaconT.unpack wire).toBeaconHeader = true
  · have size : wire.length ≠ slBeaconWireSize (SlBeaconT.unpack wire).toBeaconHeader :=
      fun size => refused ⟨valid, size⟩
    rw [if_pos size, ite_self]
  · exact if_pos (by simpa using valid)

theorem slBeaconOpenInto_checked (long : slBeaconHeaderLen + slAeadTagLen ≤ wire.length)
    (wellFormed : WellFormed wire) :
    slBeaconOpenInto A key staticIv wire seq b =
      match (A.slAeadOpen key.1 (slNonceBuild staticIv seq) (wire.take slBeaconHeaderLen)
        ((wire.drop slBeaconHeaderLen).take (slBeaconUnpackHeader wire).payloadLen.toNat)
        ((wire.drop (slBeaconHeaderLen + (slBeaconUnpackHeader wire).payloadLen.toNat)).take
          slAeadTagLen)).map Subtype.val with
      | none => (SlBeaconT.unpack wire, -1)
      | some pt =>
        ({ slBeaconUnpackHeader wire with
           payload := SlBeaconT.overwrite SlBeaconT.zeroPayload pt }, 0) := by
  have invalid : ¬ (!slBeaconValidate (SlBeaconT.unpack wire).toBeaconHeader) = true := by
    rw [Bool.not_eq_true', Bool.not_eq_false]
    exact wellFormed.1
  have size : ¬ wire.length ≠ slBeaconWireSize (SlBeaconT.unpack wire).toBeaconHeader :=
    not_not.mpr wellFormed.2
  rw [slBeaconOpenInto, if_neg (Nat.not_lt.mpr long)]
  dsimp only
  rw [if_neg invalid, if_neg size]
  simp only [SlBeaconT.unpack]
  cases A.slAeadOpen _ _ _ _ _ <;> rfl

/-- The structure that is written holds what is returned. -/
theorem slBeaconOpen_into (wire : Bytes) (seq : UInt64) (b : SlBeaconT) :
    slBeaconOpen A key staticIv wire seq =
      if (slBeaconOpenInto A key staticIv wire seq b).2 = 0 then
        some (slBeaconOpenInto A key staticIv wire seq b).1.inUse
      else none := by
  by_cases short : wire.length < slBeaconHeaderLen + slAeadTagLen
  · rw [slBeaconOpen, if_pos short, slBeaconOpenInto, if_pos short]
    rfl
  have long := Nat.le_of_not_lt short
  by_cases wellFormed : WellFormed wire
  · rw [slBeaconOpen_checked long wellFormed.1 wellFormed.2, slBeaconOpenInto_checked long wellFormed]
    cases A.slAeadOpen _ _ _ _ _ with
    | none => rfl
    | some pt =>
      have size := wellFormed.2
      rw [slBeaconWireSize] at size
      have length : pt.1.length = (slBeaconUnpackHeader wire).payloadLen.toNat := by
        rw [pt.2, List.length_take, List.length_drop]
        omega
      have fits : pt.1.length ≤ slBeaconMaxPayload := by
        rw [length]
        exact validate_payloadLen wellFormed.1
      have kept := SlBeaconT.overwrite_take SlBeaconT.zeroPayload fits
      rw [length] at kept
      simp only [Option.map_some, if_true, SlBeaconT.inUse, kept]
  · rw [slBeaconOpen_refused wellFormed, slBeaconOpenInto_refused long wellFormed]
    rfl

/-- Unless the wire is too short, a failed call leaves no payload. -/
theorem slBeaconOpenInto_failed (long : slBeaconHeaderLen + slAeadTagLen ≤ wire.length)
    (failed : (slBeaconOpenInto A key staticIv wire seq b).2 ≠ 0) :
    (slBeaconOpenInto A key staticIv wire seq b).1.payload = SlBeaconT.zeroPayload := by
  by_cases wellFormed : WellFormed wire
  · rw [slBeaconOpenInto_checked long wellFormed] at failed ⊢
    split at failed
    next => rfl
    next => exact absurd rfl failed
  · rw [slBeaconOpenInto_refused long wellFormed]
    rfl

end Into

end Aead

end SecureLink.Source.Beacon
