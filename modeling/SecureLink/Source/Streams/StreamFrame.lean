import SecureLink.Library.Incremental
import SecureLink.Source.Streams.Stream
import SecureLink.Source.Wire.Fields

/-!
# Stream frames on the wire

src/sl_stream_frame.c:24-67. The payload pointer of an empty frame is not told apart from one to no
bytes. A record carries frames one after another, and inc/sl_stream_frame.h has the receiver
take one off the front until the record is exhausted.
-/
namespace SecureLink.Source.Streams
open Library.BigEndian Library.Incremental Wire

def slStreamFrameHeaderLen : Nat := 10

namespace SlStreamFrameType

/-- The octet of a type. -/
def code : SlStreamFrameType → UInt8
  | invalid => 0
  | data => 1
  | window => 2
  | reset => 3
  | ping => 4
  | pong => 5

/-- The cast of an octet, made where it is one of the codes. -/
def ofCode (octet : UInt8) : SlStreamFrameType :=
  if octet = 1 then data
  else if octet = 2 then window
  else if octet = 3 then reset
  else if octet = 4 then ping
  else if octet = 5 then pong
  else invalid

theorem ofCode_code (t : SlStreamFrameType) : ofCode t.code = t := by
  cases t <;> rfl

theorem code_ofCode {octet : UInt8} (small : octet ≤ pong.code) : (ofCode octet).code = octet := by
  have bound : octet.toNat ≤ 5 := UInt8.le_iff_toNat_le.mp small
  have named : ∀ n ≤ 5, (ofCode (UInt8.ofNat n)).code = UInt8.ofNat n := by decide
  rw [← UInt8.ofNat_toNat (x := octet)]
  exact named _ bound

theorem code_le (t : SlStreamFrameType) : t.code ≤ pong.code := by
  cases t <;> decide

theorem code_eq_zero (t : SlStreamFrameType) : t.code = 0 ↔ t = invalid := by
  cases t <;> decide

end SlStreamFrameType

/-- What a 16-bit length cuts off. -/
def payloadOf (bytes : Bytes) (len : UInt16) : { bytes : Bytes // bytes.length < 2 ^ 16 } :=
  ⟨bytes.take len.toNat, Nat.lt_of_le_of_lt (List.length_take_le _ _) len.toNat_lt⟩

def slStreamFramePack (f : SlStreamFrame) (outCap : Nat) : Option Bytes :=
  let payloadLen := UInt16.ofNat f.payload.1.length
  if payloadLen.toNat > slStreamFrameMaxPayload then none
  else if outCap < slStreamFrameHeaderLen + payloadLen.toNat then none
  else some (f.type.code :: f.flags :: (packU16 0 ++ (packU32 f.streamId ++
    (packU16 payloadLen ++ f.payload.1))))

/-- The frame at the front and the bytes consumed. -/
def slStreamFrameUnpack (bytes : Bytes) : Option (SlStreamFrame × Nat) :=
  if bytes.length < slStreamFrameHeaderLen then none
  else if unpackU16 (bytes.drop 2) ≠ 0 then none
  else
    let type := bytes.getD 0 0
    let payloadLen := unpackU16 (bytes.drop 8)
    if payloadLen.toNat > slStreamFrameMaxPayload then none
    else if bytes.length < slStreamFrameHeaderLen + payloadLen.toNat then none
    else if type = 0 ∨ type > SlStreamFrameType.pong.code then none
    else some
      ({ type := .ofCode type
         flags := bytes.getD 1 0
         streamId := unpackU32 (bytes.drop 4)
         payload := payloadOf (bytes.drop slStreamFrameHeaderLen) payloadLen },
       slStreamFrameHeaderLen + payloadLen.toNat)

/-- The receiver's look at the rest of a record. -/
def nextStreamFrame (bytes : Bytes) : Front Bytes SlStreamFrame Unit :=
  if bytes = [] then .more
  else
    match slStreamFrameUnpack bytes with
    | none => .bad ()
    | some (f, consumed) => .item f (bytes.drop consumed)

/-- The frames of a record, whether one was refused, and the bytes left then; `none` if that
takes more rounds. -/
def unpackStreamFrames (rounds : Nat) (record : Bytes) : Option (Drained Bytes SlStreamFrame Unit) :=
  drain nextStreamFrame rounds record

/-! ## Packing and unpacking -/

/-- What the decoder accepts and the encoder is given: a valid type, a payload within the limit. -/
def SlStreamFrame.Valid (f : SlStreamFrame) : Prop :=
  f.type ≠ .invalid ∧ f.payload.1.length ≤ slStreamFrameMaxPayload

instance (f : SlStreamFrame) : Decidable f.Valid :=
  inferInstanceAs (Decidable (_ ∧ _))

/-- The encoding. -/
def SlStreamFrame.wire (f : SlStreamFrame) : Bytes :=
  f.type.code :: f.flags :: (packU16 0 ++ (packU32 f.streamId ++
    (packU16 (UInt16.ofNat f.payload.1.length) ++ f.payload.1)))

theorem SlStreamFrame.payloadLen (f : SlStreamFrame) :
    (UInt16.ofNat f.payload.1.length).toNat = f.payload.1.length :=
  UInt16.toNat_ofNat_of_lt' f.payload.2

theorem SlStreamFrame.length_wire (f : SlStreamFrame) :
    f.wire.length = slStreamFrameHeaderLen + f.payload.1.length := by
  simp only [wire, List.length_cons, List.length_append, length_packU16, length_packU32,
    slStreamFrameHeaderLen]
  omega

theorem slStreamFramePack_eq {f : SlStreamFrame} {outCap : Nat}
    (small : f.payload.1.length ≤ slStreamFrameMaxPayload) (room : f.wire.length ≤ outCap) :
    slStreamFramePack f outCap = some f.wire := by
  rw [f.length_wire] at room
  simp only [slStreamFramePack, f.payloadLen, if_neg (Nat.not_lt.mpr small),
    if_neg (Nat.not_lt.mpr room), SlStreamFrame.wire]

/-- Whatever follows it, an encoded frame comes back. -/
theorem slStreamFrameUnpack_wire {f : SlStreamFrame} (valid : f.Valid) (rest : Bytes) :
    slStreamFrameUnpack (f.wire ++ rest) = some (f, f.wire.length) := by
  obtain ⟨named, small⟩ := valid
  have size : (f.wire ++ rest).length =
      slStreamFrameHeaderLen + f.payload.1.length + rest.length := by
    rw [List.length_append, f.length_wire]
  have reserved : unpackU16 ((f.wire ++ rest).drop 2) = 0 := unpackU16_pack 0 _
  have atId : unpackU32 ((f.wire ++ rest).drop 4) = f.streamId := unpackU32_pack f.streamId _
  have atLen : unpackU16 ((f.wire ++ rest).drop 8) = UInt16.ofNat f.payload.1.length :=
    unpackU16_pack _ _
  have atPayload : payloadOf ((f.wire ++ rest).drop slStreamFrameHeaderLen)
      (UInt16.ofNat f.payload.1.length) = f.payload := by
    have behind : (f.wire ++ rest).drop slStreamFrameHeaderLen = f.payload.1 ++ rest := rfl
    apply Subtype.ext
    simp only [payloadOf, behind, f.payloadLen, List.take_left]
  have type : (f.wire ++ rest).getD 0 0 = f.type.code := rfl
  have flags : (f.wire ++ rest).getD 1 0 = f.flags := rfl
  have code : ¬ (f.type.code = 0 ∨ f.type.code > SlStreamFrameType.pong.code) := by
    rw [f.type.code_eq_zero]
    exact not_or.mpr ⟨named, UInt8.not_lt.mpr f.type.code_le⟩
  rw [slStreamFrameUnpack, if_neg (by omega), reserved, if_neg (not_not_intro rfl)]
  simp only [atLen, atId, atPayload, type, flags, f.payloadLen]
  rw [if_neg (Nat.not_lt.mpr small), if_neg (by omega), if_neg code, f.type.ofCode_code,
    f.length_wire]

/-- The header fields, read where `sl_stream_frame_pack` writes them. -/
theorem take_streamFrame {bytes : Bytes} (long : slStreamFrameHeaderLen ≤ bytes.length)
    (payloadLen : Nat) :
    bytes.take (slStreamFrameHeaderLen + payloadLen) =
      bytes.getD 0 0 :: bytes.getD 1 0 :: (packU16 (unpackU16 (bytes.drop 2)) ++
        (packU32 (unpackU32 (bytes.drop 4)) ++ (packU16 (unpackU16 (bytes.drop 8)) ++
          (bytes.drop slStreamFrameHeaderLen).take payloadLen))) := by
  unfold slStreamFrameHeaderLen at long ⊢
  rw [packU16_unpack (by rw [List.length_drop]; omega),
    packU32_unpack (by rw [List.length_drop]; omega),
    packU16_unpack (by rw [List.length_drop]; omega), List.take_add]
  match bytes, long with
  | _ :: _ :: _ :: _ :: _ :: _ :: _ :: _ :: _ :: _ :: _, _ => rfl

/-- An accepted frame is valid and its encoding is what was consumed. -/
theorem slStreamFrameUnpack_some {bytes : Bytes} {f : SlStreamFrame} {consumed : Nat}
    (accepted : slStreamFrameUnpack bytes = some (f, consumed)) :
    f.Valid ∧ consumed ≤ bytes.length ∧ f.wire = bytes.take consumed := by
  simp only [slStreamFrameUnpack, Option.ite_none_left_eq_some, Option.some.injEq,
    Prod.mk.injEq, not_or, Nat.not_lt, not_not] at accepted
  obtain ⟨long, reserved, small, fits, ⟨nonzero, code⟩, rfl, rfl⟩ := accepted
  have type := SlStreamFrameType.code_ofCode (UInt8.not_lt.mp code)
  have payload : (payloadOf (bytes.drop slStreamFrameHeaderLen) (unpackU16 (bytes.drop 8))).1 =
      (bytes.drop slStreamFrameHeaderLen).take (unpackU16 (bytes.drop 8)).toNat := rfl
  have length : ((bytes.drop slStreamFrameHeaderLen).take (unpackU16 (bytes.drop 8)).toNat).length =
      (unpackU16 (bytes.drop 8)).toNat := by
    rw [List.length_take, List.length_drop]
    omega
  refine ⟨⟨?_, ?_⟩, fits, ?_⟩
  · intro invalid
    rw [← SlStreamFrameType.code_eq_zero, type] at invalid
    exact nonzero invalid
  · rw [payload, length]
    exact small
  · rw [take_streamFrame long, SlStreamFrame.wire, payload, length, UInt16.ofNat_toNat, type,
      reserved]

/-! ## The frames of a record -/

theorem nextStreamFrame_item {bytes next : Bytes} {f : SlStreamFrame}
    (front : nextStreamFrame bytes = .item f next) :
    ∃ consumed, slStreamFrameUnpack bytes = some (f, consumed) ∧ next = bytes.drop consumed := by
  simp only [nextStreamFrame] at front
  split at front
  · cases front
  · split at front
    · cases front
    · rename_i g consumed unpacked
      cases front
      exact ⟨consumed, unpacked, rfl⟩

theorem nextStreamFrame_shrinks : Shrinks nextStreamFrame List.length := by
  intro bytes f next front
  obtain ⟨consumed, unpacked, rfl⟩ := nextStreamFrame_item front
  obtain ⟨-, fits, wire⟩ := slStreamFrameUnpack_some unpacked
  have length := congrArg List.length wire
  rw [f.length_wire, List.length_take, slStreamFrameHeaderLen] at length
  rw [List.length_drop]
  omega

theorem nextStreamFrame_wire {f : SlStreamFrame} (valid : f.Valid) (rest : Bytes) :
    nextStreamFrame (f.wire ++ rest) = .item f rest := by
  have nonempty : f.wire ++ rest ≠ [] := List.cons_ne_nil _ _
  rw [nextStreamFrame, if_neg nonempty]
  simp only [slStreamFrameUnpack_wire valid, List.drop_left]

/-- Any list of frames packed one behind the other is read back to the last byte. -/
theorem unpackStreamFrames_wire {frames : List SlStreamFrame} (valid : ∀ f ∈ frames, f.Valid)
    {rounds : Nat} (enough : (frames.flatMap SlStreamFrame.wire).length < rounds) :
    unpackStreamFrames rounds (frames.flatMap SlStreamFrame.wire) =
      some { items := frames, left := [] } := by
  have all := drainAll_encoded nextStreamFrame_shrinks (fun bytes => bytes)
    (fun f member => nextStreamFrame_wire (valid f member)) []
  have exhausted : drainAll nextStreamFrame List.length ([] : Bytes) = { left := [] } :=
    drainAll_more rfl
  rw [List.append_nil, exhausted] at all
  rw [unpackStreamFrames, drain_eq nextStreamFrame_shrinks enough, all]
  simp [Drained.after]

end SecureLink.Source.Streams
