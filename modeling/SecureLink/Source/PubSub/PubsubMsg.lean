import SecureLink.Source.Wire.Fields

/-!
# Messages of the broker

src/sl_pubsub_msg.c:20-65. A topic or payload pointer is `none` for `NULL`. Every access of the
decoder is checked: a read behind the end of the input, or a topic or payload that reaches behind
it, gives `none`.
-/
namespace SecureLink.Source.PubSub
open Library.BigEndian Wire

def slPubsubHeaderLen : Nat := 8
def slPubsubMaxTopic : Nat := 256
def slPubsubMaxPayload : Nat := 16 * 1024

inductive SlPubsubMsgType where
  | invalid | publish | subscribe | unsubscribe | puback | suback
  deriving DecidableEq, Repr

namespace SlPubsubMsgType

def code : SlPubsubMsgType → UInt8
  | invalid => 0
  | publish => 1
  | subscribe => 2
  | unsubscribe => 3
  | puback => 4
  | suback => 5

/-- The cast, for the codes that the decoder lets through. -/
def ofCode (type : UInt8) : SlPubsubMsgType :=
  if type = 1 then publish
  else if type = 2 then subscribe
  else if type = 3 then unsubscribe
  else if type = 4 then puback
  else if type = 5 then suback
  else invalid

theorem ofCode_code (type : SlPubsubMsgType) : ofCode type.code = type := by
  cases type <;> rfl

/-- The check of the decoder. -/
theorem code_accepted {type : SlPubsubMsgType} (valid : type ≠ invalid) :
    ¬ (type.code == 0 || decide (type.code > suback.code)) = true := by
  cases type with
  | invalid => exact absurd rfl valid
  | publish => decide
  | subscribe => decide
  | unsubscribe => decide
  | puback => decide
  | suback => decide

end SlPubsubMsgType

structure SlPubsubMsg where
  type : SlPubsubMsgType
  flags : UInt8
  topic : Option Bytes
  topicLen : UInt16
  payload : Option Bytes
  payloadLen : UInt32
deriving DecidableEq

def slPubsubPack (m : SlPubsubMsg) (outCap : Nat) : Option Bytes :=
  if m.topicLen.toNat > slPubsubMaxTopic then none
  else if m.payloadLen.toNat > slPubsubMaxPayload then none
  else if m.topicLen > 0 && m.topic.isNone then none
  else if m.payloadLen > 0 && m.payload.isNone then none
  else if outCap < slPubsubHeaderLen + m.topicLen.toNat + m.payloadLen.toNat then none
  else some ([m.type.code, m.flags] ++ packU16 m.topicLen ++ packU32 m.payloadLen ++
    octets m.topic m.topicLen.toNat ++ octets m.payload m.payloadLen.toNat)

def slPubsubUnpack (bytes : Bytes) : Option (Option SlPubsubMsg) :=
  if bytes.length < slPubsubHeaderLen then pure none
  else do
    let type ← byteAt bytes 0
    let flags ← byteAt bytes 1
    let tlen ← u16At bytes 2
    let plen ← u32At bytes 4
    if type == 0 || type > SlPubsubMsgType.suback.code then pure none
    else if tlen.toNat > slPubsubMaxTopic || plen.toNat > slPubsubMaxPayload then pure none
    else if bytes.length < slPubsubHeaderLen + tlen.toNat + plen.toNat then pure none
    else do
      let topic ← pointerAt bytes slPubsubHeaderLen tlen.toNat
      let payload ← pointerAt bytes (slPubsubHeaderLen + tlen.toNat) plen.toNat
      pure (some
        { type := .ofCode type, flags, topic, topicLen := tlen, payload, payloadLen := plen })

/-- No access is behind the end of the input. -/
theorem slPubsubUnpack_inside (bytes : Bytes) : (slPubsubUnpack bytes).isSome = true := by
  unfold slPubsubUnpack slPubsubHeaderLen
  split
  next => rfl
  next long =>
    rw [byteAt_eq (by omega), byteAt_eq (by omega), u16At_eq (by omega), u32At_eq (by omega)]
    simp only [Option.bind_eq_bind, Option.bind_some]
    split
    next => rfl
    next =>
      split
      next => rfl
      next =>
        split
        next => rfl
        next whole =>
          rw [pointerAt_eq (by omega), pointerAt_eq (by omega)]
          rfl

namespace SlPubsubMsg
variable {m : SlPubsubMsg}

/-- The pointers hold as many octets as the lengths say. -/
def Held (m : SlPubsubMsg) : Prop :=
  m.topicLen.toNat ≤ (m.topic.getD []).length ∧ m.payloadLen.toNat ≤ (m.payload.getD []).length

/-- The lengths are within the limits. -/
def Fits (m : SlPubsubMsg) : Prop :=
  m.topicLen.toNat ≤ slPubsubMaxTopic ∧ m.payloadLen.toNat ≤ slPubsubMaxPayload

instance (m : SlPubsubMsg) : Decidable m.Fits := inferInstanceAs (Decidable (_ ∧ _))

def wire (m : SlPubsubMsg) : Bytes :=
  m.type.code :: m.flags :: (packU16 m.topicLen ++ (packU32 m.payloadLen ++
    (octets m.topic m.topicLen.toNat ++ octets m.payload m.payloadLen.toNat)))

theorem length_wire (held : m.Held) :
    m.wire.length = slPubsubHeaderLen + m.topicLen.toNat + m.payloadLen.toNat := by
  simp only [wire, List.length_cons, List.length_append, length_packU32, length_packU16,
    length_octets held.1, length_octets held.2, slPubsubHeaderLen]
  omega

end SlPubsubMsg

/-- The wire, unless a limit is exceeded or it does not fit. -/
theorem slPubsubPack_eq {m : SlPubsubMsg} (held : m.Held) (outCap : Nat) :
    slPubsubPack m outCap = if m.Fits ∧ m.wire.length ≤ outCap then some m.wire else none := by
  have topic : ¬ (decide (m.topicLen > 0) && m.topic.isNone) = true :=
    null_unchecked held.1 fun positive => UInt16.lt_iff_toNat_lt.mp (of_decide_eq_true positive)
  have payload : ¬ (decide (m.payloadLen > 0) && m.payload.isNone) = true :=
    null_unchecked held.2 fun positive => UInt32.lt_iff_toNat_lt.mp (of_decide_eq_true positive)
  rw [slPubsubPack, if_neg topic, if_neg payload, m.length_wire held]
  split
  next long => exact (if_neg fun ok => Nat.not_lt.mpr ok.1.1 long).symm
  next shortTopic =>
    split
    next long => exact (if_neg fun ok => Nat.not_lt.mpr ok.1.2 long).symm
    next shortPayload =>
      split
      next small => exact (if_neg fun ok => Nat.not_le.mpr small ok.2).symm
      next room =>
        rw [if_pos ⟨⟨Nat.le_of_not_lt shortTopic, Nat.le_of_not_lt shortPayload⟩, Nat.le_of_not_lt room⟩]
        simp only [SlPubsubMsg.wire, List.append_assoc, List.cons_append, List.nil_append]

/-- A message with a type comes back from its wire, whatever follows it. -/
theorem slPubsubUnpack_wire {m : SlPubsubMsg} (held : m.Held) (fits : m.Fits)
    (valid : m.type ≠ .invalid) (rest : Bytes) :
    slPubsubUnpack (m.wire ++ rest) = some (some { m with
      topic := received m.topic m.topicLen.toNat
      payload := received m.payload m.payloadLen.toNat }) := by
  have size : (m.wire ++ rest).length =
      slPubsubHeaderLen + m.topicLen.toNat + m.payloadLen.toNat + rest.length := by
    rw [List.length_append, m.length_wire held]
  have layout : m.wire ++ rest = m.type.code :: m.flags :: (packU16 m.topicLen ++
      (packU32 m.payloadLen ++ (octets m.topic m.topicLen.toNat ++
        (octets m.payload m.payloadLen.toNat ++ rest)))) := by
    simp only [SlPubsubMsg.wire, List.cons_append, List.append_assoc]
  generalize m.wire ++ rest = bytes at size layout
  have header : bytes.length = 8 + m.topicLen.toNat + m.payloadLen.toNat + rest.length := size
  have atTopic : bytes.drop slPubsubHeaderLen = octets m.topic m.topicLen.toNat ++
      (octets m.payload m.payloadLen.toNat ++ rest) := by rw [layout]; rfl
  have atPayload : bytes.drop (slPubsubHeaderLen + m.topicLen.toNat) =
      octets m.payload m.payloadLen.toNat ++ rest := by
    rw [← List.drop_drop, atTopic, List.drop_left' (length_octets held.1)]
  have atTopicLen : unpackU16 (bytes.drop 2) = m.topicLen := by rw [layout]; exact unpackU16_pack _ _
  have atPayloadLen : unpackU32 (bytes.drop 4) = m.payloadLen := by rw [layout]; exact unpackU32_pack _ _
  have first : bytes.getD 0 0 = m.type.code := by rw [layout]; rfl
  have second : bytes.getD 1 0 = m.flags := by rw [layout]; rfl
  have limits : ¬ (decide (m.topicLen.toNat > slPubsubMaxTopic) ||
      decide (m.payloadLen.toNat > slPubsubMaxPayload)) = true := by
    rw [Bool.or_eq_true, decide_eq_true_eq, decide_eq_true_eq, not_or]
    exact ⟨Nat.not_lt.mpr fits.1, Nat.not_lt.mpr fits.2⟩
  rw [slPubsubUnpack, if_neg (by omega), byteAt_eq (by omega), byteAt_eq (by omega), u16At_eq (by omega),
    u32At_eq (by omega), first, second, atTopicLen, atPayloadLen]
  simp only [Option.bind_eq_bind, Option.bind_some]
  rw [if_neg (SlPubsubMsgType.code_accepted valid), if_neg limits, if_neg (by omega),
    pointerAt_eq (by omega), pointerAt_eq (by omega), atTopic, atPayload,
    List.take_left' (length_octets held.1), List.take_left' (length_octets held.2),
    SlPubsubMsgType.ofCode_code]
  rfl

end SecureLink.Source.PubSub
