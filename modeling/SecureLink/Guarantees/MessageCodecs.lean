import SecureLink.Source.PubSub.PubsubMsg
import SecureLink.Source.Rpc.RpcMsg

/-!
# The codecs of the application messages

Requests and responses (src/sl_rpc_msg.c) and the messages of the broker (src/sl_pubsub_msg.c) are
packed and unpacked in the same way: a few fixed fields, the lengths of what follows, and the bytes.
What the three have in common is stated once.
-/
namespace SecureLink.Guarantees.MessageCodecs
open Library.BigEndian Source.Wire Source.Rpc Source.PubSub

/-- A pair of a packer, which gets the size of its buffer, and an unpacker, which is `none` if it
looks behind the end of its input or returns a pointer that reaches behind it. -/
structure Codec (α : Type) where
  pack : α → Nat → Option Bytes
  unpack : Bytes → Option (Option α)
  /-- The pointers of the message hold as many bytes as its lengths say. -/
  Held : α → Prop
  /-- No length exceeds its limit. -/
  Fits : α → Prop
  /-- The other fields can be told apart on the wire. -/
  Valid : α → Prop
  Same : α → α → Prop

/-- Every message has an encoding. Packing gives it, unless a limit is exceeded or the buffer is
smaller. Unpacking it, whatever follows, gives the same fields. No input makes the unpacker look
behind its end. -/
def Codec.Inverse {α : Type} (c : Codec α) : Prop :=
  (∀ m, c.Held m → ∃ wire,
    (∀ outCap, c.pack m outCap = none ↔ ¬ c.Fits m ∨ outCap < wire.length) ∧
    (∀ outCap packed, c.pack m outCap = some packed → packed = wire) ∧
    (c.Fits m → c.Valid m → ∀ rest, ∃ m', c.unpack (wire ++ rest) = some (some m') ∧ c.Same m m')) ∧
  ∀ bytes, (c.unpack bytes).isSome = true

/-- A packer that gives the encoding if it can. -/
theorem Codec.inverse_of_wire {α : Type} {c : Codec α} (wire : α → Bytes)
    [∀ m, Decidable (c.Fits m)]
    (packs : ∀ m, c.Held m → ∀ outCap, c.pack m outCap =
      if c.Fits m ∧ (wire m).length ≤ outCap then some (wire m) else none)
    (unpacks : ∀ m, c.Held m → c.Fits m → c.Valid m → ∀ rest,
      ∃ m', c.unpack (wire m ++ rest) = some (some m') ∧ c.Same m m')
    (inside : ∀ bytes, (c.unpack bytes).isSome = true) : c.Inverse := by
  refine ⟨fun m held => ⟨wire m, ?_, ?_, unpacks m held⟩, inside⟩
  · intro outCap
    rw [packs m held, ite_eq_right_iff, ← Nat.not_le, ← not_and_or]
    simp
  · intro outCap packed result
    rw [packs m held] at result
    split at result
    · exact (Option.some.inj result).symm
    · cases result

def requestCodec : Codec SlRpcRequest where
  pack := slRpcRequestPack
  unpack := slRpcRequestUnpackWithin
  Held := SlRpcRequest.Held
  Fits r := 1 ≤ r.methodLen.toNat ∧ r.methodLen.toNat ≤ 128 ∧ r.bodyLen.toNat ≤ slRpcBodyMax
  Valid _ := True
  Same r r' := r'.requestId = r.requestId ∧ r'.methodLen = r.methodLen ∧
    r'.method = r.method.take r.methodLen.toNat ∧ r'.bodyLen = r.bodyLen ∧
    octets r'.body r'.bodyLen.toNat = octets r.body r.bodyLen.toNat

def responseCodec : Codec SlRpcResponse where
  pack := slRpcResponsePack
  unpack := slRpcResponseUnpackWithin
  Held := SlRpcResponse.Held
  Fits r := r.bodyLen.toNat ≤ slRpcBodyMax
  Valid r := r.status.code.toNat < 256
  Same r r' := r'.requestId = r.requestId ∧ r'.status = r.status ∧ r'.bodyLen = r.bodyLen ∧
    octets r'.body r'.bodyLen.toNat = octets r.body r.bodyLen.toNat

def pubsubCodec : Codec SlPubsubMsg where
  pack := slPubsubPack
  unpack := slPubsubUnpack
  Held := SlPubsubMsg.Held
  Fits m := m.topicLen.toNat ≤ 256 ∧ m.payloadLen.toNat ≤ 16 * 1024
  Valid m := m.type ≠ .invalid
  Same m m' := m'.type = m.type ∧ m'.flags = m.flags ∧ m'.topicLen = m.topicLen ∧
    octets m'.topic m'.topicLen.toNat = octets m.topic m.topicLen.toNat ∧
    m'.payloadLen = m.payloadLen ∧
    octets m'.payload m'.payloadLen.toNat = octets m.payload m.payloadLen.toNat

/-- A status below 256 is its low octet. -/
theorem status_octet {s : SlRpcStatus} (small : s.code.toNat < 256) :
    (⟨s.code.toUInt8.toUInt32⟩ : SlRpcStatus) = s := by
  have code : s.code.toUInt8.toUInt32 = s.code := by
    apply UInt32.toNat_inj.mp
    rw [UInt8.toNat_toUInt32, UInt32.toNat_toUInt8, Nat.mod_eq_of_lt small]
  rw [code]

theorem requestCodec_inverse : requestCodec.Inverse := by
  refine @Codec.inverse_of_wire _ requestCodec SlRpcRequest.wire
    (inferInstanceAs (DecidablePred SlRpcRequest.Fits)) (fun _ held => slRpcRequestPack_eq held) ?_ ?_
  · intro r held fits _ rest
    have back := slRpcRequestUnpackWithin_eq (r.wire ++ rest)
    rw [slRpcRequestUnpack_wire held fits] at back
    exact ⟨_, back, rfl, rfl, rfl, rfl, octets_received held.2⟩
  · intro bytes
    exact (congrArg Option.isSome (slRpcRequestUnpackWithin_eq bytes)).trans rfl

theorem responseCodec_inverse : responseCodec.Inverse := by
  refine @Codec.inverse_of_wire _ responseCodec SlRpcResponse.wire
    (inferInstanceAs (DecidablePred SlRpcResponse.Fits)) (fun _ held => slRpcResponsePack_eq held) ?_ ?_
  · intro r held fits small rest
    have back := slRpcResponseUnpackWithin_eq (r.wire ++ rest)
    rw [slRpcResponseUnpack_wire held fits] at back
    exact ⟨_, back, rfl, status_octet small, rfl, octets_received held⟩
  · intro bytes
    exact (congrArg Option.isSome (slRpcResponseUnpackWithin_eq bytes)).trans rfl

theorem pubsubCodec_inverse : pubsubCodec.Inverse := by
  refine @Codec.inverse_of_wire _ pubsubCodec SlPubsubMsg.wire
    (inferInstanceAs (DecidablePred SlPubsubMsg.Fits)) (fun _ held => slPubsubPack_eq held) ?_
    slPubsubUnpack_inside
  intro m held fits valid rest
  exact ⟨_, slPubsubUnpack_wire held fits valid rest, rfl, rfl, rfl, octets_received held.1, rfl,
    octets_received held.2⟩

/-- Requests, responses and publish/subscribe messages come back from their encodings, whatever
follows, and no input makes an unpacker look behind its end. -/
theorem message_codecs_inverse :
    requestCodec.Inverse ∧ responseCodec.Inverse ∧ pubsubCodec.Inverse :=
  ⟨requestCodec_inverse, responseCodec_inverse, pubsubCodec_inverse⟩

end SecureLink.Guarantees.MessageCodecs
