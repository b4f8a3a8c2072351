import SecureLink.Guarantees.RecordStream
import SecureLink.Source.Beacon.Beacon

/-!
# Beacons on the wire

A sealed beacon opens to itself. Under an ideal AEAD nothing else opens: the wire is one that was
sealed with the same key and nonce, to the last byte. A wire that does not open leaves no payload.
-/
namespace SecureLink.Guarantees.BeaconCodec
open Library.BigEndian Source.Record Source.Beacon RecordStream

/-- What a beacon is sealed with. -/
structure SealRequest where
  key : FixedBytes slAeadKeyLen
  staticIv : FixedBytes slAeadIvLen
  beacon : SlBeaconT
  seq : UInt64

variable (A : Aead)

def SealRequest.sealed (q : SealRequest) : Option (Bytes × Sealed) :=
  slBeaconSeal A q.key q.staticIv q.beacon.inUse q.seq

/-- The calls of the AEAD that the requests make. -/
def sealCalls (requests : List SealRequest) : List Sealed :=
  requests.filterMap fun q => (q.sealed A).map Prod.snd

variable {A}

theorem mem_sealCalls {requests : List SealRequest} {call : Sealed} :
    call ∈ sealCalls A requests ↔ ∃ q ∈ requests, ∃ wire, q.sealed A = some (wire, call) := by
  simp only [sealCalls, List.mem_filterMap, Option.map_eq_some_iff]
  constructor
  · intro ⟨q, member, ⟨wire, _⟩, result, rfl⟩
    exact ⟨q, member, wire, result⟩
  · intro ⟨q, member, wire, result⟩
    exact ⟨q, member, (wire, call), result, rfl⟩

/-- The number that is returned and the bytes in use, from the beacon that is returned. -/
theorem slBeaconOpenInto_iff {key : FixedBytes slAeadKeyLen} {staticIv : FixedBytes slAeadIvLen}
    {wire : Bytes} {seq : UInt64} {b : SlBeaconT} {opened : SlBeacon} :
    slBeaconOpen A key staticIv wire seq = some opened ↔
      (slBeaconOpenInto A key staticIv wire seq b).2 = 0 ∧
        (slBeaconOpenInto A key staticIv wire seq b).1.inUse = opened := by
  rw [slBeaconOpen_into wire seq b]
  split
  next ok => rw [Option.some_inj, and_iff_right ok]
  next failed => exact iff_of_false (by simp) (fun both => failed both.1)

theorem length_inUse {b : SlBeaconT} (valid : slBeaconValidate b.toBeaconHeader = true) :
    b.inUse.payload.length = b.payloadLen.toNat := by
  rw [SlBeaconT.inUse, List.length_take, b.payload.2]
  exact Nat.min_eq_left (validate_payloadLen valid)

theorem inUse_take (b : SlBeaconT) : b.inUse.payload.take b.payloadLen.toNat = b.inUse.payload := by
  rw [SlBeaconT.inUse, List.take_take, Nat.min_self]

section Ideal
variable {requests : List SealRequest} (ideal : IdealOn A (sealCalls A requests))
include ideal

theorem opens_sealed {q : SealRequest} (member : q ∈ requests) {wire : Bytes} {call : Sealed}
    (result : q.sealed A = some (wire, call)) :
    slBeaconOpen A q.key q.staticIv wire q.seq = some q.beacon.inUse := by
  obtain ⟨key, aad, rfl⟩ := slBeaconSeal_some result
  obtain ⟨valid, nonce, pt, ctLen, tagLen⟩ := slBeaconSeal_call result
  rw [show q.beacon.inUse.payloadLen = q.beacon.payloadLen from rfl, inUse_take] at pt
  rw [pt, length_inUse valid] at ctLen
  have opened := (ideal call.key call.nonce call.aad call.pt call.ct call.tag).mpr
    (mem_sealCalls.mpr ⟨q, member, _, result⟩)
  rw [key, nonce, aad, pt] at opened
  rw [aad, slBeaconOpen_eq valid ctLen tagLen]
  exact congrArg (Option.map _) opened

theorem sealed_of_opens {key : FixedBytes slAeadKeyLen} {staticIv : FixedBytes slAeadIvLen}
    {wire : Bytes} {seq : UInt64} {b : SlBeacon}
    (opened : slBeaconOpen A key staticIv wire seq = some b) :
    ∃ q ∈ requests, ∃ call, q.sealed A = some (wire, call) ∧ q.key = key ∧
      slNonceBuild q.staticIv q.seq = slNonceBuild staticIv seq ∧ q.beacon.inUse = b := by
  obtain ⟨header, ct, tag, pt, aeadOpened, parts, payload⟩ := slBeaconOpen_some opened
  have logged := (ideal _ _ _ pt.1 ct tag).mp (by rw [aeadOpened]; rfl)
  obtain ⟨q, member, sent, result⟩ := mem_sealCalls.mp logged
  obtain ⟨sameKey, aad, sentParts⟩ := slBeaconSeal_some result
  obtain ⟨_, nonce, text, _, _⟩ := slBeaconSeal_call result
  have sameWire : sent = wire := sentParts.trans parts.symm
  have sameHeader : q.beacon.inUse.toBeaconHeader = b.toBeaconHeader :=
    (slBeaconPackHeader_injective aad).symm.trans header.symm
  have samePayload : q.beacon.inUse.payload = b.payload := by
    rw [payload, ← inUse_take]
    exact text.symm
  refine ⟨q, member, _, sameWire ▸ result, Subtype.ext sameKey.symm, nonce.symm, ?_⟩
  cases b
  simp only at sameHeader samePayload
  rw [← sameHeader, ← samePayload]

end Ideal

def toyRequest : SealRequest where
  key := toyRecordKey
  staticIv := toyStaticIv
  beacon :=
    { clientId := 7, sequence := 1, timestampMs := 1000, intervalMs := 0, payloadLen := 2, flags := 1
      payload := SlBeaconT.overwrite SlBeaconT.zeroPayload [5, 6] }
  seq := 1

def toyCalls : List Sealed := sealCalls (toyAead []) [toyRequest]

end SecureLink.Guarantees.BeaconCodec
