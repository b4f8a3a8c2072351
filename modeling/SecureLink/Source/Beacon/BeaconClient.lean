import SecureLink.Source.Beacon.Beacon

/-!
# Beacon client

`send_beacon_locked` of src/beacon_client.cpp:54-137. The wall clock and the outcome of
`write_all`, which hands the framed wire to the socket, are arguments.
-/
namespace SecureLink.Source.Beacon
open Library.BigEndian Record

structure BeaconClientConfig where
  clientId : UInt64 := 0
  intervalMs : UInt32 := 5000
  staticPayload : Bytes := []
  key : FixedBytes slAeadKeyLen
  staticIv : FixedBytes slAeadIvLen

structure BeaconClient where
  cfg : BeaconClientConfig
  seq : UInt64 := 1
  beaconsSent : UInt64 := 0

namespace BeaconClient

/-- The beacon a call fills in. -/
def beacon (c : BeaconClient) (flags : UInt16) (nowWall : UInt64) : SlBeacon where
  clientId := c.cfg.clientId
  sequence := c.seq
  timestampMs := nowWall
  intervalMs := c.cfg.intervalMs
  payloadLen := UInt16.ofNat (min c.cfg.staticPayload.length slBeaconMaxPayload)
  flags := flags
  payload := c.cfg.staticPayload.take slBeaconMaxPayload

/-- What the call passes to the AEAD, if its beacon is valid. -/
def sealArgs (c : BeaconClient) (flags : UInt16) (nowWall : UInt64) : Option SealArgs :=
  slBeaconSealArgs c.cfg.key c.cfg.staticIv (c.beacon flags nowWall) c.seq

/-- The counter moves on only when the wire was written. -/
def sendBeaconLocked (A : Aead) (c : BeaconClient) (flags : UInt16) (nowWall : UInt64)
    (written : Bool) : BeaconClient × Bool :=
  match slBeaconSeal A c.cfg.key c.cfg.staticIv (c.beacon flags nowWall) c.seq with
  | none => (c, false)
  | some _ =>
    if !written then (c, false)
    else ({ c with seq := c.seq + 1, beaconsSent := c.beaconsSent + 1 }, true)

/-- A call keeps the configuration, and its answer tells whether the counter moved on. -/
theorem sendBeaconLocked_spec (A : Aead) (c : BeaconClient) (flags : UInt16) (nowWall : UInt64)
    (written : Bool) :
    (c.sendBeaconLocked A flags nowWall written).1.cfg = c.cfg ∧
    (c.sendBeaconLocked A flags nowWall written).1.seq =
      if (c.sendBeaconLocked A flags nowWall written).2 then c.seq + 1 else c.seq := by
  unfold sendBeaconLocked
  split
  · exact ⟨rfl, rfl⟩
  · cases written
    · exact ⟨rfl, rfl⟩
    · exact ⟨rfl, rfl⟩

/-- Without a valid beacon the call stops before the AEAD. -/
theorem sendBeaconLocked_invalid (A : Aead) {c : BeaconClient} {flags : UInt16} {nowWall : UInt64}
    (invalid : c.sealArgs flags nowWall = none) (written : Bool) :
    c.sendBeaconLocked A flags nowWall written = (c, false) := by
  unfold sealArgs at invalid
  simp only [sendBeaconLocked, slBeaconSeal, invalid]

end BeaconClient

end SecureLink.Source.Beacon
