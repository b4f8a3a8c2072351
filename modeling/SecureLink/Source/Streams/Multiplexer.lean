import Mathlib.Data.List.AList
import SecureLink.Source.Streams.Stream

/-!
# Stream multiplexer

src/stream_multiplexer.cpp:8-200, each operation under its mutex as one step. The order in
which std::unordered_map yields its elements is unspecified, so `pop_outbound` takes it
as an argument.
-/
namespace SecureLink.Source.Streams
open Library.BigEndian

/-- A queued payload; `send_data` admits no longer ones. -/
abbrev Chunk := { bytes : Bytes // bytes.length ≤ slStreamFrameMaxPayload }

structure StreamRecord where
  state : StreamState
  flow : SlFlowCtrl
  priority : SlPriority := .normal
  outbound : List Chunk := []
  inbound : Bytes := []
  inboundFin : Bool := false
  deriving DecidableEq

structure MuxStats where
  streamsOpened : UInt64 := 0
  streamsClosed : UInt64 := 0
  framesIn : UInt64 := 0
  framesOut : UInt64 := 0
  bytesIn : UInt64 := 0
  bytesOut : UInt64 := 0
  flowBlocks : UInt64 := 0
  resets : UInt64 := 0
  deriving DecidableEq, Repr

structure StreamMultiplexer where
  role : SlStreamRole
  initialWindow : UInt32
  idAlloc : SlStreamIdAlloc
  sessionFlow : SlFlowCtrl
  streams : AList (fun _ : UInt32 => StreamRecord) := ∅
  stats : MuxStats := {}

namespace StreamMultiplexer

def new (role : SlStreamRole) (initialWindow : UInt32) : StreamMultiplexer :=
  { role, initialWindow, idAlloc := slStreamIdInit role, sessionFlow := slFlowInitWith initialWindow }

def find (m : StreamMultiplexer) (id : UInt32) : Option StreamRecord := m.streams.lookup id

/-- A record changed through the pointer that `find` returned. -/
def store (m : StreamMultiplexer) (id : UInt32) (record : StreamRecord) : StreamMultiplexer :=
  { m with streams := m.streams.insert id record }

/-- The record that `find_or_create` sets up. -/
def newRecord (m : StreamMultiplexer) (id : UInt32) : StreamRecord :=
  { state := ({ id } : StreamState).openState.1
    flow := slFlowInitWith m.initialWindow
    priority := slPriorityDefaultFor id }

def findOrCreate (m : StreamMultiplexer) (id : UInt32) : StreamMultiplexer × StreamRecord :=
  match m.find id with
  | some record => (m, record)
  | none =>
    let record' := m.newRecord id
    ({ m.store id record' with stats := { m.stats with streamsOpened := m.stats.streamsOpened + 1 } },
      record')

/-- Returns the id of the new stream, 0 if there is none left. -/
def openStream (m : StreamMultiplexer) (prio : SlPriority) : StreamMultiplexer × UInt32 :=
  let next := slStreamIdNext m.idAlloc
  let m := { m with idAlloc := next.1 }
  if next.2 = 0 then (m, 0)
  else
    let found := m.findOrCreate next.2
    (found.1.store next.2 { found.2 with priority := prio }, next.2)

/-- The flow-control part of `send_data`: charge stream and session and queue the bytes;
`none` when a credit does not suffice. -/
def chargeOutbound (m : StreamMultiplexer) (record : StreamRecord) (data : Chunk) :
    Option (StreamMultiplexer × StreamRecord) :=
  if data.1.length = 0 then some (m, record)
  else if !slFlowCanSend record.flow data.1.length || !slFlowCanSend m.sessionFlow data.1.length then
    none
  else
    some ({ m with sessionFlow := (slFlowChargeSend m.sessionFlow data.1.length).1 },
      { record with
        flow := (slFlowChargeSend record.flow data.1.length).1
        outbound := record.outbound ++ [data] })

/-- Close the local side; an empty marker makes sure that a frame is left to carry it. -/
def queueFin (record : StreamRecord) : StreamRecord :=
  { record with
    state := record.state.onSentFin.1
    outbound := if record.outbound.isEmpty then [⟨[], Nat.zero_le _⟩] else record.outbound }

def sendData (m : StreamMultiplexer) (id : UInt32) (data : Bytes) (fin : Bool) :
    StreamMultiplexer × Bool :=
  match m.find id with
  | none => (m, false)
  | some record =>
    if !record.state.canSend then (m, false)
    else if h : data.length > slStreamFrameMaxPayload then (m, false)
    else
      match m.chargeOutbound record ⟨data, Nat.le_of_not_gt h⟩ with
      | none => ({ m with stats := { m.stats with flowBlocks := m.stats.flowBlocks + 1 } }, false)
      | some (m, record) => (m.store id (if fin then queueFin record else record), true)

/-- The DATA case of `on_frame`. The stream stays charged when the session refuses. -/
def onData (m : StreamMultiplexer) (f : SlStreamFrame) (record : StreamRecord) :
    StreamMultiplexer × Bool :=
  let bytes := f.payload.1
  let close (record : StreamRecord) : StreamRecord :=
    if f.fin then { record with state := record.state.onRecvFin.1, inboundFin := true } else record
  if !record.state.canRecv then (m, false)
  else if bytes.length = 0 then (m.store f.streamId (close record), true)
  else
    let stream := slFlowChargeRecv record.flow bytes.length
    if !stream.2 then (m, false)
    else
      let record := { record with flow := stream.1 }
      let session := slFlowChargeRecv m.sessionFlow bytes.length
      if !session.2 then (m.store f.streamId record, false)
      else
        let record := { record with inbound := record.inbound ++ bytes }
        ({ m with sessionFlow := session.1 }.store f.streamId (close record), true)

/-- The switch of `on_frame` on a stream that exists. -/
def dispatch (m : StreamMultiplexer) (f : SlStreamFrame) (record : StreamRecord) :
    StreamMultiplexer × Bool :=
  match f.type with
  | .data => m.onData f record
  | .window =>
    if f.payload.1.length < 4 then (m, false)
    else
      let delta := decode (f.payload.1.take 4)
      (m.store f.streamId { record with flow := (slFlowGrantSend record.flow delta).1 }, true)
  | .reset =>
    ({ m.store f.streamId { record with state := record.state.reset "peer_reset" } with
       stats := { m.stats with resets := m.stats.resets + 1 } }, true)
  | _ => (m, true)

def onFrame (m : StreamMultiplexer) (f : SlStreamFrame) : StreamMultiplexer × Bool :=
  let m := { m with stats := { m.stats with
    framesIn := m.stats.framesIn + 1
    bytesIn := m.stats.bytesIn + UInt64.ofNat f.payload.1.length } }
  if f.streamId = slStreamIdControl then (m, true)
  else
    match m.find f.streamId with
    | some record => m.dispatch f record
    | none =>
      if !slStreamIdBelongsToPeer f.streamId m.role then (m, false)
      else (m.findOrCreate f.streamId).1.dispatch f (m.findOrCreate f.streamId).2

/-- The stream that the scan of `pop_outbound` stops at: its id, its record, the chunk it
takes and the chunks it leaves. -/
def nextReady (m : StreamMultiplexer) (order : List UInt32) :
    Option (UInt32 × StreamRecord × Chunk × List Chunk) :=
  (List.range slPriorityCount).findSome? fun band =>
    order.findSome? fun id =>
      match m.find id with
      | none => none
      | some record =>
        if record.priority.band ≠ band then none
        else
          match record.outbound with
          | [] => none
          | chunk :: rest => some (id, record, chunk, rest)

/-- The frame made of a chunk: FIN is set when nothing is left and only the local side
is closed. -/
def outboundFrame (id : UInt32) (record : StreamRecord) (chunk : Chunk) (rest : List Chunk) :
    SlStreamFrame :=
  { type := .data
    flags := if rest.isEmpty ∧ record.state.phase = .kHalfClosedLocal then slStreamFlagFin else 0
    streamId := id
    payload := ⟨chunk.1, Nat.lt_of_le_of_lt chunk.2 (by decide)⟩ }

/-- `order` is the iteration order of the streams. -/
def popOutbound (m : StreamMultiplexer) (order : List UInt32) :
    StreamMultiplexer × Option SlStreamFrame :=
  match m.nextReady order with
  | none => (m, none)
  | some (id, record, chunk, rest) =>
    ({ m.store id { record with outbound := rest } with stats := { m.stats with
        framesOut := m.stats.framesOut + 1
        bytesOut := m.stats.bytesOut + UInt64.ofNat chunk.1.length } },
      some (outboundFrame id record chunk rest))

/-- The bytes appended to the caller's vector; their number is the return value. -/
def readInbound (m : StreamMultiplexer) (id : UInt32) : StreamMultiplexer × Bytes :=
  match m.find id with
  | none => (m, [])
  | some record =>
    let n := record.inbound.length % 2 ^ 32
    let record' := { record with inbound := [], flow := (slFlowGrantRecv record.flow n).1 }
    let closed := record.inboundFin ∧ record.state.phase = .kHalfClosedLocal
    ({ m.store id record' with
       sessionFlow := (slFlowGrantRecv m.sessionFlow n).1
       stats := if closed then { m.stats with streamsClosed := m.stats.streamsClosed + 1 }
         else m.stats }, record.inbound)

def resetStream (m : StreamMultiplexer) (id : UInt32) (reason : String) :
    StreamMultiplexer × Bool :=
  match m.find id with
  | none => (m, false)
  | some record =>
    ({ m.store id { record with state := record.state.reset reason } with
       stats := { m.stats with resets := m.stats.resets + 1 } }, true)

def openStreamCount (m : StreamMultiplexer) : Nat :=
  m.streams.entries.countP fun entry => !entry.2.state.isClosed

end StreamMultiplexer
end SecureLink.Source.Streams
