import SecureLink.Library.BigEndian

/-!
# Parts of a multiplexed stream

src/sl_flow_control.c:7-43, src/stream_state.cpp:5-71, src/sl_stream_id.c:3-35, the frame of
inc/sl_stream_frame.h and the bands of src/sl_priority.c:14-17. Credits are 64-bit signed in
the source and stay far inside that range. The opening time of a stream is left out.
-/
namespace SecureLink.Source.Streams
open Library.BigEndian

/-! ## Flow control -/

def slFcMaxWindow : Int := 2 ^ 30

structure SlFlowCtrl where
  sendCredit : Int
  recvWindow : Int
  deriving DecidableEq, Repr

def slFlowInitWith (initial : UInt32) : SlFlowCtrl :=
  { sendCredit := initial.toNat, recvWindow := initial.toNat }

def slFlowCanSend (fc : SlFlowCtrl) (bytes : Nat) : Bool := fc.sendCredit ≥ bytes

def slFlowChargeSend (fc : SlFlowCtrl) (bytes : Nat) : SlFlowCtrl × Bool :=
  if fc.sendCredit < bytes then (fc, false)
  else ({ fc with sendCredit := fc.sendCredit - bytes }, true)

def slFlowChargeRecv (fc : SlFlowCtrl) (bytes : Nat) : SlFlowCtrl × Bool :=
  if fc.recvWindow < bytes then (fc, false)
  else ({ fc with recvWindow := fc.recvWindow - bytes }, true)

/-- The sum is formed in unsigned 64-bit arithmetic. -/
def exceedsMaxWindow (credit : Int) (bytes : Nat) : Bool :=
  (credit % 2 ^ 64 + bytes) % 2 ^ 64 > slFcMaxWindow

def slFlowGrantRecv (fc : SlFlowCtrl) (bytes : Nat) : SlFlowCtrl × Bool :=
  if exceedsMaxWindow fc.recvWindow bytes then (fc, false)
  else ({ fc with recvWindow := fc.recvWindow + bytes }, true)

def slFlowGrantSend (fc : SlFlowCtrl) (bytes : Nat) : SlFlowCtrl × Bool :=
  if exceedsMaxWindow fc.sendCredit bytes then (fc, false)
  else ({ fc with sendCredit := fc.sendCredit + bytes }, true)

/-! ## Life cycle -/

inductive StreamPhase where
  | kIdle | kOpen | kHalfClosedLocal | kHalfClosedRemote | kClosed
  deriving DecidableEq, Repr

structure StreamState where
  id : UInt32
  phase : StreamPhase := .kIdle
  resetReason : String := ""
  deriving DecidableEq, Repr

namespace StreamState

/-- `open()`. -/
def openState (s : StreamState) : StreamState × Bool :=
  if s.phase ≠ .kIdle then (s, false) else ({ s with phase := .kOpen }, true)

def onSentFin (s : StreamState) : StreamState × Bool :=
  match s.phase with
  | .kOpen => ({ s with phase := .kHalfClosedLocal }, true)
  | .kHalfClosedRemote => ({ s with phase := .kClosed }, true)
  | _ => (s, false)

def onRecvFin (s : StreamState) : StreamState × Bool :=
  match s.phase with
  | .kOpen => ({ s with phase := .kHalfClosedRemote }, true)
  | .kHalfClosedLocal => ({ s with phase := .kClosed }, true)
  | _ => (s, false)

def reset (s : StreamState) (reason : String) : StreamState :=
  { s with resetReason := reason, phase := .kClosed }

def canSend (s : StreamState) : Bool := s.phase == .kOpen || s.phase == .kHalfClosedRemote

def canRecv (s : StreamState) : Bool := s.phase == .kOpen || s.phase == .kHalfClosedLocal

def isClosed (s : StreamState) : Bool := s.phase == .kClosed

end StreamState

/-! ## Stream ids -/

def slStreamIdControl : UInt32 := 0
def slStreamIdMax : UInt32 := 0x7FFFFFFF

inductive SlStreamRole where
  | client | server
  deriving DecidableEq, Repr

structure SlStreamIdAlloc where
  role : SlStreamRole
  nextId : UInt32
  deriving DecidableEq, Repr

def slStreamIdInit (role : SlStreamRole) : SlStreamIdAlloc :=
  { role, nextId := if role = .client then 1 else 2 }

/-- The next id, 0 when they are used up. -/
def slStreamIdNext (a : SlStreamIdAlloc) : SlStreamIdAlloc × UInt32 :=
  if a.nextId > slStreamIdMax then (a, 0)
  else ({ a with nextId := a.nextId + 2 }, a.nextId)

def slStreamIdIsClientInitiated (id : UInt32) : Bool := id != 0 && id &&& 1 == 1

def slStreamIdIsServerInitiated (id : UInt32) : Bool := id != 0 && id &&& 1 == 0

def slStreamIdBelongsToPeer (id : UInt32) (myRole : SlStreamRole) : Bool :=
  if id = slStreamIdControl then false
  else
    match myRole with
    | .client => slStreamIdIsServerInitiated id
    | .server => slStreamIdIsClientInitiated id

/-! ## Frames and priorities -/

def slStreamFrameMaxPayload : Nat := 16000
def slStreamFlagFin : UInt8 := 0x01

inductive SlStreamFrameType where
  | invalid | data | window | reset | ping | pong
  deriving DecidableEq, Repr

/-- A frame; the length of its payload is a 16-bit field. -/
structure SlStreamFrame where
  type : SlStreamFrameType
  flags : UInt8
  streamId : UInt32
  payload : { bytes : Bytes // bytes.length < 2 ^ 16 }
  deriving DecidableEq

def SlStreamFrame.fin (f : SlStreamFrame) : Bool := f.flags &&& slStreamFlagFin != 0

inductive SlPriority where
  | urgent | high | normal | low | background
  deriving DecidableEq, Repr

def SlPriority.band : SlPriority → Nat
  | .urgent => 0
  | .high => 1
  | .normal => 2
  | .low => 3
  | .background => 4

def slPriorityCount : Nat := 5

def slPriorityDefaultFor (streamId : UInt32) : SlPriority :=
  if streamId = 0 then .urgent else .normal

end SecureLink.Source.Streams
