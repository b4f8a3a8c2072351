import SecureLink.Library.BigEndian
import SecureLink.Library.Runs

/-!
# State of a connection

src/connection_state.cpp:5-81. What the steady clock reads is an argument.
-/
namespace SecureLink.Source.Sessions
open Library.BigEndian

inductive ConnState where
  | fresh | handshaking | authenticated | closing | closed
  deriving DecidableEq, Repr

inductive ConnEvent where
  | startHandshake | handshakeDone | handshakeFailed | recvAppRecord | sendAppRecord | beginClose
  | peerClosed | ioError | timeout
  deriving DecidableEq, Repr

structure ConnectionState where
  state : ConnState := .fresh
  entered : Nat
  events : UInt64 := 0
  invalids : UInt64 := 0
  closeReason : Bytes := []
  deriving DecidableEq

namespace ConnectionState

def transitionTo (c : ConnectionState) (s : ConnState) (now : Nat) : ConnectionState :=
  { c with state := s, entered := now }

/-- The local function `invalid`. -/
def invalid (c : ConnectionState) (now : Nat) : ConnectionState × Bool :=
  let c := { c with invalids := c.invalids + 1 }
  let c := c.transitionTo .closed now
  ({ c with closeReason := if c.closeReason.isEmpty then ascii "invalid_transition" else c.closeReason },
   false)

def onEvent (c : ConnectionState) (ev : ConnEvent) (now : Nat) : ConnectionState × Bool :=
  let c := { c with events := c.events + 1 }
  match c.state with
  | .fresh =>
    match ev with
    | .startHandshake => (c.transitionTo .handshaking now, true)
    | .peerClosed | .ioError | .timeout => (c.transitionTo .closed now, true)
    | _ => c.invalid now
  | .handshaking =>
    match ev with
    | .handshakeDone => (c.transitionTo .authenticated now, true)
    | .handshakeFailed => (c.transitionTo .closed now, true)
    | .peerClosed | .ioError | .timeout => (c.transitionTo .closed now, true)
    | _ => c.invalid now
  | .authenticated =>
    match ev with
    | .recvAppRecord | .sendAppRecord => (c, true)
    | .beginClose => (c.transitionTo .closing now, true)
    | .peerClosed | .ioError | .timeout => (c.transitionTo .closed now, true)
    | _ => c.invalid now
  | .closing =>
    match ev with
    | .peerClosed | .ioError | .timeout => (c.transitionTo .closed now, true)
    -- inbound records are drained during the close
    | .recvAppRecord => (c, true)
    | _ => c.invalid now
  | .closed =>
    if ev = .peerClosed ∨ ev = .ioError ∨ ev = .timeout then (c, true) else c.invalid now

end ConnectionState

end SecureLink.Source.Sessions
