import SecureLink.Source.Handshake.Secret
import SecureLink.Source.Handshake.State

/-!
# Handshake engine

inc/handshake_engine.hpp and src/handshake_engine.cpp:18-239. The ECDH key pair and the
random bytes of the ClientHello are inputs, drawn outside. The local identity keys
are only zeroed in the destructor and are left out. The receive loop also returns
the messages it processed, each with the engine before and after it.
-/
namespace SecureLink.Source.Handshake
open Library.BigEndian

structure HandshakeConfig where
  role : HsRole := .kClient
  expectedPeerPub : FixedBytes slEd25519PubkeyLen
  pinPeerIdentity : Bool := false
  deriving DecidableEq

inductive HsAction where
  | kNeedMore | kSendBytes | kHandshakeDone | kError
  deriving DecidableEq, Repr

structure HsStepResult where
  action : HsAction := .kNeedMore
  outBytes : Bytes := []
  error : String := ""
  deriving DecidableEq, Repr

def err (msg : String) : HsStepResult := { action := .kError, error := msg }

structure Impl (C : Crypto) where
  cfg : HandshakeConfig
  state : HandshakeState
  ecdh : Option C.Keypair
  transcript : Bytes := []
  recvBuf : Bytes := []
  secretReady : Bool := false
  secret : SlHandshakeSecret := {}
  peerEcdhPub : Bytes := List.replicate slEcdhPubkeyLen 0
  peerIdentityPub : Bytes := List.replicate slEd25519PubkeyLen 0
  peerIdentitySet : Bool := false

variable {C : Crypto}

namespace Impl

/-- The constructor; the key pair is null when key generation failed. -/
def new (cfg : HandshakeConfig) (ecdh : Option C.Keypair) : Impl C :=
  { cfg, ecdh, state := fresh cfg.role }

def sessionKeys (I : Impl C) : Option SlSessionKeys :=
  if I.secretReady then some I.secret.appKeys else none

/-- Absorb header and body. -/
def absorb (I : Impl C) (hdr body : Bytes) : Impl C :=
  { I with transcript := slTranscriptUpdate (slTranscriptUpdate I.transcript hdr) body }

def emitMessage (I : Impl C) (type : HsType) (body : Bytes) : Impl C × HsStepResult :=
  match slHsPackHeader type body.length with
  | none => (I, err "pack_header")
  | some hdr =>
    let I := I.absorb hdr body
    let sent := I.state.onSent type
    let I := { I with state := sent.1 }
    if sent.2 then (I, { action := .kSendBytes, outBytes := hdr ++ body })
    else (I, err "fsm_send_rejected")

/-- `start()`; `rng` is the outcome of drawing the 32 random bytes. -/
def start (I : Impl C) (rng : Option (FixedBytes slHsRandomLen)) : Impl C × HsStepResult :=
  match I.ecdh with
  | none => (I, err "ecdh_init_failed")
  | some kp =>
    let started := I.state.start
    let I := { I with state := started.1 }
    if !started.2 then (I, err "fsm_start_failed")
    else if I.cfg.role = .kServer then (I, { action := .kNeedMore })
    else
      match rng with
      | none => (I, err "rng")
      | some random =>
        match C.ecExportPubkey kp with
        | none => (I, err "ecdh_export")
        | some ecdhPub =>
          match slHsPackHello { random := random.1, ecdhPub := ecdhPub.1, cipher := slHsCipherAes256Gcm }
              slHsHelloBodyLen with
          | none => (I, err "pack_hello")
          | some body => I.emitMessage .clientHello body

def processHello (I : Impl C) (body : Bytes) : Impl C × Option HsStepResult :=
  match slHsUnpackHello body with
  | none => (I, some (err "bad_hello"))
  | some h =>
    if h.cipher ≠ slHsCipherAes256Gcm then (I, some (err "bad_cipher"))
    else if !slEcdhValidatePubkey C h.ecdhPub then (I, some (err "bad_peer_ecdh"))
    else ({ I with peerEcdhPub := h.ecdhPub }, none)

def processCertificate (I : Impl C) (body : Bytes) : Impl C × Option HsStepResult :=
  if body.length ≠ slEd25519PubkeyLen then (I, some (err "bad_cert"))
  else
    let I := { I with peerIdentityPub := body, peerIdentitySet := true }
    if I.cfg.pinPeerIdentity ∧ I.peerIdentityPub ≠ I.cfg.expectedPeerPub.1 then
      (I, some (err "peer_identity_pin_mismatch"))
    else (I, none)

/-- The signature is checked over the transcript that already includes this message. -/
def processCertVerify (I : Impl C) (body : Bytes) : Impl C × Option HsStepResult :=
  if body.length ≠ slEd25519SigLen then (I, some (err "bad_certverify"))
  else if !I.peerIdentitySet then (I, some (err "certverify_without_cert"))
  else if !C.ed25519Verify I.peerIdentityPub (slTranscriptGet C I.transcript) body then
    (I, some (err "certverify_signature_fail"))
  else (I, none)

/-- Derive the secret schedule on first use. -/
def ensureSecret (I : Impl C) : Impl C × Option HsStepResult :=
  if I.secretReady then (I, none)
  else
    match I.ecdh.bind (fun kp => slEcdhComputeShared C kp I.peerEcdhPub) with
    | none => (I, some (err "ecdh_compute"))
    | some shared =>
      match slHandshakeSecretDerive C shared (slTranscriptGet C I.transcript) with
      | none => ({ I with secret := {} }, some (err "secret_derive"))
      | some secret => ({ I with secret, secretReady := true }, none)

/-- The key the peer's Finished is checked with. -/
def expectedKey (I : Impl C) : Bytes :=
  match I.cfg.role with
  | .kClient => I.secret.serverFinishedKey
  | .kServer => I.secret.clientFinishedKey

def processFinished (I : Impl C) (body : Bytes) : Impl C × Option HsStepResult :=
  if body.length ≠ slFinishedLen then (I, some (err "bad_finished"))
  else
    match I.ensureSecret with
    | (I, some e) => (I, some e)
    | (I, none) =>
      if !slFinishedVerify C I.expectedKey (slTranscriptGet C I.transcript) body then
        (I, some (err "finished_mac_fail"))
      else (I, none)

/-- The switch on the message type, after the transcript and the order machine. -/
def processBody (I : Impl C) (type : HsType) (body : Bytes) : Impl C × Option HsStepResult :=
  match type with
  | .clientHello | .serverHello => I.processHello body
  | .certificate => I.processCertificate body
  | .certVerify => I.processCertVerify body
  | .finished => I.processFinished body
  | _ => (I, some (err "unknown_msg_type"))

/-- `process_one_message`; `none` is the return value 0. The result of packing the
header is not checked in the source, its length was bounded when it was unpacked. -/
def processOneMessage (I : Impl C) (type : HsType) (body : Bytes) :
    Impl C × Option HsStepResult :=
  let I := I.absorb ((slHsPackHeader type body.length).getD []) body
  let received := I.state.onReceived type
  let I := { I with state := received.1 }
  if !received.2 then (I, some (err "fsm_recv_rejected"))
  else I.processBody type body

end Impl

/-- What the receive loop finds at the front of its buffer. -/
inductive Front where
  | needMore
  | badHeader
  | message (type : HsType) (body rest : Bytes)
  deriving DecidableEq, Repr

def front (buf : Bytes) : Front :=
  if buf.length < slHsHeaderLen then .needMore
  else
    match slHsUnpackHeader buf with
    | none => .badHeader
    | some (type, blen) =>
      if buf.length < slHsHeaderLen + blen then .needMore
      else .message type ((buf.drop slHsHeaderLen).take blen) (buf.drop (slHsHeaderLen + blen))

/-- One processed message, with the engine around it. -/
structure Processed (C : Crypto) where
  before : Impl C
  type : HsType
  body : Bytes
  after : Impl C
  error : Option HsStepResult

/-- Process the message and erase it from the buffer, whatever the outcome. -/
def receive (I : Impl C) (type : HsType) (body rest : Bytes) : Processed C :=
  let done := I.processOneMessage type body
  { before := I, type, body, after := { done.1 with recvBuf := rest }, error := done.2 }

/-- The result of a loop that ran out of complete messages. -/
def idle (I : Impl C) : HsStepResult :=
  { action := if I.state.state = .kDone then .kHandshakeDone else .kNeedMore }

structure Drained (C : Crypto) where
  engine : Impl C
  result : HsStepResult
  log : List (Processed C) := []

/-- The receive loop. Every iteration erases at least a header, so the buffer length
is enough fuel. -/
def drain : Nat → Impl C → Drained C
  | 0, I => { engine := I, result := idle I }
  | fuel + 1, I =>
    match front I.recvBuf with
    | .needMore => { engine := I, result := idle I }
    | .badHeader => { engine := I, result := err "bad_header" }
    | .message type body rest =>
      let done := receive I type body rest
      match done.error with
      | some e => { engine := done.after, result := e, log := [done] }
      | none =>
        let later := drain fuel done.after
        { later with log := done :: later.log }

def Impl.append (I : Impl C) (data : Bytes) : Impl C :=
  { I with recvBuf := I.recvBuf ++ data }

/-- `on_bytes`: append to the buffer, then run the loop. -/
def onBytes (I : Impl C) (data : Bytes) : Drained C :=
  drain (I.append data).recvBuf.length (I.append data)

/-- The calls a user of the engine can make. -/
inductive Call where
  | start (rng : Option (FixedBytes slHsRandomLen))
  | onBytes (data : Bytes)
  deriving DecidableEq

/-- One call: its result and the messages it processed. -/
def call (I : Impl C) : Call → Impl C × (HsStepResult × List (Processed C))
  | .start rng => ((I.start rng).1, (I.start rng).2, [])
  | .onBytes data => ((onBytes I data).engine, (onBytes I data).result, (onBytes I data).log)

end SecureLink.Source.Handshake
