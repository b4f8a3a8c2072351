import SecureLink.Source.Handshake.Engine

/-!
# One message at a time: what the engine can do

Inversion of the buffer front, the frame of message processing, and the receive
loop as a fold over complete messages. Later results use these and never unfold
the loop.
-/
namespace SecureLink.Source.Handshake
open Library.BigEndian Library.Runs

variable {C : Crypto} {I : Impl C} {type : HsType} {body rest : Bytes} {e : HsStepResult}

/-- A message on the wire. -/
def frame (type : HsType) (body : Bytes) : Bytes := header type body.length ++ body

@[simp] theorem header_length (type : HsType) (n : Nat) :
    (header type n).length = slHsHeaderLen := by
  simp [header, slHsHeaderLen]

theorem front_frame (type : HsType) (body rest : Bytes) (fits : body.length ≤ slHsMaxPayload) :
    front (frame type body ++ rest) = .message type body rest := by
  have unpack : slHsUnpackHeader (frame type body ++ rest) = some (type, body.length) := by
    rw [frame, List.append_assoc]
    exact slHsUnpackHeader_header type body.length (body ++ rest) fits
  have len : (frame type body ++ rest).length = slHsHeaderLen + body.length + rest.length := by
    simp [frame, Nat.add_assoc]
  have tail : (frame type body ++ rest).drop slHsHeaderLen = body ++ rest := by
    rw [frame, List.append_assoc, ← header_length type body.length, List.drop_left]
  have after : (frame type body ++ rest).drop (slHsHeaderLen + body.length) = rest := by
    rw [← List.drop_drop, tail, List.drop_left]
  rw [front, if_neg (by omega), unpack]
  simp only
  rw [if_neg (by omega), tail, after, List.take_left]

/-- A complete message at the front is a frame, with the rest behind it. -/
theorem front_message {buf : Bytes} (h : front buf = .message type body rest) :
    body.length ≤ slHsMaxPayload ∧ buf = frame type body ++ rest := by
  unfold front at h
  split at h
  · cases h
  · split at h
    · cases h
    next t blen unpacked =>
      split at h
      · cases h
      next complete =>
        simp only [Front.message.injEq] at h
        obtain ⟨rfl, rfl, rfl⟩ := h
        obtain ⟨bound, prefix_eq⟩ := slHsUnpackHeader_inv unpacked
        have bodyLen : ((buf.drop slHsHeaderLen).take blen).length = blen := by
          rw [List.length_take, List.length_drop]
          omega
        refine ⟨by rw [bodyLen]; exact bound, ?_⟩
        rw [frame, bodyLen, ← prefix_eq, List.append_assoc, ← List.drop_drop,
          List.take_append_drop, List.take_append_drop]

theorem front_append_message {buf : Bytes} (h : front buf = .message type body rest) (more : Bytes) :
    front (buf ++ more) = .message type body (rest ++ more) := by
  obtain ⟨fits, rfl⟩ := front_message h
  rw [List.append_assoc]
  exact front_frame type body (rest ++ more) fits

theorem front_badHeader_iff (buf : Bytes) :
    front buf = .badHeader ↔ slHsHeaderLen ≤ buf.length ∧ slHsUnpackHeader buf = none := by
  unfold front
  by_cases short : buf.length < slHsHeaderLen
  · simp [short]
  · cases unpacked : slHsUnpackHeader buf with
    | none => simp [short, Nat.not_lt.mp short]
    | some header =>
      simp only [short, if_false, reduceCtorEq, and_false, iff_false]
      split <;> simp

theorem front_append_badHeader {buf : Bytes} (h : front buf = .badHeader) (more : Bytes) :
    front (buf ++ more) = .badHeader := by
  rw [front_badHeader_iff] at h ⊢
  obtain ⟨long, unpacked⟩ := h
  refine ⟨by rw [List.length_append]; omega, ?_⟩
  match buf with
  | [] | [_] | [_, _] | [_, _, _] => simp [slHsHeaderLen] at long
  | b0 :: b1 :: b2 :: b3 :: tail => exact unpacked

/-- The rest is shorter than the buffer: each iteration erases at least a header. -/
theorem front_rest_lt {buf : Bytes} (h : front buf = .message type body rest) :
    rest.length < buf.length := by
  obtain ⟨_, rfl⟩ := front_message h
  simp only [frame, List.length_append, header_length, slHsHeaderLen]
  omega

/-! ## Message processing -/

namespace Impl

/-- The engine as the switch sees it: transcript and order machine are updated. -/
def entered (I : Impl C) (type : HsType) (body : Bytes) : Impl C :=
  { I with
    transcript := I.transcript ++ frame type body
    state := (I.state.onReceived type).1 }

/-- The secret schedule a Finished is checked against, once derived or as it would be. -/
def secretFor (I : Impl C) : Option SlHandshakeSecret :=
  if I.secretReady then some I.secret
  else (I.ecdh.bind fun kp => slEcdhComputeShared C kp I.peerEcdhPub).bind fun shared =>
    slHandshakeSecretDerive C shared (slTranscriptGet C I.transcript)

/-- The body check of each message type, as a predicate on the engine that enters
the switch. -/
def bodyAccepts (I : Impl C) (type : HsType) (body : Bytes) : Bool :=
  match type with
  | .clientHello | .serverHello =>
    match slHsUnpackHello body with
    | none => false
    | some h => h.cipher == slHsCipherAes256Gcm && slEcdhValidatePubkey C h.ecdhPub
  | .certificate =>
    body.length == slEd25519PubkeyLen &&
      (!I.cfg.pinPeerIdentity || body == I.cfg.expectedPeerPub.1)
  | .certVerify =>
    body.length == slEd25519SigLen && I.peerIdentitySet &&
      C.ed25519Verify I.peerIdentityPub (slTranscriptGet C I.transcript) body
  | .finished =>
    body.length == slFinishedLen &&
      match I.secretFor with
      | none => false
      | some secret => slFinishedVerify C ({ I with secret }.expectedKey)
          (slTranscriptGet C I.transcript) body
  | _ => false

/-- What `processBody` leaves alone. -/
structure SameFrame (I J : Impl C) : Prop where
  cfg : J.cfg = I.cfg
  state : J.state = I.state
  ecdh : J.ecdh = I.ecdh
  transcript : J.transcript = I.transcript

theorem SameFrame.refl (I : Impl C) : SameFrame I I := ⟨rfl, rfl, rfl, rfl⟩

theorem ensureSecret_spec (I : Impl C) :
    SameFrame I I.ensureSecret.1 ∧
    (I.ensureSecret.2 = none ↔ I.secretFor.isSome) ∧
    (I.ensureSecret.1.secretReady = I.secretFor.isSome) ∧
    (∀ secret, I.secretFor = some secret → I.ensureSecret.1.secret = secret) := by
  unfold ensureSecret secretFor
  by_cases ready : I.secretReady
  · simp [ready, SameFrame.refl]
  · simp only [ready]
    cases I.ecdh.bind fun kp => slEcdhComputeShared C kp I.peerEcdhPub with
    | none => simp [ready, SameFrame.refl]
    | some shared =>
      cases derived : slHandshakeSecretDerive C shared (slTranscriptGet C I.transcript) <;>
        simp [derived] <;> exact ⟨rfl, rfl, rfl, rfl⟩

theorem expectedKey_eq (I J : Impl C) (cfg : J.cfg = I.cfg) :
    J.expectedKey = { I with secret := J.secret }.expectedKey := by
  simp [expectedKey, cfg]

theorem processHello_spec (I : Impl C) (body : Bytes) :
    SameFrame I (I.processHello body).1 ∧
    ((I.processHello body).2 = none ↔ I.bodyAccepts .serverHello body = true) ∧
    (I.processHello body).1.secretReady = I.secretReady := by
  unfold processHello bodyAccepts
  cases slHsUnpackHello body with
  | none => simp [SameFrame.refl]
  | some h =>
    by_cases cipher : h.cipher = slHsCipherAes256Gcm <;>
      by_cases valid : slEcdhValidatePubkey C h.ecdhPub = true <;>
      simp [cipher, valid, SameFrame.refl]
    exact ⟨rfl, rfl, rfl, rfl⟩

theorem processCertificate_spec (I : Impl C) (body : Bytes) :
    SameFrame I (I.processCertificate body).1 ∧
    ((I.processCertificate body).2 = none ↔ I.bodyAccepts .certificate body = true) ∧
    ((I.processCertificate body).2 = none → (I.processCertificate body).1.peerIdentityPub = body) ∧
    (I.processCertificate body).1.secretReady = I.secretReady := by
  unfold processCertificate bodyAccepts
  by_cases len : body.length = slEd25519PubkeyLen
  · by_cases pin : I.cfg.pinPeerIdentity = true <;>
      by_cases same : body = I.cfg.expectedPeerPub.1 <;>
      simp [len, pin, same, I.cfg.expectedPeerPub.2] <;> exact ⟨rfl, rfl, rfl, rfl⟩
  · simp [len, SameFrame.refl]

theorem processCertVerify_spec (I : Impl C) (body : Bytes) :
    (I.processCertVerify body).1 = I ∧
    ((I.processCertVerify body).2 = none ↔ I.bodyAccepts .certVerify body = true) := by
  unfold processCertVerify bodyAccepts
  by_cases len : body.length = slEd25519SigLen <;>
    by_cases cert : I.peerIdentitySet = true <;>
    by_cases valid : C.ed25519Verify I.peerIdentityPub (slTranscriptGet C I.transcript) body = true <;>
    simp [len, cert, valid]

/-- A Finished of the right length derives the secret, and only then is it checked. -/
theorem processFinished_spec (I : Impl C) (body : Bytes) :
    SameFrame I (I.processFinished body).1 ∧
    ((I.processFinished body).2 = none ↔ I.bodyAccepts .finished body = true) ∧
    (I.processFinished body).1.secretReady =
      (I.secretReady || (body.length == slFinishedLen && I.secretFor.isSome)) ∧
    (∀ secret, body.length = slFinishedLen → I.secretFor = some secret →
      (I.processFinished body).1.secret = secret) := by
  obtain ⟨same, done, ready, secret⟩ := ensureSecret_spec I
  unfold processFinished bodyAccepts
  by_cases len : body.length = slFinishedLen
  · rcases result : I.ensureSecret with ⟨J, e⟩
    simp only [result] at same done ready secret
    cases e with
    | some e =>
      have none_for : I.secretFor = none := by simpa using done
      have unready : I.secretReady = false := by
        by_contra was
        simp [secretFor, eq_true_of_ne_false was] at none_for
      simp [len, none_for, same, ready, unready]
    | none =>
      obtain ⟨derived, hd⟩ := Option.isSome_iff_exists.mp (done.mp rfl)
      have keyed : J.expectedKey = { I with secret := derived }.expectedKey := by
        rw [expectedKey_eq I J same.cfg, secret derived hd]
      have ready' : J.secretReady = true := by rw [ready, hd]; rfl
      by_cases valid : slFinishedVerify C J.expectedKey (slTranscriptGet C J.transcript) body = true
      · have valid' := valid
        rw [keyed, same.transcript] at valid'
        simp [len, hd, valid, valid', same, ready', secret derived hd]
      · have valid' := valid
        rw [keyed, same.transcript] at valid'
        simp [len, hd, valid, valid', same, ready', secret derived hd]
  · simp [len, SameFrame.refl]

theorem ensureSecret_error (h : I.ensureSecret.2 = some e) : e.action = .kError := by
  unfold ensureSecret at h
  split at h
  · cases h
  · split at h
    · cases h
      rfl
    · split at h <;> cases h
      rfl

theorem processHello_error (h : (I.processHello body).2 = some e) : e.action = .kError := by
  unfold processHello at h
  split at h
  · cases h
    rfl
  · split_ifs at h <;> cases h <;> rfl

theorem processFinished_error (h : (I.processFinished body).2 = some e) : e.action = .kError := by
  unfold processFinished at h
  split at h
  · cases h
    rfl
  · split at h
    next J e' result =>
      cases h
      exact ensureSecret_error (by rw [result])
    · split_ifs at h
      cases h
      rfl

/-- Every error of the switch is a kError result. -/
theorem processBody_error (h : (I.processBody type body).2 = some e) : e.action = .kError := by
  cases type with
  | clientHello | serverHello => exact processHello_error h
  | certificate =>
    simp only [processBody, processCertificate] at h
    split_ifs at h <;> cases h <;> rfl
  | certVerify =>
    simp only [processBody, processCertVerify] at h
    split_ifs at h <;> cases h <;> rfl
  | finished => exact processFinished_error h
  | invalid | other =>
    cases h
    rfl

theorem processBody_spec (I : Impl C) (type : HsType) (body : Bytes) :
    SameFrame I (I.processBody type body).1 ∧
    ((I.processBody type body).2 = none ↔ I.bodyAccepts type body = true) := by
  cases type with
  | clientHello | serverHello => exact ⟨(processHello_spec I body).1, (processHello_spec I body).2.1⟩
  | certificate => exact ⟨(processCertificate_spec I body).1, (processCertificate_spec I body).2.1⟩
  | certVerify =>
    obtain ⟨same, ok⟩ := processCertVerify_spec I body
    exact ⟨by rw [processBody, same]; exact SameFrame.refl I, ok⟩
  | finished => exact ⟨(processFinished_spec I body).1, (processFinished_spec I body).2.1⟩
  | invalid | other => simp [processBody, bodyAccepts, SameFrame.refl]

end Impl

/-- A type the order machine refuses: nothing but the transcript and the machine moves. -/
theorem receive_refused (I : Impl C) (type : HsType) (body rest : Bytes)
    (fits : body.length ≤ slHsMaxPayload) (refused : (I.state.onReceived type).2 = false) :
    (receive I type body rest).after = { I.entered type body with recvBuf := rest } ∧
    (receive I type body rest).error = some (err "fsm_recv_rejected") := by
  have packed := slHsPackHeader_eq type body.length (Nat.le_trans fits (by decide))
  simp [receive, Impl.processOneMessage, Impl.absorb, Impl.entered, slTranscriptUpdate, frame,
    packed, refused]

theorem receive_accepted (I : Impl C) (type : HsType) (body rest : Bytes)
    (fits : body.length ≤ slHsMaxPayload) (accepted : (I.state.onReceived type).2 = true) :
    (receive I type body rest).after =
      { ((I.entered type body).processBody type body).1 with recvBuf := rest } ∧
    (receive I type body rest).error = ((I.entered type body).processBody type body).2 := by
  have packed := slHsPackHeader_eq type body.length (Nat.le_trans fits (by decide))
  simp [receive, Impl.processOneMessage, Impl.absorb, Impl.entered, slTranscriptUpdate, frame,
    packed, accepted]

/-- Whatever the outcome: configuration and key pair stay, the message is absorbed
and the order machine has moved, before any check of the body. -/
theorem receive_frame (I : Impl C) (type : HsType) (body rest : Bytes)
    (fits : body.length ≤ slHsMaxPayload) :
    (receive I type body rest).after.cfg = I.cfg ∧
    (receive I type body rest).after.ecdh = I.ecdh ∧
    (receive I type body rest).after.state = (I.state.onReceived type).1 ∧
    (receive I type body rest).after.transcript = I.transcript ++ frame type body ∧
    (receive I type body rest).after.recvBuf = rest := by
  cases moved : (I.state.onReceived type).2 with
  | false =>
    rw [(receive_refused I type body rest fits moved).1]
    exact ⟨rfl, rfl, rfl, rfl, rfl⟩
  | true =>
    obtain ⟨same, _⟩ := Impl.processBody_spec (I.entered type body) type body
    rw [(receive_accepted I type body rest fits moved).1]
    exact ⟨same.cfg, same.ecdh, same.state, same.transcript, rfl⟩

/-- A message is processed without error exactly when the order machine accepts its
type and its body check passes. -/
theorem receive_ok_iff (I : Impl C) (type : HsType) (body rest : Bytes)
    (fits : body.length ≤ slHsMaxPayload) :
    (receive I type body rest).error = none ↔
      (I.state.onReceived type).2 = true ∧ (I.entered type body).bodyAccepts type body = true := by
  cases moved : (I.state.onReceived type).2 with
  | false => simp [(receive_refused I type body rest fits moved).2]
  | true =>
    rw [(receive_accepted I type body rest fits moved).2]
    simp [(Impl.processBody_spec (I.entered type body) type body).2]

/-! ## Starting -/

/-- The body of the ClientHello the engine sends. -/
def clientHelloBody (random : FixedBytes slHsRandomLen) (pub : FixedBytes slEcdhPubkeyLen) : Bytes :=
  random.1 ++ pub.1 ++ [0x00, 0x01]

theorem clientHelloBody_length (random : FixedBytes slHsRandomLen)
    (pub : FixedBytes slEcdhPubkeyLen) : (clientHelloBody random pub).length = slHsHelloBodyLen := by
  simp [clientHelloBody, random.2, pub.2, slHsHelloBodyLen, Nat.add_assoc]

theorem emit_clientHello (I : Impl C) (random : FixedBytes slHsRandomLen)
    (pub : FixedBytes slEcdhPubkeyLen) (waiting : I.state.state = .kWaitServerHello)
    (role : I.state.role = .kClient) :
    I.emitMessage .clientHello (clientHelloBody random pub) =
      ({ I with
         state := (I.state.onSent .clientHello).1
         transcript := I.transcript ++ frame .clientHello (clientHelloBody random pub) },
       { action := .kSendBytes, outBytes := frame .clientHello (clientHelloBody random pub) }) := by
  have fits : (clientHelloBody random pub).length ≤ 0xFFFFFF := by
    rw [clientHelloBody_length]
    decide
  have sent : (I.state.onSent .clientHello).2 = true := by
    simp [HandshakeState.onSent, HandshakeState.isTerminal, waiting, role]
  simp [Impl.emitMessage, slHsPackHeader_eq _ _ fits, Impl.absorb, slTranscriptUpdate, sent, frame]

/-- Everything `start` can do. Of its errors only the refused start fails the order
machine; the random generator and the key export are consulted after it has moved. -/
theorem start_spec (I : Impl C) (rng : Option (FixedBytes slHsRandomLen))
    (role : I.state.role = I.cfg.role) :
    (I.ecdh = none ∧ I.start rng = (I, err "ecdh_init_failed")) ∨
    (I.ecdh.isSome ∧ I.state.state ≠ .kInit ∧
      I.start rng = ({ I with state := I.state.start.1 }, err "fsm_start_failed")) ∨
    (I.ecdh.isSome ∧ I.state.state = .kInit ∧ I.cfg.role = .kServer ∧
      I.start rng = ({ I with state := I.state.start.1 }, {})) ∨
    (I.state.state = .kInit ∧ I.cfg.role = .kClient ∧
      ((rng = none ∧ I.start rng = ({ I with state := I.state.start.1 }, err "rng")) ∨
       (rng.isSome ∧ I.ecdh.bind C.ecExportPubkey = none ∧
          I.start rng = ({ I with state := I.state.start.1 }, err "ecdh_export")))) ∨
    (∃ random pub, I.state.state = .kInit ∧ I.cfg.role = .kClient ∧ rng = some random ∧
      I.ecdh.bind C.ecExportPubkey = some pub ∧
      I.start rng =
        ({ I with
           state := (I.state.start.1.onSent .clientHello).1
           transcript := I.transcript ++ frame .clientHello (clientHelloBody random pub) },
         { action := .kSendBytes, outBytes := frame .clientHello (clientHelloBody random pub) })) := by
  cases key : I.ecdh with
  | none => exact Or.inl ⟨rfl, by simp [Impl.start, key]⟩
  | some kp =>
    rcases start_cases I.state with ⟨refused, _⟩ | ⟨accepted, init, moved⟩
    · have notInit : I.state.state ≠ .kInit := by
        intro init
        cases hr : I.state.role <;> simp [HandshakeState.start, init, hr] at refused
      exact Or.inr (Or.inl ⟨rfl, notInit, by simp [Impl.start, key, refused]⟩)
    · cases hr : I.cfg.role with
      | kServer =>
        exact Or.inr (Or.inr (Or.inl ⟨rfl, init, rfl, by simp [Impl.start, key, accepted, hr]⟩))
      | kClient =>
        refine Or.inr (Or.inr (Or.inr ?_))
        cases rng with
        | none => exact Or.inl ⟨init, rfl, Or.inl ⟨rfl, by simp [Impl.start, key, accepted, hr]⟩⟩
        | some random =>
          cases exported : C.ecExportPubkey kp with
          | none =>
            exact Or.inl ⟨init, rfl, Or.inr ⟨rfl, by simpa using exported,
              by simp [Impl.start, key, accepted, hr, exported]⟩⟩
          | some pub =>
            refine Or.inr ⟨random, pub, init, rfl, rfl, by simpa using exported, ?_⟩
            have client : I.state.role = .kClient := role.trans hr
            have emitted := emit_clientHello { I with state := I.state.start.1 } random pub
              (by simp [moved, client]) (by simp [moved, client])
            simpa [Impl.start, key, accepted, hr, exported, slHsPackHello, clientHelloBody,
              slHsCipherAes256Gcm] using emitted

/-- `start` touches the order machine and the transcript only; the machine is left as
it was, failed, or waiting for the first message of the peer. -/
theorem start_frame (I : Impl C) (rng : Option (FixedBytes slHsRandomLen))
    (role : I.state.role = I.cfg.role) :
    (I.start rng).1.cfg = I.cfg ∧ (I.start rng).1.ecdh = I.ecdh ∧
    (I.start rng).1.secretReady = I.secretReady ∧
    (I.start rng).1.state.role = I.state.role ∧
    ((I.start rng).1 = I ∨ (I.start rng).1.state.state = .kFailed ∨
      (I.state.state = .kInit ∧ ((I.start rng).1.state.state = .kWaitServerHello ∨
        (I.start rng).1.state.state = .kWaitClientHello))) := by
  have moved : I.state.state = .kInit → (I.state.start.1.state = .kWaitServerHello ∨
      I.state.start.1.state = .kWaitClientHello) := by
    intro init
    cases hr : I.state.role <;> simp [HandshakeState.start, init, hr]
  rcases start_spec I rng role with ⟨_, h⟩ | ⟨_, notInit, h⟩ | ⟨_, init, _, h⟩ |
    ⟨init, _, ⟨_, h⟩ | ⟨_, _, h⟩⟩ | ⟨random, pub, init, client, _, _, h⟩
  all_goals rw [h]
  · exact ⟨rfl, rfl, rfl, rfl, Or.inl rfl⟩
  · refine ⟨rfl, rfl, rfl, by simp, Or.inr (Or.inl ?_)⟩
    simp [HandshakeState.start, notInit, HandshakeState.fail]
  -- the machine has started, and no message was sent
  iterate 3 exact ⟨rfl, rfl, rfl, by simp, Or.inr (Or.inr ⟨init, moved init⟩)⟩
  · refine ⟨rfl, rfl, rfl, by simp, Or.inr (Or.inr ⟨init, Or.inl ?_⟩)⟩
    simp [HandshakeState.start, HandshakeState.onSent, HandshakeState.isTerminal, init,
      role.trans client]

/-! ## The receive loop -/

theorem drain_message (fuel : Nat) (h : front I.recvBuf = .message type body rest) :
    drain (fuel + 1) I =
      match (receive I type body rest).error with
      | some e => { engine := (receive I type body rest).after, result := e,
                    log := [receive I type body rest] }
      | none => { drain fuel (receive I type body rest).after with
                  log := receive I type body rest ::
                    (drain fuel (receive I type body rest).after).log } := by
  cases refused : (receive I type body rest).error <;> simp [drain, h, refused]

theorem receive_after_recvBuf (I : Impl C) (type : HsType) (body rest : Bytes) :
    (receive I type body rest).after.recvBuf = rest := rfl

/-- More fuel than bytes changes nothing. -/
theorem drain_fuel (n m : Nat) (I : Impl C) (hn : I.recvBuf.length ≤ n)
    (hm : I.recvBuf.length ≤ m) : drain n I = drain m I := by
  induction n generalizing I m with
  | zero =>
    have empty : I.recvBuf = [] := List.eq_nil_of_length_eq_zero (by omega)
    cases m with
    | zero => rfl
    | succ m => simp [drain, empty, front, slHsHeaderLen]
  | succ n ih =>
    cases m with
    | zero =>
      have empty : I.recvBuf = [] := List.eq_nil_of_length_eq_zero (by omega)
      simp [drain, empty, front, slHsHeaderLen]
    | succ m =>
      cases hf : front I.recvBuf with
      | needMore => simp [drain, hf]
      | badHeader => simp [drain, hf]
      | message type body rest =>
        have shorter := front_rest_lt hf
        have same := ih m (receive I type body rest).after
          (by rw [receive_after_recvBuf]; omega) (by rw [receive_after_recvBuf]; omega)
        rw [drain_message n hf, drain_message m hf, same]

/-- The loop with enough fuel. -/
def drainAll (I : Impl C) : Drained C := drain I.recvBuf.length I

theorem onBytes_eq (I : Impl C) (data : Bytes) :
    onBytes I data = drainAll (I.append data) := rfl

theorem drainAll_needMore (h : front I.recvBuf = .needMore) :
    drainAll I = { engine := I, result := idle I } := by
  unfold drainAll
  cases I.recvBuf.length with
  | zero => rfl
  | succ n => simp [drain, h]

theorem drainAll_badHeader (h : front I.recvBuf = .badHeader) :
    drainAll I = { engine := I, result := err "bad_header" } := by
  have long := ((front_badHeader_iff _).mp h).1
  obtain ⟨n, hn⟩ : ∃ n, I.recvBuf.length = n + 1 := ⟨I.recvBuf.length - 1, by
    simp only [slHsHeaderLen] at long
    omega⟩
  simp [drainAll, hn, drain, h]

/-- A message processed with an error ends the loop. -/
theorem drainAll_error (h : front I.recvBuf = .message type body rest)
    (he : (receive I type body rest).error = some e) :
    drainAll I = { engine := (receive I type body rest).after, result := e,
                   log := [receive I type body rest] } := by
  have shorter := front_rest_lt h
  obtain ⟨n, hn⟩ : ∃ n, I.recvBuf.length = n + 1 := ⟨I.recvBuf.length - 1, by omega⟩
  rw [drainAll, hn, drain_message n h, he]

/-- Otherwise the loop goes on behind it. -/
theorem drainAll_ok (h : front I.recvBuf = .message type body rest)
    (he : (receive I type body rest).error = none) :
    drainAll I = { drainAll (receive I type body rest).after with
                   log := receive I type body rest ::
                     (drainAll (receive I type body rest).after).log } := by
  have shorter := front_rest_lt h
  obtain ⟨n, hn⟩ : ∃ n, I.recvBuf.length = n + 1 := ⟨I.recvBuf.length - 1, by omega⟩
  have enough := drain_fuel n (receive I type body rest).after.recvBuf.length
    (receive I type body rest).after (by rw [receive_after_recvBuf]; omega) (Nat.le_refl _)
  rw [drainAll, hn, drain_message n h, he, enough]
  rfl

/-- Induction along the loop: the four ways an iteration can go. -/
theorem drainAll_induction {motive : Impl C → Prop}
    (needMore : ∀ I : Impl C, front I.recvBuf = .needMore → motive I)
    (badHeader : ∀ I : Impl C, front I.recvBuf = .badHeader → motive I)
    (error : ∀ (I : Impl C) type body rest e, front I.recvBuf = .message type body rest →
      (receive I type body rest).error = some e → motive I)
    (ok : ∀ (I : Impl C) type body rest, front I.recvBuf = .message type body rest →
      (receive I type body rest).error = none → motive (receive I type body rest).after → motive I)
    (I : Impl C) : motive I := by
  induction hlen : I.recvBuf.length using Nat.strong_induction_on generalizing I with
  | _ n ih =>
    cases hf : front I.recvBuf with
    | needMore => exact needMore I hf
    | badHeader => exact badHeader I hf
    | message type body rest =>
      cases he : (receive I type body rest).error with
      | some e => exact error I type body rest e hf he
      | none =>
        have shorter := front_rest_lt hf
        exact ok I type body rest hf he
          (ih rest.length (by omega) _ (receive_after_recvBuf I type body rest ▸ rfl))

/-! ## Whole runs -/

/-- The messages processed in a run of calls, oldest first. -/
def runLog (I : Impl C) (calls : List Call) : List (Processed C) :=
  (outputs call I calls).flatMap Prod.snd

/-- Invariant rule along the loop, over the engine and the log so far. -/
theorem drainAll_log_invariant (inv : Impl C → List (Processed C) → Prop)
    (cond : Processed C → Prop)
    (keeps : ∀ I log type body rest, front I.recvBuf = .message type body rest → inv I log →
      cond (receive I type body rest) →
      inv (receive I type body rest).after (log ++ [receive I type body rest]))
    (I : Impl C) (log : List (Processed C)) (start : inv I log)
    (meets : ∀ p ∈ (drainAll I).log, cond p) :
    inv (drainAll I).engine (log ++ (drainAll I).log) := by
  induction I using drainAll_induction generalizing log with
  | needMore I hf => simpa [drainAll_needMore hf] using start
  | badHeader I hf => simpa [drainAll_badHeader hf] using start
  | error I type body rest e hf he =>
    rw [drainAll_error hf he] at meets ⊢
    exact keeps I log type body rest hf start (meets _ (by simp))
  | ok I type body rest hf he ih =>
    rw [drainAll_ok hf he] at meets ⊢
    have here := keeps I log type body rest hf start (meets _ (by simp))
    have later := ih _ here (fun p hp => meets p (by simp [hp]))
    simpa using later

/-- Invariant rule for runs of calls. -/
theorem run_log_invariant (inv : Impl C → List (Processed C) → Prop)
    (cond : Processed C → Prop)
    (starts : ∀ I log rng, inv I log → inv (I.start rng).1 log)
    (buffers : ∀ I log data, inv I log → inv (Impl.append I data) log)
    (keeps : ∀ I log type body rest, front I.recvBuf = .message type body rest → inv I log →
      cond (receive I type body rest) →
      inv (receive I type body rest).after (log ++ [receive I type body rest]))
    (calls : List Call) (I : Impl C) (log : List (Processed C)) (start : inv I log)
    (meets : ∀ p ∈ runLog I calls, cond p) :
    inv (run call I calls) (log ++ runLog I calls) := by
  induction calls generalizing I log with
  | nil => simpa [runLog, outputs] using start
  | cons c rest ih =>
    have split : runLog I (c :: rest) = (call I c).2.2 ++ runLog (call I c).1 rest := by
      simp [runLog, outputs]
    rw [split] at meets ⊢
    rw [run_cons, ← List.append_assoc]
    refine ih _ _ ?_ (fun p hp => meets p (List.mem_append_right _ hp))
    cases c with
    | start rng => simpa [call] using starts I log rng start
    | onBytes data =>
      exact drainAll_log_invariant inv cond keeps _ log (buffers I log _ start)
        (fun p hp => meets p (List.mem_append_left _ hp))

/-! ## Primitives that can be evaluated -/

/-- A deterministic stand-in for the primitives: the hash depends on the length, a
signature repeats the hash twice, the MAC is constant. -/
def toyCrypto : Crypto where
  Keypair := Unit
  sha256 data := ⟨List.replicate 30 0 ++ encode 2 data.length, by simp [slTranscriptLen]⟩
  hmacSha256 _ _ := some (List.replicate 32 7)
  ecExportPubkey _ := some ⟨0x04 :: List.replicate 64 1, by decide⟩
  ecPointOnCurve pub := pub.length == 65
  ecdhComputeKey _ peer := some (peer.take 32)
  ed25519Verify _ msg sig := sig == msg ++ msg

def toyConfig : HandshakeConfig :=
  { expectedPeerPub := ⟨List.replicate 32 9, by decide⟩, pinPeerIdentity := true }

def toyStart : Call := .start (some ⟨List.replicate 32 0, by decide⟩)

/-- The stand-in client after its start. -/
def toyClient : Impl toyCrypto := (call (Impl.new toyConfig (some ())) toyStart).1

def toyServerHello : Bytes := List.replicate 32 0 ++ (0x04 :: List.replicate 64 2) ++ [0, 1]

end SecureLink.Source.Handshake
