import SecureLink.Source.Handshake.EngineSteps

/-!
# Session keys and peer authentication

Session keys should be released by a client only after a checked ServerHello,
Certificate, CertVerify and Finished. src/handshake_engine.cpp moves the order
machine before it checks a body and marks the secret ready before it checks the
Finished MAC, so a failed check does not stop the release. The property holds in
every run in which no message that the order machine accepts fails its check.
-/
namespace SecureLink.Guarantees.HandshakeAuth
open Library.BigEndian Library.Runs Source.Handshake

variable {C : Crypto}

def IsServerHello (p : Processed C) : Prop := p.type = .serverHello ∧ p.error = none

/-- A Certificate processed without error; it carries the pinned key if one is set. -/
def IsCertificate (cfg : HandshakeConfig) (p : Processed C) : Prop :=
  p.type = .certificate ∧ p.error = none ∧
    (cfg.pinPeerIdentity = true → p.body = cfg.expectedPeerPub.1)

/-- A CertVerify whose signature verified under the certificate's key. -/
def IsCertVerify (cert p : Processed C) : Prop :=
  p.type = .certVerify ∧ p.error = none ∧
    C.ed25519Verify cert.body (slTranscriptGet C p.after.transcript) p.body = true

/-- A Finished that carries the server's MAC of the transcript. -/
def IsFinished (p : Processed C) : Prop :=
  p.type = .finished ∧ p.error = none ∧
    C.hmacSha256 p.after.secret.serverFinishedKey (slTranscriptGet C p.after.transcript) = some p.body

/-- The four messages, processed without error and in this order. -/
def Authenticated (cfg : HandshakeConfig) (log : List (Processed C)) : Prop :=
  ∃ hello cert verify finished, List.Sublist [hello, cert, verify, finished] log ∧
    IsServerHello hello ∧ IsCertificate cfg cert ∧ IsCertVerify cert verify ∧ IsFinished finished

/-- The condition on a message, in the engine before it: if its type is accepted, its
body check passes. A Finished that is too short or long, or for which no secret can be
derived, releases nothing and is left free. -/
def checksHold (p : Processed C) : Bool :=
  !(p.before.state.onReceived p.type).2 ||
    (p.type == .finished && !(p.body.length == slFinishedLen &&
      (p.before.entered p.type p.body).secretFor.isSome)) ||
    (p.before.entered p.type p.body).bodyAccepts p.type p.body

/-- What the order state of a client stands for, when every accepted message was checked. -/
def Stage (cfg : HandshakeConfig) (I : Impl C) (log : List (Processed C)) : Prop :=
  match I.state.state with
  | .kWaitCertificate => ∃ hello, List.Sublist [hello] log ∧ IsServerHello hello
  | .kWaitCertVerify => ∃ hello cert, List.Sublist [hello, cert] log ∧
      IsServerHello hello ∧ IsCertificate cfg cert ∧ I.peerIdentityPub = cert.body
  | .kWaitServerFinished => ∃ hello cert verify, List.Sublist [hello, cert, verify] log ∧
      IsServerHello hello ∧ IsCertificate cfg cert ∧ IsCertVerify cert verify
  | _ => True

structure AuthInvariant (cfg : HandshakeConfig) (I : Impl C) (log : List (Processed C)) : Prop where
  config : I.cfg = cfg
  role : I.state.role = .kClient
  stage : Stage cfg I log
  keys : I.secretReady = true → Authenticated cfg log

theorem Authenticated.append {cfg : HandshakeConfig} {log : List (Processed C)}
    (h : Authenticated cfg log) (p : Processed C) : Authenticated cfg (log ++ [p]) := by
  obtain ⟨hello, cert, verify, finished, sub, rest⟩ := h
  exact ⟨hello, cert, verify, finished, sub.trans (List.sublist_append_left _ _), rest⟩

theorem start_keeps (cfg : HandshakeConfig) (client : cfg.role = .kClient) (I : Impl C)
    (log : List (Processed C)) (rng : Option (FixedBytes slHsRandomLen))
    (h : AuthInvariant cfg I log) : AuthInvariant cfg (I.start rng).1 log := by
  have role : I.state.role = I.cfg.role := by rw [h.role, h.config, client]
  obtain ⟨config, _, ready, sameRole, moved⟩ := start_frame I rng role
  refine ⟨config.trans h.config, sameRole.trans h.role, ?_, fun r => h.keys (ready ▸ r)⟩
  rcases moved with same | failed | ⟨_, waiting | waiting⟩
  · rw [same]
    exact h.stage
  all_goals simp only [Stage, *]

theorem checksHold_body {p : Processed C} (h : checksHold p = true)
    (accepted : (p.before.state.onReceived p.type).2 = true) (other : p.type ≠ .finished) :
    (p.before.entered p.type p.body).bodyAccepts p.type p.body = true := by
  simpa [checksHold, accepted, other] using h

theorem checksHold_finished {p : Processed C} (h : checksHold p = true)
    (accepted : (p.before.state.onReceived p.type).2 = true) (len : p.body.length = slFinishedLen)
    (secret : (p.before.entered p.type p.body).secretFor.isSome = true) :
    (p.before.entered p.type p.body).bodyAccepts p.type p.body = true := by
  simpa [checksHold, accepted, len, secret] using h

theorem sublist_snoc {α : Type} {xs log : List α} (h : List.Sublist xs log) (x : α) :
    List.Sublist (xs ++ [x]) (log ++ [x]) :=
  h.append (List.Sublist.refl [x])

/-! ## One row of the order machine at a time -/

/-- The message brings the handshake to its next stage, and releases no keys too early. -/
def Kept (cfg : HandshakeConfig) (log : List (Processed C)) (p : Processed C) : Prop :=
  Stage cfg p.after (log ++ [p]) ∧ (p.after.secretReady = true → Authenticated cfg (log ++ [p]))

section Rows
variable {cfg : HandshakeConfig} {I : Impl C} {log : List (Processed C)} {body : Bytes} (rest : Bytes)
  (fits : body.length ≤ slHsMaxPayload) (h : AuthInvariant cfg I log)

include fits h

theorem serverHello_keeps (accepted : (I.state.onReceived .serverHello).2 = true)
    (next : (I.state.onReceived .serverHello).1.state = .kWaitCertificate)
    (checks : checksHold (receive I .serverHello body rest) = true) :
    Kept cfg log (receive I .serverHello body rest) := by
  obtain ⟨after, error⟩ := receive_accepted I .serverHello body rest fits accepted
  obtain ⟨_, _, state, _, _⟩ := receive_frame I .serverHello body rest fits
  obtain ⟨_, done, ready⟩ := Impl.processHello_spec (I.entered .serverHello body) body
  have passed := checksHold_body checks accepted (by simp [receive])
  constructor
  · simp only [Stage, state, next]
    exact ⟨_, List.sublist_append_right _ _, rfl, error.trans (done.mpr passed)⟩
  · intro released
    rw [after] at released
    exact (h.keys (ready.symm.trans released)).append _

theorem certificate_keeps (accepted : (I.state.onReceived .certificate).2 = true)
    (waiting : I.state.state = .kWaitCertificate)
    (next : (I.state.onReceived .certificate).1.state = .kWaitCertVerify)
    (checks : checksHold (receive I .certificate body rest) = true) :
    Kept cfg log (receive I .certificate body rest) := by
  obtain ⟨after, error⟩ := receive_accepted I .certificate body rest fits accepted
  obtain ⟨_, _, state, _, _⟩ := receive_frame I .certificate body rest fits
  obtain ⟨_, done, peer, ready⟩ := Impl.processCertificate_spec (I.entered .certificate body) body
  have passed := checksHold_body checks accepted (by simp [receive])
  change (I.entered .certificate body).bodyAccepts .certificate body = true at passed
  have stage := h.stage
  simp only [Stage, waiting] at stage
  obtain ⟨hello, sub, isHello⟩ := stage
  have pinned : cfg.pinPeerIdentity = true → body = cfg.expectedPeerPub.1 := by
    intro pin
    rw [← h.config] at pin ⊢
    have pin' : (I.entered .certificate body).cfg.pinPeerIdentity = true := pin
    simp only [Impl.bodyAccepts, pin', Bool.not_true, Bool.false_or, Bool.and_eq_true,
      beq_iff_eq] at passed
    exact passed.2
  constructor
  · simp only [Stage, state, next]
    refine ⟨hello, _, sublist_snoc sub _, isHello, ⟨rfl, error.trans (done.mpr passed), pinned⟩, ?_⟩
    rw [after]
    exact peer (done.mpr passed)
  · intro released
    rw [after] at released
    exact (h.keys (ready.symm.trans released)).append _

theorem certVerify_keeps (accepted : (I.state.onReceived .certVerify).2 = true)
    (waiting : I.state.state = .kWaitCertVerify)
    (next : (I.state.onReceived .certVerify).1.state = .kWaitServerFinished)
    (checks : checksHold (receive I .certVerify body rest) = true) :
    Kept cfg log (receive I .certVerify body rest) := by
  obtain ⟨after, error⟩ := receive_accepted I .certVerify body rest fits accepted
  obtain ⟨_, _, state, transcript, _⟩ := receive_frame I .certVerify body rest fits
  obtain ⟨same, done⟩ := Impl.processCertVerify_spec (I.entered .certVerify body) body
  have passed := checksHold_body checks accepted (by simp [receive])
  change (I.entered .certVerify body).bodyAccepts .certVerify body = true at passed
  have stage := h.stage
  simp only [Stage, waiting] at stage
  obtain ⟨hello, cert, sub, isHello, isCert, peer⟩ := stage
  constructor
  · simp only [Stage, state, next]
    refine ⟨hello, cert, _, sublist_snoc sub _, isHello, isCert, rfl,
      error.trans (done.mpr passed), ?_⟩
    simp only [Impl.bodyAccepts, Bool.and_eq_true] at passed
    rw [transcript, ← peer]
    exact passed.2
  · intro released
    rw [after] at released
    change ((I.entered .certVerify body).processCertVerify body).1.secretReady = true at released
    rw [same] at released
    exact (h.keys released).append _

/-- A checked Finished, received after the other three, completes the authentication. -/
theorem finished_keys (client : cfg.role = .kClient) (waiting : I.state.state = .kWaitServerFinished)
    (accepted : (I.state.onReceived .finished).2 = true)
    (checks : checksHold (receive I .finished body rest) = true)
    (ready : (receive I .finished body rest).after.secretReady = true) :
    Authenticated cfg (log ++ [receive I .finished body rest]) := by
  obtain ⟨after, error⟩ := receive_accepted I .finished body rest fits accepted
  obtain ⟨same, done, readies, secret⟩ :=
    Impl.processFinished_spec (I.entered .finished body) body
  by_cases before : I.secretReady = true
  · exact (h.keys before).append _
  · -- The secret was derived for this message, so the MAC was checked with it.
    have derives : body.length = slFinishedLen ∧
        (I.entered .finished body).secretFor.isSome = true := by
      rw [after] at ready
      change ((I.entered .finished body).processFinished body).1.secretReady = true at ready
      rw [readies] at ready
      simpa [Impl.entered, before] using ready
    have passed := checksHold_finished checks accepted derives.1 derives.2
    change (I.entered .finished body).bodyAccepts .finished body = true at passed
    obtain ⟨derived, hd⟩ := Option.isSome_iff_exists.mp derives.2
    have config : (I.entered .finished body).cfg.role = .kClient := by
      rw [← client, ← h.config]
      rfl
    have mac : slFinishedVerify C derived.serverFinishedKey
        (slTranscriptGet C (I.entered .finished body).transcript) body = true := by
      simpa [Impl.bodyAccepts, hd, Impl.expectedKey, config, derives.1, slTranscriptGet] using passed
    rw [slFinishedVerify_iff C _ _ _ derives.1] at mac
    have stage := h.stage
    simp only [Stage, waiting] at stage
    obtain ⟨hello, cert, verify, sub, isHello, isCert, isVerify⟩ := stage
    refine ⟨hello, cert, verify, receive I .finished body rest, sublist_snoc sub _, isHello,
      isCert, isVerify, rfl, error.trans (done.mpr passed), ?_⟩
    rw [after]
    change C.hmacSha256 ((I.entered .finished body).processFinished body).1.secret.serverFinishedKey
      (slTranscriptGet C ((I.entered .finished body).processFinished body).1.transcript) = some body
    rw [secret derived derives.1 hd, same.transcript]
    exact mac

end Rows

/-- One message: an accepted and checked message moves the client to the stage its
order state stands for; a refused one fails the machine. -/
theorem receive_keeps (cfg : HandshakeConfig) (client : cfg.role = .kClient) (I : Impl C)
    (log : List (Processed C)) (type : HsType) (body rest : Bytes)
    (hf : front I.recvBuf = .message type body rest) (h : AuthInvariant cfg I log)
    (checks : checksHold (receive I type body rest) = true) :
    AuthInvariant cfg (receive I type body rest).after (log ++ [receive I type body rest]) := by
  have fits := (front_message hf).1
  obtain ⟨config, _, state, _, _⟩ := receive_frame I type body rest fits
  have role : (receive I type body rest).after.state.role = .kClient := by
    rw [state, onReceived_role, h.role]
  rcases onReceived_cases I.state type with ⟨refused, failed⟩ | ⟨accepted, next, moved, rows⟩
  · obtain ⟨after, _⟩ := receive_refused I type body rest fits refused
    refine ⟨config.trans h.config, role, ?_, ?_⟩
    · simp only [Stage, state, failed]
    · intro ready
      rw [after] at ready
      exact (h.keys ready).append _
  · have reached : (I.state.onReceived type).1.state = next := by rw [moved]
    rcases rows with ⟨_, rfl, waiting, rfl⟩ | ⟨_, rfl, waiting, rfl⟩ | ⟨_, rfl, waiting, rfl⟩ |
      ⟨_, rfl, waiting, rfl⟩ | ⟨server, _⟩ | ⟨server, _⟩
    · obtain ⟨stage, keys⟩ := serverHello_keeps rest fits h accepted reached checks
      exact ⟨config.trans h.config, role, stage, keys⟩
    · obtain ⟨stage, keys⟩ := certificate_keeps rest fits h accepted waiting reached checks
      exact ⟨config.trans h.config, role, stage, keys⟩
    · obtain ⟨stage, keys⟩ := certVerify_keeps rest fits h accepted waiting reached checks
      exact ⟨config.trans h.config, role, stage, keys⟩
    · refine ⟨config.trans h.config, role, ?_,
        finished_keys rest fits h client waiting accepted checks⟩
      have stage := h.stage
      simp only [Stage, waiting] at stage
      simp only [Stage, state, reached]
      obtain ⟨hello, cert, verify, sub, found⟩ := stage
      exact ⟨hello, cert, verify, sub.trans (List.sublist_append_left _ _), found⟩
    · simp [h.role] at server
    · simp [h.role] at server

/-- In every run of a client whose accepted messages all pass their checks, session
keys are out only after the four messages were processed without error, in order. -/
theorem session_keys_authenticated (C : Crypto) (cfg : HandshakeConfig)
    (client : cfg.role = .kClient) (ecdh : Option C.Keypair) (calls : List Call)
    (checks : ∀ p ∈ runLog (Impl.new cfg ecdh) calls, checksHold p = true)
    (keys : (run call (Impl.new cfg ecdh) calls).sessionKeys ≠ none) :
    Authenticated cfg (runLog (Impl.new cfg ecdh) calls) := by
  have start : AuthInvariant cfg (Impl.new cfg ecdh : Impl C) [] :=
    ⟨rfl, client, trivial, by simp [Impl.new]⟩
  have final := run_log_invariant (AuthInvariant cfg) (fun p => checksHold p = true)
    (start_keeps cfg client) (fun I log data h => ⟨h.config, h.role, h.stage, h.keys⟩)
    (receive_keeps cfg client) calls _ _ start checks
  rw [List.nil_append] at final
  apply final.keys
  by_contra unready
  simp [Impl.sessionKeys, unready] at keys

def toyHash : Bytes := List.replicate 30 0 ++ encode 2 310

theorem session_keys_authenticated_toy :
    Authenticated toyConfig (runLog (Impl.new (C := toyCrypto) toyConfig (some ()))
      [toyStart, .onBytes (frame .serverHello toyServerHello),
        .onBytes (frame .certificate (List.replicate 32 9)),
        .onBytes (frame .certVerify (toyHash ++ toyHash)),
        .onBytes (frame .finished (List.replicate 32 7))]) :=
  session_keys_authenticated toyCrypto toyConfig rfl (some ()) _ (by decide +kernel)
    (by decide +kernel)

/-- Keys without authentication: after a valid ServerHello, an empty Certificate, an
empty CertVerify and a Finished with a wrong MAC are each reported as errors, and the
keys are released all the same. -/
theorem session_keys_unauthenticated :
    ¬ ∀ (C : Crypto) (cfg : HandshakeConfig), cfg.role = .kClient →
      ∀ (ecdh : Option C.Keypair) (calls : List Call),
        (run call (Impl.new cfg ecdh) calls).sessionKeys ≠ none →
        Authenticated cfg (runLog (Impl.new cfg ecdh) calls) := by
  intro always
  obtain ⟨_, cert, _, _, sub, _, ⟨type, error, _⟩, _⟩ := always toyCrypto toyConfig rfl (some ())
    [toyStart, .onBytes (frame .serverHello toyServerHello), .onBytes (frame .certificate []),
      .onBytes (frame .certVerify []), .onBytes (frame .finished (List.replicate 32 0))]
    (by decide +kernel)
  have absent : ∀ p ∈ runLog (Impl.new (C := toyCrypto) toyConfig (some ()))
      [toyStart, .onBytes (frame .serverHello toyServerHello), .onBytes (frame .certificate []),
        .onBytes (frame .certVerify []), .onBytes (frame .finished (List.replicate 32 0))],
      ¬ (p.type = .certificate ∧ p.error = none) := by decide +kernel
  exact absent cert (sub.subset (by simp)) ⟨type, error⟩

end SecureLink.Guarantees.HandshakeAuth
