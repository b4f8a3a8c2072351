import SecureLink.Source.Handshake.Chunks

/-!
# A server that follows the message documentation

inc/sl_handshake_msg.h:11 has the CertVerify sign the hash of the transcript so far.
The engine absorbs a message before it checks it, so it verifies against a transcript
that already contains the CertVerify itself. With a hash that does not collide on the
transcripts of the run, every documented signature is refused.
-/
namespace SecureLink.Guarantees.HandshakeHonest
open Library.BigEndian Library.Runs Source.Handshake

variable {C : Crypto}

/-- An Ed25519 key pair. Its signature of a hash verifies for that hash and no other. -/
structure SigningKey (C : Crypto) where
  pub : FixedBytes slEd25519PubkeyLen
  sign (hash : FixedBytes slTranscriptLen) : FixedBytes slEd25519SigLen
  accepts : ∀ hash, C.ed25519Verify pub.1 hash.1 (sign hash).1 = true
  rejects : ∀ hash other, other ≠ hash → C.ed25519Verify pub.1 other.1 (sign hash).1 = false

/-- The documented CertVerify body: the signature of the hash of the messages before it. -/
def SigningKey.certVerify (key : SigningKey C) (transcript : Bytes) : Bytes :=
  (key.sign (C.sha256 transcript)).1

/-- The bytes an honest server sends up to its CertVerify. -/
def SigningKey.flight (key : SigningKey C) (clientHello hello : Bytes) : Bytes :=
  frame .serverHello hello ++ frame .certificate key.pub.1 ++
    frame .certVerify (key.certVerify
      (clientHello ++ frame .serverHello hello ++ frame .certificate key.pub.1))

/-- No piece is answered with an error and the client waits for the Finished. -/
def CertVerifyAccepted (I : Impl C) (chunks : List Bytes) : Prop :=
  (∀ r ∈ chunkResults I chunks, r.action ≠ .kError) ∧
  (run call I (chunks.map .onBytes)).state.state = .kWaitServerFinished

/-- Where a successful start leaves a fresh client. -/
theorem started_client {cfg : HandshakeConfig} {ecdh : Option C.Keypair}
    {random : Option (FixedBytes slHsRandomLen)} {clientHello : Bytes} {I : Impl C}
    (started : (Impl.new cfg ecdh).start random =
      (I, { action := .kSendBytes, outBytes := clientHello })) :
    I.state.role = .kClient ∧ I.state.state = .kWaitServerHello ∧
    I.transcript = clientHello ∧ I.recvBuf = [] := by
  rcases start_spec (Impl.new cfg ecdh : Impl C) random rfl with ⟨_, h⟩ | ⟨_, _, h⟩ |
    ⟨_, _, _, h⟩ | ⟨_, _, ⟨_, h⟩ | ⟨_, _, h⟩⟩ | ⟨drawn, pub, _, client, _, _, h⟩
  all_goals
    rw [h] at started
    simp only [err, Prod.mk.injEq, HsStepResult.mk.injEq, reduceCtorEq, false_and, and_false,
      true_and, and_true] at started
  obtain ⟨rfl, rfl⟩ := started
  replace client : cfg.role = .kClient := client
  simp [Impl.new, fresh, HandshakeState.start, HandshakeState.onSent, HandshakeState.isTerminal,
    client]

/-- After an accepted Certificate its key is the peer's identity. -/
theorem certificate_stored (I : Impl C) (body rest : Bytes) (fits : body.length ≤ slHsMaxPayload)
    (ok : (receive I .certificate body rest).error = none) :
    (receive I .certificate body rest).after.peerIdentityPub = body ∧
    (receive I .certificate body rest).after.peerIdentitySet = true := by
  obtain ⟨moved, passed⟩ := (receive_ok_iff I .certificate body rest fits).mp ok
  have len : body.length = slEd25519PubkeyLen := by
    simp only [Impl.bodyAccepts, Bool.and_eq_true, beq_iff_eq] at passed
    exact passed.1
  rw [(receive_accepted I .certificate body rest fits moved).1]
  simp only [Impl.processBody, Impl.processCertificate, len, ne_eq, not_true_eq_false, if_false]
  split_ifs <;> exact ⟨rfl, rfl⟩

/-- The client once it has accepted the ServerHello and the Certificate. -/
theorem certified_client {I : Impl C} {hello cert : Bytes}
    (role : I.state.role = .kClient) (state : I.state.state = .kWaitServerHello)
    (empty : I.recvBuf = []) (helloFits : hello.length ≤ slHsMaxPayload)
    (certFits : cert.length ≤ slHsMaxPayload)
    (accepted : (onBytes I (frame .serverHello hello ++ frame .certificate cert)).result.action
      ≠ .kError) :
    ∃ J, (onBytes I (frame .serverHello hello ++ frame .certificate cert)).engine = J ∧
      J.state.role = .kClient ∧ J.state.state = .kWaitCertVerify ∧ J.recvBuf = [] ∧
      J.transcript = I.transcript ++ frame .serverHello hello ++ frame .certificate cert ∧
      J.peerIdentityPub = cert ∧ J.peerIdentitySet = true := by
  rw [onBytes_eq] at accepted ⊢
  generalize hA : I.append (frame .serverHello hello ++ frame .certificate cert) = A at accepted ⊢
  have atHello : front A.recvBuf = .message .serverHello hello (frame .certificate cert) := by
    rw [← hA, Impl.append, empty, List.nil_append]
    exact front_frame _ _ _ helloFits
  obtain ⟨_, engine, accepted⟩ := drainAll_passes atHello accepted
  obtain ⟨_, _, stateB, transcriptB, bufB⟩ :=
    receive_frame A .serverHello hello (frame .certificate cert) helloFits
  generalize (receive A .serverHello hello (frame .certificate cert)).after = B at *
  have atCert : front B.recvBuf = .message .certificate cert [] := by
    rw [bufB, ← List.append_nil (frame .certificate cert)]
    exact front_frame _ _ _ certFits
  obtain ⟨ok, engineB, _⟩ := drainAll_passes atCert accepted
  obtain ⟨_, _, stateJ, transcriptJ, bufJ⟩ := receive_frame B .certificate cert [] certFits
  obtain ⟨pub, set⟩ := certificate_stored B cert [] certFits ok
  have done : front (receive B .certificate cert []).after.recvBuf = .needMore := by
    rw [bufJ]
    rfl
  have sameState : A.state = I.state := by rw [← hA]; rfl
  have sameTranscript : A.transcript = I.transcript := by rw [← hA]; rfl
  refine ⟨_, engine.trans engineB, ?_⟩
  rw [drainAll_needMore done]
  refine ⟨?_, ?_, bufJ, ?_, pub, set⟩
  · rw [stateJ, stateB, onReceived_role, onReceived_role, sameState, role]
  · rw [stateJ, stateB, sameState]
    simp [HandshakeState.onReceived, HandshakeState.isTerminal, role, state]
  · rw [transcriptJ, transcriptB, sameTranscript]

/-- The client's answer to a signature of anything but the transcript that includes it. -/
theorem certVerify_refused {J : Impl C} (sig : FixedBytes slEd25519SigLen)
    (role : J.state.role = .kClient) (state : J.state.state = .kWaitCertVerify)
    (empty : J.recvBuf = []) (known : J.peerIdentitySet = true)
    (bad : C.ed25519Verify J.peerIdentityPub
      (C.sha256 (J.transcript ++ frame .certVerify sig.1)).1 sig.1 = false) :
    (onBytes J (frame .certVerify sig.1)).result = err "certverify_signature_fail" := by
  have fits : sig.1.length ≤ slHsMaxPayload := by
    rw [sig.2]
    decide
  have atVerify : front (J.append (frame .certVerify sig.1)).recvBuf =
      .message .certVerify sig.1 [] := by
    rw [Impl.append, empty, List.nil_append, ← List.append_nil (frame .certVerify sig.1)]
    exact front_frame _ _ _ fits
  have moved : ((J.append (frame .certVerify sig.1)).state.onReceived .certVerify).2 = true := by
    simp [Impl.append, HandshakeState.onReceived, HandshakeState.isTerminal, role, state]
  have error : (receive (J.append (frame .certVerify sig.1)) .certVerify sig.1 []).error =
      some (err "certverify_signature_fail") := by
    rw [(receive_accepted _ _ _ _ fits moved).2]
    simp [Impl.processBody, Impl.processCertVerify, Impl.entered, Impl.append, sig.2, known,
      slTranscriptGet, bad]
  rw [onBytes_eq, drainAll_error atVerify error]

/-- No client accepts a documented CertVerify, however the server's bytes are cut. -/
theorem honest_certVerify_refused (C : Crypto) (cfg : HandshakeConfig) (ecdh : Option C.Keypair)
    (random : Option (FixedBytes slHsRandomLen)) (clientHello : Bytes) (I : Impl C)
    (started : (Impl.new cfg ecdh).start random =
      (I, { action := .kSendBytes, outBytes := clientHello }))
    (key : SigningKey C) (hello : Bytes) (fits : hello.length ≤ slHsMaxPayload)
    (accepted : (onBytes I (frame .serverHello hello ++ frame .certificate key.pub.1)).result.action
      ≠ .kError)
    (chunks : List Bytes) (sent : chunks.flatten = key.flight clientHello hello)
    (collisionFree : Set.InjOn C.sha256 {t | t <+: clientHello ++ key.flight clientHello hello}) :
    err "certverify_signature_fail" ∈ chunkResults I chunks ∧ ¬ CertVerifyAccepted I chunks := by
  obtain ⟨role, state, transcript, empty⟩ := started_client started
  have certFits : key.pub.1.length ≤ slHsMaxPayload := by
    rw [key.pub.2]
    decide
  obtain ⟨J, engine, roleJ, stateJ, emptyJ, transcriptJ, pubJ, knownJ⟩ :=
    certified_client role state empty fits certFits accepted
  rw [transcript] at transcriptJ
  have bad : C.ed25519Verify J.peerIdentityPub
      (C.sha256 (J.transcript ++ frame .certVerify (key.certVerify J.transcript))).1
      (key.certVerify J.transcript) = false := by
    rw [pubJ]
    apply key.rejects
    intro same
    -- the transcript with and without the CertVerify are different prefixes of the run's
    have equal := collisionFree
      (show _ <+: _ from ⟨[], by simp [SigningKey.flight, transcriptJ]⟩)
      (show _ <+: _ from ⟨frame .certVerify (key.certVerify J.transcript), by
        simp [SigningKey.flight, transcriptJ]⟩) same
    simp [frame, header] at equal
  have refused := certVerify_refused (key.sign (C.sha256 J.transcript)) roleJ stateJ emptyJ
    knownJ bad
  have whole : (onBytes I chunks.flatten).result = err "certverify_signature_fail" := by
    have split : I.append (key.flight clientHello hello) =
        (I.append (frame .serverHello hello ++ frame .certificate key.pub.1)).append
          (frame .certVerify (key.certVerify J.transcript)) := by
      simp [SigningKey.flight, Impl.append, transcriptJ]
    rw [sent, onBytes_eq, split, ((drainAll_append _ _).1 accepted).2, ← onBytes_eq I, engine]
    exact refused
  have reported := chunkResults_error chunks I (by rw [empty]; rfl) (by rw [whole]; rfl)
  rw [whole] at reported
  exact ⟨reported, fun ok => ok.1 _ reported rfl⟩

/-- The stand-in hash tells the prefixes of a short transcript apart. -/
theorem toy_collisionFree (transcript : Bytes) (short : transcript.length < 256 ^ 2) :
    Set.InjOn toyCrypto.sha256 {t | t <+: transcript} := by
  intro t ht t' ht' same
  have bytes := congrArg Subtype.val same
  have len : t.length = t'.length := by
    refine encode_injective (Nat.lt_of_le_of_lt ht.length_le short)
      (Nat.lt_of_le_of_lt ht'.length_le short) ?_
    exact List.append_cancel_left bytes
  exact (List.prefix_of_prefix_length_le ht ht' len.le).eq_of_length len

def toyKey : SigningKey toyCrypto where
  pub := toyConfig.expectedPeerPub
  sign hash := ⟨hash.1 ++ hash.1, by simp [hash.2, slTranscriptLen, slEd25519SigLen]⟩
  accepts hash := by simp [toyCrypto]
  rejects hash other different := by
    have bytes : hash.1 ≠ other.1 := fun same => different (Subtype.ext same.symm)
    simp only [toyCrypto, beq_eq_false_iff_ne, ne_eq]
    intro same
    exact bytes (List.append_inj_left same (hash.2.trans other.2.symm))

/-- The ClientHello of the stand-in client. -/
def toyClientHello : Bytes :=
  (call (Impl.new (C := toyCrypto) toyConfig (some ())) toyStart).2.1.outBytes

theorem honest_certVerify_refused_toy :
    err "certverify_signature_fail" ∈
      chunkResults toyClient [toyKey.flight toyClientHello toyServerHello] ∧
    ¬ CertVerifyAccepted toyClient [toyKey.flight toyClientHello toyServerHello] :=
  honest_certVerify_refused toyCrypto toyConfig (some ()) (some ⟨List.replicate 32 0, by decide⟩)
    toyClientHello toyClient rfl toyKey toyServerHello (by decide) (by decide +kernel) _ (by simp)
    (toy_collisionFree _ (by decide +kernel))

/-- The honest server is turned away in a concrete handshake. -/
theorem honest_server_turned_away :
    ¬ ∀ (C : Crypto) (cfg : HandshakeConfig) (ecdh : Option C.Keypair)
        (random : Option (FixedBytes slHsRandomLen)) (clientHello : Bytes) (I : Impl C),
      (Impl.new cfg ecdh).start random = (I, { action := .kSendBytes, outBytes := clientHello }) →
      ∀ (key : SigningKey C) (hello : Bytes), hello.length ≤ slHsMaxPayload →
      (onBytes I (frame .serverHello hello ++ frame .certificate key.pub.1)).result.action
        ≠ .kError →
      ∀ chunks : List Bytes, chunks.flatten = key.flight clientHello hello →
      Set.InjOn C.sha256 {t | t <+: clientHello ++ key.flight clientHello hello} →
      CertVerifyAccepted I chunks := by
  intro always
  have accepted := always toyCrypto toyConfig (some ()) (some ⟨List.replicate 32 0, by decide⟩)
    toyClientHello toyClient rfl toyKey toyServerHello (by decide) (by decide +kernel)
    [toyKey.flight toyClientHello toyServerHello] (by simp)
    (toy_collisionFree _ (by decide +kernel))
  have error : (chunkResults toyClient [toyKey.flight toyClientHello toyServerHello]).map
      HsStepResult.action = [.kError] := by decide +kernel
  obtain ⟨r, reported, action⟩ := List.mem_map.mp (error ▸ List.mem_singleton_self HsAction.kError)
  exact accepted.1 r reported action

end SecureLink.Guarantees.HandshakeHonest
