import SecureLink.Source.Handshake.EngineSteps

/-!
# Finality of handshake failure

Once a call has returned kError the engine should stay dead. Only a refusal of the
order machine makes it so: the other error returns of src/handshake_engine.cpp leave
HandshakeState as it is, and a failed engine still answers kNeedMore while its buffer
holds no complete message. The condition under which failure is final is exact.
-/
namespace SecureLink.Guarantees.HandshakeFailure
open Library.BigEndian Library.Runs Source.Handshake

variable {C : Crypto}

/-- The engine is dead and stays dead: kFailed throughout, every `on_bytes` an error,
no keys appear. -/
def StaysDead : Impl C → List Call → Prop
  | I, [] => I.state.state = .kFailed
  | I, c :: rest =>
    I.state.state = .kFailed ∧
    (∀ data, c = .onBytes data → (call I c).2.1.action = .kError) ∧
    (I.sessionKeys = none → (call I c).1.sessionKeys = none) ∧
    StaysDead (call I c).1 rest

/-- After every call of the run that returns kError, the engine stays dead. -/
def FailureFinal : Impl C → List Call → Prop
  | _, [] => True
  | I, c :: rest =>
    ((call I c).2.1.action = .kError → StaysDead (call I c).1 rest) ∧
    FailureFinal (call I c).1 rest

/-- The receive loop of an engine takes no branch that reports an error and leaves the
order machine alive: no oversized header, no accepted message with a failing body. -/
inductive LoopMeets : Impl C → Prop
  | needMore {I : Impl C} (h : front I.recvBuf = .needMore) : LoopMeets I
  | refused {I : Impl C} {type : HsType} {body rest : Bytes}
      (h : front I.recvBuf = .message type body rest)
      (refused : (I.state.onReceived type).2 = false) : LoopMeets I
  | checked {I : Impl C} {type : HsType} {body rest : Bytes}
      (h : front I.recvBuf = .message type body rest)
      (accepted : (I.state.onReceived type).2 = true)
      (passed : (I.entered type body).bodyAccepts type body = true)
      (later : LoopMeets (receive I type body rest).after) : LoopMeets I

/-- The condition on a call, in the engine before it. While the machine is alive, a
start finds its key pair, random bytes and exported key, and the receive loop meets its
condition; once it has failed, every `on_bytes` brings something to complain about. -/
def CallMeets (I : Impl C) : Call → Prop
  | .start rng => I.state.state ≠ .kFailed → I.ecdh.isSome ∧
      (I.cfg.role = .kClient → I.state.state = .kInit →
        rng.isSome ∧ (I.ecdh.bind C.ecExportPubkey).isSome)
  | .onBytes data =>
    if I.state.state = .kFailed then front (I.recvBuf ++ data) ≠ .needMore
    else LoopMeets (I.append data)

theorem err_action (msg : String) : (err msg).action = .kError := rfl

theorem idle_action (I : Impl C) : (idle I).action ≠ .kError := by
  unfold idle
  split <;> simp

/-- An accepted message leaves the machine alive. -/
theorem accepted_alive {s : HandshakeState} {type : HsType} (h : (s.onReceived type).2 = true) :
    (s.onReceived type).1.state ≠ .kFailed := by
  rcases onReceived_cases s type with ⟨refused, _⟩ | ⟨_, next, moved, rows⟩
  · simp [h] at refused
  · rw [moved]
    rcases rows with ⟨_, _, _, rfl⟩ | ⟨_, _, _, rfl⟩ | ⟨_, _, _, rfl⟩ | ⟨_, _, _, rfl⟩ |
      ⟨_, _, _, rfl⟩ | ⟨_, _, _, rfl⟩ <;> simp

theorem refused_failed {s : HandshakeState} {type : HsType} (h : (s.onReceived type).2 = false) :
    (s.onReceived type).1.state = .kFailed :=
  handle_refused (e := .received type) h

theorem LoopMeets.not_badHeader {I : Impl C} (meets : LoopMeets I) :
    front I.recvBuf ≠ .badHeader := by
  intro bad
  cases meets with
  | needMore h => exact Front.noConfusion (h.symm.trans bad)
  | refused h _ => exact Front.noConfusion (h.symm.trans bad)
  | checked h _ _ _ => exact Front.noConfusion (h.symm.trans bad)

/-- What the condition says of a message at the front. -/
theorem LoopMeets.message {I : Impl C} (meets : LoopMeets I) {type : HsType} {body rest : Bytes}
    (hf : front I.recvBuf = .message type body rest) (accepted : (I.state.onReceived type).2 = true) :
    (I.entered type body).bodyAccepts type body = true ∧
      LoopMeets (receive I type body rest).after := by
  cases meets with
  | needMore h => exact Front.noConfusion (h.symm.trans hf)
  | refused h refused =>
    cases h.symm.trans hf
    rw [accepted] at refused
    cases refused
  | checked h _ passed later =>
    cases h.symm.trans hf
    exact ⟨passed, later⟩

/-- Outcome of the loop on an engine that is alive: meeting the condition, it reports an
error exactly when the machine failed; otherwise it reports one and the machine lives on. -/
theorem loop_outcome (I : Impl C) (alive : I.state.state ≠ .kFailed) :
    (LoopMeets I → ((drainAll I).result.action = .kError ↔
      (drainAll I).engine.state.state = .kFailed)) ∧
    (¬ LoopMeets I → (drainAll I).result.action = .kError ∧
      (drainAll I).engine.state.state ≠ .kFailed) := by
  induction I using drainAll_induction with
  | needMore I hf =>
    refine ⟨fun _ => ?_, fun not => absurd (.needMore hf) not⟩
    simp [drainAll_needMore hf, idle_action, alive]
  | badHeader I hf =>
    refine ⟨fun meets => absurd hf meets.not_badHeader, fun _ => ?_⟩
    simp [drainAll_badHeader hf, err_action, alive]
  | error I type body rest e hf he =>
    have fits := (front_message hf).1
    obtain ⟨_, _, state, _, _⟩ := receive_frame I type body rest fits
    rw [drainAll_error hf he]
    cases moved : (I.state.onReceived type).2 with
    | false =>
      have he' := (receive_refused I type body rest fits moved).2
      rw [he] at he'
      cases he'
      refine ⟨fun _ => ?_, fun not => absurd (.refused hf moved) not⟩
      simp [state, refused_failed moved, err_action]
    | true =>
      have error := (receive_accepted I type body rest fits moved).2
      have action := Impl.processBody_error (error.symm.trans he)
      have broken : ¬ LoopMeets I := by
        intro meets
        have passed := (meets.message hf moved).1
        rw [(receive_ok_iff I type body rest fits).mpr ⟨moved, passed⟩] at he
        cases he
      exact ⟨fun meets => absurd meets broken,
        fun _ => ⟨action, by rw [state]; exact accepted_alive moved⟩⟩
  | ok I type body rest hf he ih =>
    have fits := (front_message hf).1
    obtain ⟨_, _, state, _, _⟩ := receive_frame I type body rest fits
    obtain ⟨accepted, passed⟩ := (receive_ok_iff I type body rest fits).mp he
    obtain ⟨meets, fails⟩ := ih (by rw [state]; exact accepted_alive accepted)
    rw [drainAll_ok hf he]
    exact ⟨fun now => meets (now.message hf accepted).2,
      fun not => fails fun later => not (.checked hf accepted passed later)⟩

/-- A failed engine answers `on_bytes` with an error exactly when the front of its
buffer is a complete message or an oversized header; it changes nothing that counts. -/
theorem loop_failed (I : Impl C) (failed : I.state.state = .kFailed) :
    ((drainAll I).result.action = .kError ↔ front I.recvBuf ≠ .needMore) ∧
    (drainAll I).engine.state.state = .kFailed ∧
    (drainAll I).engine.sessionKeys = I.sessionKeys := by
  cases hf : front I.recvBuf with
  | needMore => simp [drainAll_needMore hf, idle_action, failed]
  | badHeader => simp [drainAll_badHeader hf, err_action, failed]
  | message type body rest =>
    have fits := (front_message hf).1
    have refused := (handle_failed failed (.received type)).1
    obtain ⟨after, error⟩ := receive_refused I type body rest fits refused
    have dead := refused_failed refused
    rw [drainAll_error hf error]
    simp [after, err_action, Impl.entered, Impl.sessionKeys, dead]

theorem start_failed (I : Impl C) (rng : Option (FixedBytes slHsRandomLen))
    (role : I.state.role = I.cfg.role) (failed : I.state.state = .kFailed) :
    (I.start rng).1.state.state = .kFailed ∧ (I.start rng).1.sessionKeys = I.sessionKeys := by
  rcases start_spec I rng role with ⟨_, h⟩ | ⟨_, _, h⟩ | ⟨_, init, _⟩ | ⟨init, _⟩ |
    ⟨_, _, init, _⟩
  · rw [h]
    exact ⟨failed, rfl⟩
  · rw [h]
    exact ⟨(handle_failed failed .start).2, rfl⟩
  all_goals simp [failed] at init

/-- A start on a live engine reports an error without failing the machine exactly when
its key pair, random bytes or exported key are missing. -/
theorem start_outcome (I : Impl C) (rng : Option (FixedBytes slHsRandomLen))
    (role : I.state.role = I.cfg.role) (alive : I.state.state ≠ .kFailed) :
    (CallMeets I (.start rng) → ((I.start rng).2.action = .kError ↔
      (I.start rng).1.state.state = .kFailed)) ∧
    (¬ CallMeets I (.start rng) → (I.start rng).2.action = .kError ∧
      (I.start rng).1.state.state ≠ .kFailed) := by
  have started : I.state.state = .kInit → I.state.start.1.state ≠ .kFailed := by
    intro init
    cases hr : I.state.role <;> simp [HandshakeState.start, init, hr]
  rcases start_spec I rng role with ⟨key, h⟩ | ⟨key, notInit, h⟩ | ⟨key, init, server, h⟩ |
    ⟨init, client, ⟨missing, h⟩ | ⟨_, missing, h⟩⟩ | ⟨random, pub, init, client, drawn, exported, h⟩
  · rw [h]
    exact ⟨fun meets => by simpa [key] using (meets alive).1, fun _ => ⟨rfl, alive⟩⟩
  · have meets : CallMeets I (.start rng) := fun _ => ⟨key, fun _ init => absurd init notInit⟩
    rw [h]
    refine ⟨fun _ => ?_, fun not => absurd meets not⟩
    simp [err_action, HandshakeState.start, notInit, HandshakeState.fail]
  · have meets : CallMeets I (.start rng) :=
      fun _ => ⟨key, fun client => by simp [server] at client⟩
    rw [h]
    exact ⟨fun _ => by simp [started init], fun not => absurd meets not⟩
  · rw [h]
    exact ⟨fun meets => by simpa [missing] using ((meets alive).2 client init).1,
      fun _ => ⟨rfl, started init⟩⟩
  · rw [h]
    exact ⟨fun meets => by simpa [missing] using ((meets alive).2 client init).2,
      fun _ => ⟨rfl, started init⟩⟩
  · have key : I.ecdh.isSome := by
      cases hk : I.ecdh with
      | none => simp [hk] at exported
      | some kp => rfl
    have meets : CallMeets I (.start rng) :=
      fun _ => ⟨key, fun _ _ => ⟨by simp [drawn], by simp [exported]⟩⟩
    rw [h]
    refine ⟨fun _ => ?_, fun not => absurd meets not⟩
    simp [HandshakeState.start, HandshakeState.onSent, HandshakeState.isTerminal, init,
      role.trans client]

/-- The machine's role is the configured one throughout. -/
theorem call_role (I : Impl C) (c : Call) (role : I.state.role = I.cfg.role) :
    (call I c).1.state.role = (call I c).1.cfg.role := by
  cases c with
  | start rng =>
    obtain ⟨config, _, _, same, _⟩ := start_frame I rng role
    exact same.trans (role.trans (congrArg HandshakeConfig.role config.symm))
  | onBytes data =>
    refine drainAll_log_invariant (fun I _ => I.state.role = I.cfg.role) (fun _ => True) ?_
      (I.append data) [] role (fun _ _ => trivial)
    intro I _ type body rest hf role _
    obtain ⟨config, _, state, _, _⟩ := receive_frame I type body rest (front_message hf).1
    rw [state, onReceived_role, config, role]

theorem call_outcome (I : Impl C) (c : Call) (role : I.state.role = I.cfg.role)
    (alive : I.state.state ≠ .kFailed) :
    (CallMeets I c → ((call I c).2.1.action = .kError ↔ (call I c).1.state.state = .kFailed)) ∧
    (¬ CallMeets I c → (call I c).2.1.action = .kError ∧ (call I c).1.state.state ≠ .kFailed) := by
  cases c with
  | start rng => exact start_outcome I rng role alive
  | onBytes data =>
    simp only [CallMeets, if_neg alive]
    exact loop_outcome (I.append data) alive

/-- For a failed engine the condition is exactly what keeps it dead. -/
theorem staysDead_iff (I : Impl C) (calls : List Call) (role : I.state.role = I.cfg.role)
    (failed : I.state.state = .kFailed) :
    StaysDead I calls ↔ AllSteps call CallMeets I calls := by
  induction calls generalizing I with
  | nil => simp [StaysDead, AllSteps, failed]
  | cons c rest ih =>
    cases c with
    | start rng =>
      obtain ⟨dead, keys⟩ := start_failed I rng role failed
      have later := ih _ (call_role I (.start rng) role) dead
      simp [StaysDead, AllSteps, CallMeets, failed, call, keys]
      exact later
    | onBytes data =>
      obtain ⟨error, dead, keys⟩ := loop_failed (I.append data) failed
      have later := ih _ (call_role I (.onBytes data) role) dead
      have kept : (onBytes I data).engine.sessionKeys = I.sessionKeys := keys
      rw [← onBytes_eq] at error
      simp [StaysDead, AllSteps, CallMeets, failed, call, kept, error, Impl.append]
      exact fun _ => later

theorem final_of_staysDead (I : Impl C) (calls : List Call) (h : StaysDead I calls) :
    FailureFinal I calls := by
  induction calls generalizing I with
  | nil => trivial
  | cons c rest ih => exact ⟨fun _ => h.2.2.2, ih _ h.2.2.2⟩

theorem final_iff_of_alive (I : Impl C) (calls : List Call) (role : I.state.role = I.cfg.role)
    (alive : I.state.state ≠ .kFailed) :
    FailureFinal I calls ↔ AllSteps call CallMeets I calls := by
  induction calls generalizing I with
  | nil => simp [FailureFinal, AllSteps]
  | cons c rest ih =>
    obtain ⟨meets, breaks⟩ := call_outcome I c role alive
    have role' := call_role I c role
    by_cases h : CallMeets I c
    · by_cases dead : (call I c).1.state.state = .kFailed
      · have error := (meets h).mpr dead
        have later := staysDead_iff _ rest role' dead
        simp only [FailureFinal, AllSteps, error, h, true_implies, true_and, ← later]
        exact ⟨And.left, fun d => ⟨d, final_of_staysDead _ rest d⟩⟩
      · have noError : (call I c).2.1.action ≠ .kError := fun e => dead ((meets h).mp e)
        simp only [FailureFinal, AllSteps, noError, h, false_implies, true_and]
        exact ih _ role' dead
    · obtain ⟨error, lives⟩ := breaks h
      simp only [FailureFinal, AllSteps, h, false_and, iff_false, error, true_implies]
      rintro ⟨dead, _⟩
      cases rest with
      | nil => exact lives dead
      | cons c' rest => exact lives dead.1

/-- Failure is final in a run of the engine, in either role, if and only if every call
of the run meets the condition in the engine before it. -/
theorem failure_final_iff (C : Crypto) (cfg : HandshakeConfig) (ecdh : Option C.Keypair)
    (calls : List Call) :
    FailureFinal (Impl.new cfg ecdh) calls ↔ AllSteps call CallMeets (Impl.new cfg ecdh) calls :=
  final_iff_of_alive (Impl.new cfg ecdh) calls rfl (by simp [Impl.new, fresh])

/-- Failure is not final: a ServerHello with an empty body is reported as an error and
the client waits for the Certificate. -/
theorem failure_not_final :
    ¬ ∀ (C : Crypto) (cfg : HandshakeConfig) (ecdh : Option C.Keypair) (calls : List Call),
      FailureFinal (Impl.new cfg ecdh) calls := by
  intro always
  obtain ⟨_, dead, _⟩ :=
    always toyCrypto toyConfig (some ()) [toyStart, .onBytes (frame .serverHello [])]
  refine absurd (dead (by decide +kernel)) ?_
  unfold StaysDead
  decide +kernel

end SecureLink.Guarantees.HandshakeFailure
