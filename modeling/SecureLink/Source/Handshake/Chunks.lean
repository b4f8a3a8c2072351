import SecureLink.Source.Handshake.EngineSteps

/-!
# Fragmentation of the incoming bytes

Messages may arrive in any number of pieces. Up to its first error the engine ends
where one `on_bytes` call with all the bytes would have left it, and the first error
reported is the one that call reports.
-/
namespace SecureLink.Source.Handshake
open Library.BigEndian Library.Runs

variable {C : Crypto}

namespace Impl

/-- The switch neither reads nor writes the receive buffer. -/
theorem processBody_buffer (I : Impl C) (buf : Bytes) (type : HsType) (body : Bytes) :
    ({ I with recvBuf := buf } : Impl C).processBody type body =
      ({ (I.processBody type body).1 with recvBuf := buf }, (I.processBody type body).2) := by
  cases type with
  | clientHello | serverHello =>
    simp only [processBody, processHello]
    split
    · rfl
    · split_ifs <;> rfl
  | certificate =>
    simp only [processBody, processCertificate]
    split_ifs <;> rfl
  | certVerify =>
    simp only [processBody, processCertVerify]
    split_ifs <;> rfl
  | finished =>
    have derived : ({ I with recvBuf := buf } : Impl C).ensureSecret =
        ({ I.ensureSecret.1 with recvBuf := buf }, I.ensureSecret.2) := by
      simp only [ensureSecret]
      split
      · rfl
      · split
        · rfl
        · split <;> rfl
    simp only [processBody, processFinished, derived]
    split
    · rfl
    · rcases I.ensureSecret with ⟨J, e⟩
      cases e with
      | some e => rfl
      | none =>
        have key : ({ J with recvBuf := buf } : Impl C).expectedKey = J.expectedKey := rfl
        by_cases valid :
            slFinishedVerify C J.expectedKey (slTranscriptGet C J.transcript) body = true <;>
          simp [key, valid]
  | invalid | other => rfl

end Impl

theorem receive_append (I : Impl C) (type : HsType) (body rest more : Bytes) :
    (receive (I.append more) type body (rest ++ more)).after =
      (receive I type body rest).after.append more ∧
    (receive (I.append more) type body (rest ++ more)).error = (receive I type body rest).error := by
  cases moved : (I.state.onReceived type).2 with
  | false => simp [receive, Impl.processOneMessage, Impl.append, Impl.absorb, moved]
  | true =>
    have same := Impl.processBody_buffer
      { I.absorb ((slHsPackHeader type body.length).getD []) body with
        state := (I.state.onReceived type).1 } (I.recvBuf ++ more) type body
    simp only [Impl.absorb] at same
    simp [receive, Impl.processOneMessage, Impl.append, Impl.absorb, moved, same]

/-- Every error of a processed message is a kError result. -/
theorem receive_error {I : Impl C} {type : HsType} {body rest : Bytes} {e : HsStepResult}
    (fits : body.length ≤ slHsMaxPayload) (h : (receive I type body rest).error = some e) :
    e.action = .kError := by
  cases moved : (I.state.onReceived type).2 with
  | false =>
    rw [(receive_refused I type body rest fits moved).2] at h
    cases h
    rfl
  | true =>
    rw [(receive_accepted I type body rest fits moved).2] at h
    exact Impl.processBody_error h

/-- What a processed message was and what came of it, apart from the engine around it. -/
def Processed.view (p : Processed C) : HsType × Bytes × Option HsStepResult :=
  (p.type, p.body, p.error)

/-- The messages that a loop processed, up to and including the one that failed. -/
def Drained.messages (d : Drained C) : List (HsType × Bytes × Option HsStepResult) :=
  d.log.map Processed.view

/-- The engine apart from its receive buffer. -/
def Impl.settled (I : Impl C) : Impl C := { I with recvBuf := [] }

/-- More bytes behind the buffer: a loop that reported no error goes on with them, one
that did has stopped before it sees them. -/
theorem drainAll_append_messages (I : Impl C) (more : Bytes) :
    ((drainAll I).result.action ≠ .kError →
      (drainAll (I.append more)).engine = (drainAll ((drainAll I).engine.append more)).engine ∧
      (drainAll (I.append more)).result = (drainAll ((drainAll I).engine.append more)).result ∧
      (drainAll (I.append more)).messages =
        (drainAll I).messages ++ (drainAll ((drainAll I).engine.append more)).messages) ∧
    ((drainAll I).result.action = .kError →
      (drainAll (I.append more)).engine.settled = (drainAll I).engine.settled ∧
      (drainAll (I.append more)).result = (drainAll I).result ∧
      (drainAll (I.append more)).messages = (drainAll I).messages) := by
  induction I using drainAll_induction with
  | needMore I hf =>
    rw [drainAll_needMore hf]
    refine ⟨fun _ => ⟨rfl, rfl, rfl⟩, fun error => ?_⟩
    simp only [idle] at error
    split_ifs at error
  | badHeader I hf =>
    have hf' : front (I.append more).recvBuf = .badHeader := front_append_badHeader hf more
    rw [drainAll_badHeader hf, drainAll_badHeader hf']
    exact ⟨fun ok => absurd rfl ok, fun _ => ⟨rfl, rfl, rfl⟩⟩
  | error I type body rest e hf he =>
    have hf' : front (I.append more).recvBuf = .message type body (rest ++ more) :=
      front_append_message hf more
    obtain ⟨after, error⟩ := receive_append I type body rest more
    rw [drainAll_error hf he, drainAll_error hf' (error.trans he)]
    refine ⟨fun ok => absurd (receive_error (front_message hf).1 he) ok, fun _ => ⟨?_, rfl, ?_⟩⟩
    · rw [after]
      rfl
    · simp only [Drained.messages, List.map_cons, List.map_nil, Processed.view, error]
      rfl
  | ok I type body rest hf he ih =>
    have hf' : front (I.append more).recvBuf = .message type body (rest ++ more) :=
      front_append_message hf more
    obtain ⟨after, error⟩ := receive_append I type body rest more
    have head : (receive (I.append more) type body (rest ++ more)).view =
        (receive I type body rest).view := by
      simp only [Processed.view, error]
      rfl
    rw [drainAll_ok hf he, drainAll_ok hf' (error.trans he), after]
    refine ⟨fun ok => ?_, fun failed => ?_⟩
    · obtain ⟨engine, result, messages⟩ := ih.1 ok
      exact ⟨engine, result, congrArg₂ List.cons head messages⟩
    · obtain ⟨engine, result, messages⟩ := ih.2 failed
      exact ⟨engine, result, congrArg₂ List.cons head messages⟩

theorem drainAll_append (I : Impl C) (more : Bytes) :
    ((drainAll I).result.action ≠ .kError →
      (drainAll (I.append more)).engine = (drainAll ((drainAll I).engine.append more)).engine ∧
      (drainAll (I.append more)).result = (drainAll ((drainAll I).engine.append more)).result) ∧
    ((drainAll I).result.action = .kError →
      (drainAll (I.append more)).result = (drainAll I).result) := by
  obtain ⟨goesOn, stops⟩ := drainAll_append_messages I more
  exact ⟨fun ok => ⟨(goesOn ok).1, (goesOn ok).2.1⟩, fun failed => (stops failed).2.1⟩

/-- Without an error the loop stops because it lacks bytes. -/
theorem drainAll_idle (I : Impl C) (h : (drainAll I).result.action ≠ .kError) :
    front (drainAll I).engine.recvBuf = .needMore ∧
      (drainAll I).result = idle (drainAll I).engine := by
  induction I using drainAll_induction with
  | needMore I hf =>
    rw [drainAll_needMore hf]
    exact ⟨hf, rfl⟩
  | badHeader I hf =>
    rw [drainAll_badHeader hf] at h
    exact absurd rfl h
  | error I type body rest e hf he =>
    rw [drainAll_error hf he] at h
    exact absurd (receive_error (front_message hf).1 he) h
  | ok I type body rest hf he ih =>
    rw [drainAll_ok hf he] at h ⊢
    exact ih h

/-- A loop without an error has passed the message at its front. -/
theorem drainAll_passes {I : Impl C} {type : HsType} {body rest : Bytes}
    (hf : front I.recvBuf = .message type body rest) (h : (drainAll I).result.action ≠ .kError) :
    (receive I type body rest).error = none ∧
    (drainAll I).engine = (drainAll (receive I type body rest).after).engine ∧
    (drainAll (receive I type body rest).after).result.action ≠ .kError := by
  cases he : (receive I type body rest).error with
  | some e =>
    rw [drainAll_error hf he] at h
    exact absurd (receive_error (front_message hf).1 he) h
  | none =>
    rw [drainAll_ok hf he] at h ⊢
    exact ⟨rfl, rfl, h⟩

/-- The bytes of a list of messages on the wire. -/
def wireBytes (messages : List (HsType × Bytes × Option HsStepResult)) : Bytes :=
  messages.flatMap fun m => frame m.1 m.2.1

/-- What the loop erases from its buffer is what it absorbs: the frames of the messages it
processed, the one that failed included. -/
theorem drainAll_consumes (I : Impl C) :
    I.recvBuf = wireBytes (drainAll I).messages ++ (drainAll I).engine.recvBuf ∧
    (drainAll I).engine.transcript = I.transcript ++ wireBytes (drainAll I).messages := by
  induction I using drainAll_induction with
  | needMore I hf => simp [drainAll_needMore hf, Drained.messages, wireBytes]
  | badHeader I hf => simp [drainAll_badHeader hf, Drained.messages, wireBytes]
  | error I type body rest e hf he =>
    obtain ⟨fits, buffer⟩ := front_message hf
    obtain ⟨_, _, _, transcript, _⟩ := receive_frame I type body rest fits
    rw [drainAll_error hf he]
    refine ⟨?_, ?_⟩
    · rw [buffer, receive_after_recvBuf]
      simp [Drained.messages, wireBytes, Processed.view, receive]
    · rw [transcript]
      simp [Drained.messages, wireBytes, Processed.view, receive]
  | ok I type body rest hf he ih =>
    obtain ⟨fits, buffer⟩ := front_message hf
    obtain ⟨_, _, _, transcript, _⟩ := receive_frame I type body rest fits
    obtain ⟨consumed, absorbed⟩ := ih
    have messages : wireBytes (drainAll I).messages =
        frame type body ++ wireBytes (drainAll (receive I type body rest).after).messages := by
      rw [drainAll_ok hf he]
      simp [Drained.messages, wireBytes, Processed.view, receive]
    rw [receive_after_recvBuf] at consumed
    rw [messages, drainAll_ok hf he, absorbed, transcript, buffer]
    refine ⟨?_, List.append_assoc _ _ _⟩
    rw [List.append_assoc, ← consumed]

/-- The results of a run of `on_bytes` calls. -/
def chunkResults (I : Impl C) (chunks : List Bytes) : List HsStepResult :=
  (outputs call I (chunks.map .onBytes)).map Prod.fst

/-- A call without bytes while the engine waits for more. -/
theorem onBytes_nil {I : Impl C} (waiting : front I.recvBuf = .needMore) :
    onBytes I [] = { engine := I, result := idle I } := by
  rw [onBytes_eq, show I.append [] = I by simp [Impl.append], drainAll_needMore waiting]

theorem append_append (I : Impl C) (a b : Bytes) : I.append (a ++ b) = (I.append a).append b := by
  simp [Impl.append]

/-- However the bytes are cut: an error that one call with all of them reports is
reported by one of the pieces. -/
theorem chunkResults_error (chunks : List Bytes) (I : Impl C) (waiting : front I.recvBuf = .needMore)
    (h : (onBytes I chunks.flatten).result.action = .kError) :
    (onBytes I chunks.flatten).result ∈ chunkResults I chunks := by
  induction chunks generalizing I with
  | nil =>
    simp only [List.flatten_nil, onBytes_nil waiting, idle] at h
    split_ifs at h
  | cons chunk rest ih =>
    obtain ⟨goesOn, stops⟩ := drainAll_append (I.append chunk) rest.flatten
    simp only [List.flatten_cons, onBytes_eq, append_append] at h ⊢
    by_cases ok : (drainAll (I.append chunk)).result.action = .kError
    · rw [stops ok]
      exact List.mem_cons_self
    · rw [(goesOn ok).2] at h ⊢
      exact List.mem_cons_of_mem _ (ih _ (drainAll_idle _ ok).1 h)

end SecureLink.Source.Handshake
