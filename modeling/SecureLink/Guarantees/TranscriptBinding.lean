import SecureLink.Guarantees.ExporterSeparation
import SecureLink.Library.Log
import SecureLink.Source.Handshake.EngineSteps

/-!
# The transcript determines the messages

Every message enters the transcript behind a header that carries its length, so the frames in
front of any byte string can be told apart, whatever their bodies are. Only as many engines
share a transcript as exchanged the same messages.
-/
namespace SecureLink.Guarantees.TranscriptBinding
open Library.BigEndian Library.Log Library.Runs Source.Handshake
open ExporterSeparation (echoCrypto echo_ideal)

/-- A message whose length fits the header. -/
structure HsMessage where
  type : HsType
  body : Bytes
  fits : body.length ≤ 0xFFFFFF
  deriving DecidableEq

/-- The bytes that `emit_message` and `process_one_message` hand to the transcript. -/
def absorbed (m : HsMessage) : Bytes :=
  (slHsPackHeader m.type m.body.length).getD [] ++ m.body

/-- One message, sent or received. -/
inductive Exchange
  | emitted (m : HsMessage)
  | processed (m : HsMessage)

def Exchange.message : Exchange → HsMessage
  | .emitted m => m
  | .processed m => m

variable {C : Crypto}

/-- The engine after one message, with the result of `emit_message` or the error of
`process_one_message`. -/
def step (I : Impl C) : Exchange → Impl C × Option HsStepResult
  | .emitted m => ((I.emitMessage m.type m.body).1, some (I.emitMessage m.type m.body).2)
  | .processed m => I.processOneMessage m.type m.body

structure BindsMessages (C : Crypto) (hashed : Set Bytes) : Prop where
  decodable : ∀ first second, log absorbed first = log absorbed second → first = second
  absorbs : ∀ (I : Impl C) exchanges, (run step I exchanges).transcript =
    I.transcript ++ log absorbed (exchanges.map Exchange.message)
  reached : ∀ cfg (ecdh : Option C.Keypair) calls,
    ∃! messages, (run call (Impl.new cfg ecdh) calls).transcript = log absorbed messages
  hashes : ∀ first second, log absorbed first ∈ hashed → log absorbed second ∈ hashed →
    slTranscriptGet C (log absorbed first) = slTranscriptGet C (log absorbed second) →
    first = second

/-! ## Messages in front -/

theorem absorbed_eq (m : HsMessage) : absorbed m = frame m.type m.body := by
  rw [absorbed, slHsPackHeader_eq m.type m.body.length m.fits, Option.getD_some, frame]

theorem absorbed_ne_nil (m : HsMessage) : absorbed m ≠ [] := by
  rw [absorbed_eq]
  exact List.cons_ne_nil _ _

/-- No body can take the place of the length in the header. -/
theorem absorbed_front (m m' : HsMessage) (rest rest' : Bytes)
    (same : absorbed m ++ rest = absorbed m' ++ rest') : m = m' := by
  obtain ⟨type, body, fits⟩ := m
  obtain ⟨type', body', fits'⟩ := m'
  simp only [absorbed_eq, frame, List.append_assoc] at same
  obtain ⟨headers, bodies⟩ := List.append_inj same (by simp)
  obtain ⟨octet, lengths⟩ := List.cons.inj headers
  have sameType : type = type' := by
    rw [← HsType.ofByte_toByte type, octet, HsType.ofByte_toByte]
  have sameLength : body.length = body'.length :=
    encode_injective (Nat.lt_of_le_of_lt fits (by decide)) (Nat.lt_of_le_of_lt fits' (by decide))
      lengths
  obtain rfl := (List.append_inj bodies sameLength).1
  obtain rfl := sameType
  rfl

theorem decode_messages {first second : List HsMessage}
    (same : log absorbed first = log absorbed second) : first = second :=
  log_injective absorbed_ne_nil absorbed_front same

/-! ## The engine -/

theorem emitMessage_transcript (I : Impl C) (m : HsMessage) :
    (I.emitMessage m.type m.body).1.transcript = I.transcript ++ absorbed m := by
  simp only [Impl.emitMessage, slHsPackHeader_eq m.type m.body.length m.fits, absorbed_eq, frame]
  split_ifs <;> simp only [Impl.absorb, slTranscriptUpdate, List.append_assoc]

theorem processOneMessage_transcript (I : Impl C) (m : HsMessage) :
    (I.processOneMessage m.type m.body).1.transcript = I.transcript ++ absorbed m := by
  simp only [Impl.processOneMessage]
  split_ifs
  · simp only [Impl.absorb, slTranscriptUpdate, List.append_assoc, absorbed]
  · rw [(Impl.processBody_spec _ _ _).1.transcript]
    simp only [Impl.absorb, slTranscriptUpdate, List.append_assoc, absorbed]

theorem run_transcript (I : Impl C) (exchanges : List Exchange) :
    (run step I exchanges).transcript =
      I.transcript ++ log absorbed (exchanges.map Exchange.message) := by
  induction exchanges generalizing I with
  | nil => simp
  | cons exchange rest ih =>
    have first : (step I exchange).1.transcript = I.transcript ++ absorbed exchange.message := by
      cases exchange with
      | emitted m => exact emitMessage_transcript I m
      | processed m => exact processOneMessage_transcript I m
    rw [run_cons, ih, first, List.map_cons, log_cons, List.append_assoc]

/-- The transcript consists of messages. -/
def OfMessages (I : Impl C) : Prop := ∃ messages, I.transcript = log absorbed messages

theorem OfMessages.snoc {I J : Impl C} (start : OfMessages I) {m : HsMessage}
    (next : J.transcript = I.transcript ++ absorbed m) : OfMessages J := by
  obtain ⟨messages, transcript⟩ := start
  refine ⟨messages ++ [m], ?_⟩
  rw [next, transcript, log_append, log_cons, log_nil, List.append_nil]

/-- `start` adds its hello, or nothing. -/
theorem ofMessages_start {I : Impl C} (before : OfMessages I)
    (rng : Option (FixedBytes slHsRandomLen)) : OfMessages (I.start rng).1 := by
  have emits : ∀ (J : Impl C) (type : HsType) (body : Bytes), J.transcript = I.transcript →
      OfMessages (J.emitMessage type body).1 := by
    intro J type body same
    have start : OfMessages J := by rwa [OfMessages, same]
    by_cases fits : body.length ≤ 0xFFFFFF
    · exact start.snoc (emitMessage_transcript J ⟨type, body, fits⟩)
    · rw [Impl.emitMessage, slHsPackHeader, if_pos (Nat.lt_of_not_le fits)]
      exact start
  simp only [Impl.start]
  split
  · exact before
  · split_ifs
    · exact before
    · exact before
    · split
      · exact before
      · split
        · exact before
        · split
          · exact before
          · exact emits _ _ _ rfl

theorem ofMessages_run (cfg : HandshakeConfig) (ecdh : Option C.Keypair) (calls : List Call) :
    OfMessages (run call (Impl.new cfg ecdh) calls) := by
  refine run_log_invariant (fun I _ => OfMessages I) (fun _ => True) ?_ ?_ ?_ calls _ []
    ⟨[], rfl⟩ (fun _ _ => trivial)
  · intro I _ rng before
    exact ofMessages_start before rng
  · intro I _ data before
    exact before
  · intro I _ type body rest found before _
    have fits := (front_message found).1
    exact before.snoc (processOneMessage_transcript I
      ⟨type, body, Nat.le_trans fits (by decide)⟩)

/-- A transcript determines its messages, and so does its hash where SHA-256 does not collide. -/
theorem transcript_binds_messages {hashed : Set Bytes} (collisionFree : Set.InjOn C.sha256 hashed) :
    BindsMessages C hashed where
  decodable _ _ same := decode_messages same
  absorbs := run_transcript
  reached cfg ecdh calls := by
    obtain ⟨messages, transcript⟩ := ofMessages_run cfg ecdh calls
    refine ⟨messages, transcript, ?_⟩
    intro other same
    exact decode_messages (same.symm.trans transcript)
  hashes first second member member' same :=
    decode_messages (collisionFree member member' (Subtype.ext same))

theorem hello_types_told_apart :
    slTranscriptGet echoCrypto (log absorbed [⟨.clientHello, [7], by decide⟩]) ≠
      slTranscriptGet echoCrypto (log absorbed [⟨.serverHello, [7], by decide⟩]) := by
  intro same
  have binds : BindsMessages echoCrypto { data | data.length = 5 } :=
    transcript_binds_messages (echo_ideal (by decide)).hash
  have messages := binds.hashes _ _ (by rfl) (by rfl) same
  simp at messages

end SecureLink.Guarantees.TranscriptBinding
