import SecureLink.Source.Handshake.Chunks

/-!
# The handshake does not depend on how its bytes arrive

A byte string cut into `on_bytes` calls in any way is processed, up to and including the
first error, as one call with all of it would process it.
-/
namespace SecureLink.Guarantees.HandshakeFragments
open Library.BigEndian Source.Handshake

variable {C : Crypto}

/-- Successive `on_bytes` calls, up to and including the first that reports an error. -/
def feed (I : Impl C) : List Bytes → Drained C
  | [] => { engine := I, result := idle I }
  | chunk :: rest =>
    let done := onBytes I chunk
    if done.result.action = .kError then done
    else
      let later := feed done.engine rest
      { later with log := done.log ++ later.log }

/-- The same messages processed with the same result, by engines that then differ in no
more than their receive buffers: order machine, transcript, peer keys and secret agree. -/
structure SameOutcome (d e : Drained C) : Prop where
  messages : d.messages = e.messages
  result : d.result = e.result
  engine : d.engine.settled = e.engine.settled

theorem SameOutcome.symm {d e : Drained C} (h : SameOutcome d e) : SameOutcome e d :=
  ⟨h.messages.symm, h.result.symm, h.engine.symm⟩

theorem SameOutcome.trans {d e f : Drained C} (first : SameOutcome d e) (second : SameOutcome e f) :
    SameOutcome d f :=
  ⟨first.messages.trans second.messages, first.result.trans second.result,
    first.engine.trans second.engine⟩

/-- Pieces against one call. The engine waits for more bytes at the start of every piece,
which is what an earlier piece without an error leaves behind. -/
theorem feed_onBytes (chunks : List Bytes) (I : Impl C) (waiting : front I.recvBuf = .needMore) :
    SameOutcome (feed I chunks) (onBytes I chunks.flatten) ∧
    ((feed I chunks).result.action ≠ .kError →
      (feed I chunks).engine = (onBytes I chunks.flatten).engine) := by
  induction chunks generalizing I with
  | nil =>
    rw [List.flatten_nil, onBytes_nil waiting]
    exact ⟨⟨rfl, rfl, rfl⟩, fun _ => rfl⟩
  | cons chunk rest ih =>
    obtain ⟨goesOn, stops⟩ := drainAll_append_messages (I.append chunk) rest.flatten
    rw [List.flatten_cons, onBytes_eq, append_append]
    by_cases failed : (onBytes I chunk).result.action = .kError
    · obtain ⟨engine, result, messages⟩ := stops failed
      have stopped : feed I (chunk :: rest) = onBytes I chunk := by simp [feed, failed]
      rw [stopped]
      exact ⟨⟨messages.symm, result.symm, engine.symm⟩, fun ok => absurd failed ok⟩
    · obtain ⟨engine, result, messages⟩ := goesOn failed
      have next := (drainAll_idle _ failed).1
      obtain ⟨⟨laterMessages, laterResult, laterEngine⟩, laterSame⟩ :=
        ih (onBytes I chunk).engine next
      have passed : feed I (chunk :: rest) = { feed (onBytes I chunk).engine rest with
          log := (onBytes I chunk).log ++ (feed (onBytes I chunk).engine rest).log } := by
        simp [feed, failed]
      have joined : (feed I (chunk :: rest)).messages =
          (onBytes I chunk).messages ++ (feed (onBytes I chunk).engine rest).messages := by
        rw [passed, Drained.messages, List.map_append]
        rfl
      refine ⟨⟨?_, ?_, ?_⟩, ?_⟩
      · rw [joined, messages, laterMessages]
        rfl
      · rw [passed, result]
        exact laterResult
      · rw [passed, engine]
        exact laterEngine
      · rw [passed, engine]
        exact laterSame

/-- A fresh engine has absorbed exactly what its start sent, and buffers nothing. -/
theorem start_absorbs (cfg : HandshakeConfig) (ecdh : Option C.Keypair)
    (rng : Option (FixedBytes slHsRandomLen)) :
    ((Impl.new cfg ecdh : Impl C).start rng).1.recvBuf = [] ∧
    ((Impl.new cfg ecdh : Impl C).start rng).1.transcript =
      ((Impl.new cfg ecdh : Impl C).start rng).2.outBytes := by
  rcases start_spec (Impl.new cfg ecdh : Impl C) rng rfl with ⟨_, h⟩ | ⟨_, _, h⟩ |
    ⟨_, _, _, h⟩ | ⟨_, _, ⟨_, h⟩ | ⟨_, _, h⟩⟩ | ⟨random, pub, _, _, _, _, h⟩
  all_goals
    rw [h]
    exact ⟨rfl, rfl⟩

/-- Two ways to cut one byte string, on two engines set up and started alike: the same
messages, the same error and the same engine up to its receive buffer. Without an error
the buffers agree too, and hold what is left of the bytes behind the messages absorbed. -/
theorem handshake_cut_independent (cfg : HandshakeConfig) (ecdh : Option C.Keypair)
    (rng : Option (FixedBytes slHsRandomLen)) (chunks chunks' : List Bytes)
    (same : chunks.flatten = chunks'.flatten) :
    let started := (Impl.new cfg ecdh : Impl C).start rng
    let d := feed started.1 chunks
    let d' := feed started.1 chunks'
    SameOutcome d d' ∧
    (d.result.action ≠ .kError →
      d.engine.recvBuf = d'.engine.recvBuf ∧
      chunks.flatten = wireBytes d.messages ++ d.engine.recvBuf ∧
      d.engine.transcript = started.2.outBytes ++ wireBytes d.messages) := by
  intro started d d'
  obtain ⟨empty, sent⟩ := start_absorbs (C := C) cfg ecdh rng
  have waiting : front started.1.recvBuf = .needMore := by
    rw [empty]
    decide
  obtain ⟨first, whole⟩ := feed_onBytes chunks started.1 waiting
  obtain ⟨second, whole'⟩ := feed_onBytes chunks' started.1 waiting
  rw [← same] at second whole'
  refine ⟨first.trans second.symm, fun ok => ?_⟩
  have ok' : d'.result.action ≠ .kError := by
    rw [second.result, ← first.result]
    exact ok
  obtain ⟨consumed, absorbed⟩ := drainAll_consumes (started.1.append chunks.flatten)
  rw [← onBytes_eq, ← first.messages, ← whole ok] at consumed absorbed
  have buffer : (started.1.append chunks.flatten).recvBuf = chunks.flatten := by
    rw [Impl.append, empty, List.nil_append]
  refine ⟨by rw [whole ok, whole' ok'], buffer.symm.trans consumed, ?_⟩
  rw [absorbed, ← sent]
  rfl

/-- A ServerHello in one piece, and cut inside its header. -/
theorem serverHello_cut :
    let hello := frame .serverHello toyServerHello
    (feed toyClient [hello]).messages = [(.serverHello, toyServerHello, none)] ∧
    SameOutcome (feed toyClient [hello]) (feed toyClient [hello.take 2, hello.drop 2]) := by
  intro hello
  have joined : [hello].flatten = [hello.take 2, hello.drop 2].flatten := by
    simp only [List.flatten_cons, List.flatten_nil, List.append_nil, List.take_append_drop]
  have cut := handshake_cut_independent (C := toyCrypto) toyConfig (some ())
    (some ⟨List.replicate 32 0, by decide⟩) [hello] [hello.take 2, hello.drop 2] joined
  exact ⟨by decide +kernel, cut.1⟩

end SecureLink.Guarantees.HandshakeFragments
