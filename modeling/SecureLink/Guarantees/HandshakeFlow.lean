import Mathlib.Tactic.IntervalCases
import SecureLink.Source.Handshake.State

/-!
# kDone and the documented message flow

The header inc/handshake_state.hpp:9-22 documents one flow for each role. The
state variable alone does not enforce it: several events loop on one state, and a
client may finish before the server's Finished arrived. The message counters do
carry the missing information, so the exact condition is stated on them, in the
state before each event.
-/
namespace SecureLink.Guarantees.HandshakeFlow
open Library.Runs Source.Handshake

/-- The documented flow, from start to kDone. -/
def flow : HsRole → List Event
  | .kClient => [.start, .sent .clientHello, .received .serverHello, .received .certificate,
      .received .certVerify, .received .finished, .sent .finished]
  | .kServer => [.start, .received .clientHello, .sent .serverHello, .sent .certificate,
      .sent .certVerify, .sent .finished, .received .finished]

/-- The event is made when the counters show that exactly the messages before it
in the flow have passed. Rows the machine checks by its state need no counter. -/
def inSequence (s : HandshakeState) : Event → Bool
  | .sent .clientHello => s.sent == 0
  | .sent .serverHello => s.recv == 1 && s.sent == 0
  | .sent .certificate => s.sent == 1
  | .sent .certVerify => s.sent == 2
  | .sent .finished => if s.role = .kClient then s.recv == 4 else s.sent == 3
  | .received .clientHello => s.recv == 0
  | .received .serverHello => s.sent == 1
  | .received .finished => if s.role = .kClient then s.recv == 3 else s.sent == 4
  | _ => true

/-- The machine after the first `n` events of its flow. -/
def along (role : HsRole) (n : Nat) : HandshakeState :=
  run handle (fresh role) ((flow role).take n)

theorem along_succ (role : HsRole) (n : Nat) (e : Event)
    (h : (flow role).take (n + 1) = (flow role).take n ++ [e]) :
    (handle (along role n) e).1 = along role (n + 1) := by
  rw [along, along, h, run_append]
  rfl

/-- kDone is reached at the end of the flow and nowhere before it. -/
theorem along_done {role : HsRole} {n : Nat} (hn : n ≤ 7)
    (h : (along role n).state = .kDone) : n = 7 := by
  cases role <;> interval_cases n <;> first | rfl | (revert h; decide)

/-- From a state on the flow, the only accepted event in sequence is the next one. -/
theorem next_on_flow (role : HsRole) (n : Nat) (hn : n ≤ 7) (e : Event)
    (ok : (handle (along role n) e).2 = true) (seq : inSequence (along role n) e = true) :
    n < 7 ∧ (flow role).take (n + 1) = (flow role).take n ++ [e] := by
  -- An accepted event follows a row of the table, which fixes its type; the rest is finite.
  cases e with
  | start =>
    rcases start_cases (along role n) with ⟨refused, _⟩ | ⟨_, init, _⟩
    · exact absurd ok (by simp [handle, refused])
    · clear ok
      revert init seq
      cases role <;> interval_cases n <;> decide
  | sent type =>
    rcases onSent_cases (along role n) type with ⟨refused, _⟩ | ⟨_, next, _, rows⟩
    · exact absurd ok (by simp [handle, refused])
    · clear ok
      rcases rows with ⟨side, rfl, state, _⟩ | ⟨side, rfl, state, _⟩ |
          ⟨side, rfl | rfl | rfl, state, _⟩ | ⟨side, rfl, state, _⟩ <;>
        revert side state seq <;> cases role <;> interval_cases n <;> decide
  | received type =>
    rcases onReceived_cases (along role n) type with ⟨refused, _⟩ | ⟨_, next, _, rows⟩
    · exact absurd ok (by simp [handle, refused])
    · clear ok
      rcases rows with ⟨side, rfl, state, _⟩ | ⟨side, rfl, state, _⟩ | ⟨side, rfl, state, _⟩ |
          ⟨side, rfl, state, _⟩ | ⟨side, rfl, state, _⟩ | ⟨side, rfl, state, _⟩ <;>
        revert side state seq <;> cases role <;> interval_cases n <;> decide

/-- A run in sequence that has not failed has followed the flow for some number of
events, and accepted exactly those. -/
theorem run_follows (role : HsRole) (es : List Event) (n : Nat) (hn : n ≤ 7)
    (steps : AllSteps handle (fun s e => inSequence s e = true) (along role n) es) :
    (run handle (along role n) es).state = .kFailed ∨
    ∃ m ≤ 7, run handle (along role n) es = along role m ∧
      (flow role).take n ++ accepted handle (along role n) es = (flow role).take m := by
  induction es generalizing n with
  | nil => exact Or.inr ⟨n, hn, rfl, by simp [accepted]⟩
  | cons e rest ih =>
    obtain ⟨seq, later⟩ := steps
    rw [run_cons]
    by_cases ok : (handle (along role n) e).2 = true
    · obtain ⟨below, next⟩ := next_on_flow role n hn e ok seq
      rw [along_succ role n e next] at later ⊢
      rcases ih (n + 1) below later with failed | ⟨m, hm, reached, taken⟩
      · exact Or.inl failed
      · refine Or.inr ⟨m, hm, reached, ?_⟩
        rw [next, List.append_assoc] at taken
        simpa only [accepted, ok, if_true, along_succ role n e next, List.singleton_append] using taken
    · have refused : (handle (along role n) e).2 = false := by simpa using ok
      exact Or.inl (run_failed (handle_refused refused) rest)

/-- A run that has not failed refused nothing. -/
theorem accepted_eq_of_alive (s : HandshakeState) (es : List Event)
    (alive : (run handle s es).state ≠ .kFailed) : accepted handle s es = es := by
  induction es generalizing s with
  | nil => rfl
  | cons e rest ih =>
    have ok : (handle s e).2 = true := by
      by_contra refused
      exact alive (run_failed (handle_refused (by simpa using refused)) rest)
    rw [accepted, if_pos ok, ih _ alive]

/-- A run that ends in kDone accepted exactly the documented flow if and only if
each of its events was made in sequence. -/
theorem done_along_flow_iff (role : HsRole) (es : List Event)
    (done : (run handle (fresh role) es).state = .kDone) :
    accepted handle (fresh role) es = flow role ↔
      AllSteps handle (fun s e => inSequence s e = true) (fresh role) es := by
  have alive : (run handle (fresh role) es).state ≠ .kFailed := by
    rw [done]
    decide
  constructor
  · intro exact_flow
    rw [accepted_eq_of_alive _ _ alive] at exact_flow
    subst exact_flow
    cases role <;> decide
  · intro steps
    rcases run_follows role es 0 (by decide) steps with failed | ⟨m, hm, reached, taken⟩
    · exact absurd failed alive
    · change run handle (fresh role) es = along role m at reached
      have last := along_done hm (reached ▸ done)
      subst last
      change [] ++ accepted handle (fresh role) es = (flow role).take 7 at taken
      rw [List.nil_append] at taken
      rw [taken]
      cases role <;> rfl

/-- Both test flows of src/test_handshake_state.cpp meet the condition. -/
theorem done_along_flow_tests :
    accepted handle (fresh .kClient) (flow .kClient) = flow .kClient ∧
    accepted handle (fresh .kServer) (flow .kServer) = flow .kServer :=
  ⟨(done_along_flow_iff .kClient (flow .kClient) (by decide)).mpr (by decide),
    (done_along_flow_iff .kServer (flow .kServer) (by decide)).mpr (by decide)⟩

/-- A client reaches kDone without having sent its ClientHello and without the
server's Finished. -/
theorem done_off_flow :
    ¬ ∀ (role : HsRole) (es : List Event), (run handle (fresh role) es).state = .kDone →
      accepted handle (fresh role) es = flow role := by
  intro always
  have early := always .kClient [.start, .received .serverHello, .received .certificate,
    .received .certVerify, .sent .finished] (by decide)
  revert early
  decide

end SecureLink.Guarantees.HandshakeFlow
