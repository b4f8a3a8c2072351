import SecureLink.Library.Runs
import SecureLink.Source.Handshake.Msg

/-!
# Handshake message-order state machine

inc/handshake_state.hpp:48-68 and src/handshake_state.cpp:5-119. The two 32-bit message
counters are kept with the state; `state_name` is a display table and is left out.
-/
namespace SecureLink.Source.Handshake
open Library.Runs

inductive HsState where
  | kInit | kWaitClientHello | kWaitServerHello | kWaitCertificate | kWaitCertVerify
  | kWaitServerFinished | kWaitClientFinished | kDone | kFailed
  deriving DecidableEq, Repr

inductive HsRole where
  | kClient | kServer
  deriving DecidableEq, Repr

structure HandshakeState where
  role : HsRole
  state : HsState := .kInit
  sent : UInt32 := 0
  recv : UInt32 := 0
  failureReason : String := ""
  deriving DecidableEq, Repr

namespace HandshakeState

def isTerminal (s : HandshakeState) : Bool :=
  s.state == .kDone || s.state == .kFailed

def fail (s : HandshakeState) (reason : String) : HandshakeState :=
  { s with state := .kFailed, failureReason := reason }

def start (s : HandshakeState) : HandshakeState × Bool :=
  if s.state ≠ .kInit then (s.fail "start_in_non_init", false)
  else
    match s.role with
    | .kClient => ({ s with state := .kWaitServerHello }, true)
    | .kServer => ({ s with state := .kWaitClientHello }, true)

def onSent (s : HandshakeState) (type : HsType) : HandshakeState × Bool :=
  if s.isTerminal then (s.fail "send_after_terminal", false)
  else
    let s := { s with sent := s.sent + 1 }
    match s.role, type with
    | .kClient, .clientHello =>
      if s.state ≠ .kWaitServerHello then (s.fail "unexpected_client_send", false)
      else (s, true)
    | .kClient, .finished =>
      if s.state ≠ .kWaitServerFinished ∧ s.state ≠ .kDone then
        (s.fail "unexpected_client_send", false)
      else ({ s with state := .kDone }, true)
    | .kClient, _ => (s.fail "unexpected_client_send", false)
    | .kServer, .serverHello | .kServer, .certificate | .kServer, .certVerify =>
      if s.state ≠ .kWaitClientFinished ∧ s.state ≠ .kWaitClientHello then
        (s.fail "unexpected_server_send", false)
      else ({ s with state := .kWaitClientFinished }, true)
    | .kServer, .finished =>
      if s.state ≠ .kWaitClientFinished then (s.fail "unexpected_server_send", false)
      else (s, true)
    | .kServer, _ => (s.fail "unexpected_server_send", false)

def onReceived (s : HandshakeState) (type : HsType) : HandshakeState × Bool :=
  if s.isTerminal then (s.fail "recv_after_terminal", false)
  else
    let s := { s with recv := s.recv + 1 }
    match s.role, type with
    | .kClient, .serverHello =>
      if s.state ≠ .kWaitServerHello then (s.fail "unexpected_client_recv", false)
      else ({ s with state := .kWaitCertificate }, true)
    | .kClient, .certificate =>
      if s.state ≠ .kWaitCertificate then (s.fail "unexpected_client_recv", false)
      else ({ s with state := .kWaitCertVerify }, true)
    | .kClient, .certVerify =>
      if s.state ≠ .kWaitCertVerify then (s.fail "unexpected_client_recv", false)
      else ({ s with state := .kWaitServerFinished }, true)
    | .kClient, .finished =>
      if s.state ≠ .kWaitServerFinished then (s.fail "unexpected_client_recv", false)
      else (s, true)
    | .kClient, _ => (s.fail "unexpected_client_recv", false)
    | .kServer, .clientHello =>
      if s.state ≠ .kWaitClientHello then (s.fail "unexpected_server_recv", false)
      else (s, true)
    | .kServer, .finished =>
      if s.state ≠ .kWaitClientFinished then (s.fail "unexpected_server_recv", false)
      else ({ s with state := .kDone }, true)
    | .kServer, _ => (s.fail "unexpected_server_recv", false)

end HandshakeState

/-- The three calls that drive the machine. -/
inductive Event where
  | start
  | sent (type : HsType)
  | received (type : HsType)
  deriving DecidableEq, Repr

def handle (s : HandshakeState) : Event → HandshakeState × Bool
  | .start => s.start
  | .sent type => s.onSent type
  | .received type => s.onReceived type

def fresh (role : HsRole) : HandshakeState := { role }

/-- A refused start leaves the machine failed; an accepted one only leaves kInit. -/
theorem start_cases (s : HandshakeState) :
    (s.start.2 = false ∧ s.start.1.state = .kFailed) ∨
    (s.start.2 = true ∧ s.state = .kInit ∧
      s.start.1 = { s with state := match s.role with
        | .kClient => .kWaitServerHello
        | .kServer => .kWaitClientHello }) := by
  unfold HandshakeState.start
  split
  · exact Or.inl ⟨rfl, rfl⟩
  next h =>
    refine Or.inr ?_
    cases hr : s.role <;> simp_all

/-- What a received message can do: be refused, which fails the machine, or follow
one of the six rows of the transition table. -/
theorem onReceived_cases (s : HandshakeState) (type : HsType) :
    ((s.onReceived type).2 = false ∧ (s.onReceived type).1.state = .kFailed) ∨
    ((s.onReceived type).2 = true ∧ ∃ next,
      (s.onReceived type).1 = { s with recv := s.recv + 1, state := next } ∧
      ((s.role = .kClient ∧ type = .serverHello ∧ s.state = .kWaitServerHello ∧
          next = .kWaitCertificate) ∨
       (s.role = .kClient ∧ type = .certificate ∧ s.state = .kWaitCertificate ∧
          next = .kWaitCertVerify) ∨
       (s.role = .kClient ∧ type = .certVerify ∧ s.state = .kWaitCertVerify ∧
          next = .kWaitServerFinished) ∨
       (s.role = .kClient ∧ type = .finished ∧ s.state = .kWaitServerFinished ∧
          next = .kWaitServerFinished) ∨
       (s.role = .kServer ∧ type = .clientHello ∧ s.state = .kWaitClientHello ∧
          next = .kWaitClientHello) ∨
       (s.role = .kServer ∧ type = .finished ∧ s.state = .kWaitClientFinished ∧
          next = .kDone))) := by
  obtain ⟨role, state, sent, recv, reason⟩ := s
  unfold HandshakeState.onReceived
  split
  · exact Or.inl ⟨rfl, rfl⟩
  · cases role <;> cases type <;> cases state <;>
      simp_all [HandshakeState.isTerminal, HandshakeState.fail]

/-- What a sent message can do, likewise. -/
theorem onSent_cases (s : HandshakeState) (type : HsType) :
    ((s.onSent type).2 = false ∧ (s.onSent type).1.state = .kFailed) ∨
    ((s.onSent type).2 = true ∧ ∃ next,
      (s.onSent type).1 = { s with sent := s.sent + 1, state := next } ∧
      ((s.role = .kClient ∧ type = .clientHello ∧ s.state = .kWaitServerHello ∧
          next = .kWaitServerHello) ∨
       (s.role = .kClient ∧ type = .finished ∧ s.state = .kWaitServerFinished ∧
          next = .kDone) ∨
       (s.role = .kServer ∧ (type = .serverHello ∨ type = .certificate ∨ type = .certVerify) ∧
          (s.state = .kWaitClientFinished ∨ s.state = .kWaitClientHello) ∧
          next = .kWaitClientFinished) ∨
       (s.role = .kServer ∧ type = .finished ∧ s.state = .kWaitClientFinished ∧
          next = .kWaitClientFinished))) := by
  obtain ⟨role, state, sent, recv, reason⟩ := s
  unfold HandshakeState.onSent
  split
  · exact Or.inl ⟨rfl, rfl⟩
  · cases role <;> cases type <;> cases state <;>
      simp_all [HandshakeState.isTerminal, HandshakeState.fail]

@[simp] theorem start_role (s : HandshakeState) : s.start.1.role = s.role := by
  unfold HandshakeState.start
  split
  · rfl
  · cases s.role <;> rfl

@[simp] theorem onSent_role (s : HandshakeState) (type : HsType) :
    (s.onSent type).1.role = s.role := by
  unfold HandshakeState.onSent
  split
  · rfl
  · dsimp only
    split <;> (try split) <;> rfl

@[simp] theorem onReceived_role (s : HandshakeState) (type : HsType) :
    (s.onReceived type).1.role = s.role := by
  unfold HandshakeState.onReceived
  split
  · rfl
  · dsimp only
    split <;> (try split) <;> rfl

theorem of_refused {answer : Bool} {refusal acceptance : Prop} (h : answer = false)
    (outcome : (answer = false ∧ refusal) ∨ (answer = true ∧ acceptance)) : refusal := by
  rcases outcome with ⟨_, refused⟩ | ⟨accepted, _⟩
  · exact refused
  · rw [h] at accepted
    cases accepted

/-- A refused event, of any kind, fails the machine. -/
theorem handle_refused {s : HandshakeState} {e : Event} (h : (handle s e).2 = false) :
    (handle s e).1.state = .kFailed := by
  cases e with
  | start => exact of_refused h (start_cases s)
  | sent type => exact of_refused h (onSent_cases s type)
  | received type => exact of_refused h (onReceived_cases s type)

/-- No event leads out of kFailed. -/
theorem handle_failed {s : HandshakeState} (h : s.state = .kFailed) (e : Event) :
    (handle s e).2 = false ∧ (handle s e).1.state = .kFailed := by
  cases e <;>
    simp [handle, HandshakeState.start, HandshakeState.onSent, HandshakeState.onReceived,
      HandshakeState.isTerminal, HandshakeState.fail, h]

theorem run_failed {s : HandshakeState} (h : s.state = .kFailed) (es : List Event) :
    (run handle s es).state = .kFailed :=
  run_invariant (fun s : HandshakeState => s.state = .kFailed)
    (fun _ e hs => (handle_failed hs e).2) es h

end SecureLink.Source.Handshake
