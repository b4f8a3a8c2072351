import Mathlib.Data.List.Induction
import SecureLink.Source.Sessions.ConnectionState

/-!
# Life of a connection

Which events a connection has seen tells its state, and which it accepts next. Application
records are sent only behind a completed handshake and in front of a close, and received only
behind a completed handshake; a refused event closes the connection for good.
-/
namespace SecureLink.Guarantees.ConnectionLifecycle
open Library.BigEndian Library.Runs Source.Sessions

/-- An event and what the clock reads. -/
abbrev Seen := ConnEvent × Nat

def step (c : ConnectionState) (seen : Seen) : ConnectionState × Bool := c.onEvent seen.1 seen.2

def isApp (e : ConnEvent) : Bool := e = .recvAppRecord || e = .sendAppRecord

def ends (e : ConnEvent) : Bool := e = .peerClosed || e = .ioError || e = .timeout

/-- The events that lead to each state; everything else closes the connection. -/
inductive LeadsTo : ConnState → List ConnEvent → Prop
  | fresh : LeadsTo .fresh []
  | handshaking : LeadsTo .handshaking [.startHandshake]
  | authenticated {apps : List ConnEvent} (records : ∀ e ∈ apps, isApp e = true) :
    LeadsTo .authenticated (.startHandshake :: .handshakeDone :: apps)
  | closing {apps drained : List ConnEvent} (records : ∀ e ∈ apps, isApp e = true)
    (inbound : ∀ e ∈ drained, e = .recvAppRecord) :
    LeadsTo .closing (.startHandshake :: .handshakeDone :: apps ++ .beginClose :: drained)

/-- The events that are accepted in a state. -/
def accepts (s : ConnState) (e : ConnEvent) : Bool :=
  ends e ||
    match s with
    | .fresh => e = .startHandshake
    | .handshaking => e = .handshakeDone || e = .handshakeFailed
    | .authenticated => isApp e || e = .beginClose
    | .closing => e = .recvAppRecord
    | .closed => false

/-- The state behind an event. -/
def next (s : ConnState) (e : ConnEvent) : ConnState :=
  match s, e with
  | .fresh, .startHandshake => .handshaking
  | .handshaking, .handshakeDone => .authenticated
  | .authenticated, .recvAppRecord => .authenticated
  | .authenticated, .sendAppRecord => .authenticated
  | .authenticated, .beginClose => .closing
  | .closing, .recvAppRecord => .closing
  | _, _ => .closed

/-- One event: the next state, the answer, the counters and the reason. -/
structure Spec (c : ConnectionState) (e : ConnEvent) (r : ConnectionState × Bool) : Prop where
  state : r.1.state = next c.state e
  answer : r.2 = accepts c.state e
  events : r.1.events = c.events + 1
  invalids : r.1.invalids = if r.2 then c.invalids else c.invalids + 1
  reason : r.1.closeReason =
    if r.2 ∨ c.closeReason ≠ [] then c.closeReason else ascii "invalid_transition"

theorem onEvent_spec (c : ConnectionState) (e : ConnEvent) (now : Nat) : Spec c e (c.onEvent e now) := by
  obtain ⟨state, entered, events, invalids, reason⟩ := c
  cases reason <;> cases state <;> cases e <;> exact ⟨rfl, rfl, rfl, rfl, rfl⟩

theorem next_refused {s : ConnState} {e : ConnEvent} (bad : accepts s e = false) : next s e = .closed := by
  cases s <;> cases e <;> first | rfl | exact absurd bad (by decide)

variable (c : ConnectionState) (history : List Seen)

/-- The state is that of the events alone. -/
theorem run_state :
    (run step c history).state = (history.map Prod.fst).foldl next c.state := by
  induction history generalizing c with
  | nil => rfl
  | cons seen rest ih =>
    rw [run_cons, ih, List.map_cons, List.foldl_cons, step, (onEvent_spec c seen.1 seen.2).state]

/-! ## Which events lead where -/

/-- The induction is on the history from behind; the last event decides. -/
theorem leadsTo_of_open {history : List ConnEvent} :
    history.foldl next .fresh ≠ .closed → LeadsTo (history.foldl next .fresh) history := by
  induction history using List.reverseRecOn with
  | nil => exact fun _ => .fresh
  | append_singleton earlier e ih =>
    rw [List.foldl_append, List.foldl_cons, List.foldl_nil]
    intro stillOpen
    have wasOpen : earlier.foldl next .fresh ≠ .closed := by
      intro closed
      rw [closed] at stillOpen
      cases e <;> exact stillOpen rfl
    have before := ih wasOpen
    generalize earlier.foldl next .fresh = s at before stillOpen
    cases before with
    | fresh =>
      cases e <;> first | exact absurd rfl stillOpen | exact .handshaking
    | handshaking =>
      cases e <;> first | exact absurd rfl stillOpen | exact .authenticated (by simp)
    | authenticated records =>
      cases e <;> first
        | exact absurd rfl stillOpen
        | exact .closing records (by simp)
        | exact .authenticated (by simpa [or_imp, forall_and, isApp] using records)
    | @closing apps drained records inbound =>
      cases e <;> first
        | exact absurd rfl stillOpen
        | skip
      have more : ∀ e ∈ drained ++ [.recvAppRecord], e = .recvAppRecord := by
        simpa [or_imp, forall_and] using inbound
      simpa [next] using LeadsTo.closing records more

theorem foldl_stays {s : ConnState} {events : List ConnEvent} (stays : ∀ e ∈ events, next s e = s) :
    events.foldl next s = s := by
  induction events with
  | nil => rfl
  | cons e rest ih =>
    rw [List.foldl_cons, stays e (by simp)]
    exact ih fun e' member => stays e' (by simp [member])

theorem next_app {e : ConnEvent} (app : isApp e = true) : next .authenticated e = .authenticated := by
  cases e <;> first | rfl | exact absurd app (by decide)

theorem open_of_leadsTo {s : ConnState} {history : List ConnEvent} (leads : LeadsTo s history) :
    history.foldl next .fresh = s := by
  cases leads with
  | fresh => rfl
  | handshaking => rfl
  | authenticated records => exact foldl_stays fun e member => next_app (records e member)
  | @closing apps drained records inbound =>
    rw [List.foldl_append, List.foldl_cons, List.foldl_cons, List.foldl_cons]
    show List.foldl next (next (apps.foldl next .authenticated) .beginClose) drained = .closing
    rw [foldl_stays fun e member => next_app (records e member)]
    exact foldl_stays fun e member => by rw [inbound e member]; rfl

/-! ## Result -/

structure Lifecycle : Prop where
  /-- Each open state is reached by its events and no others. -/
  states : ∀ s ≠ .closed, (run step c history).state = s ↔ LeadsTo s (history.map Prod.fst)
  /-- An event is accepted by the events before it. -/
  answers : ∀ e now, (step (run step c history) (e, now)).2 = true ↔
    ends e = true ∨ ∃ s, LeadsTo s (history.map Prod.fst) ∧ accepts s e = true
  /-- After a refusal the connection is closed, whatever follows. -/
  final : ∀ e now later, (step (run step c history) (e, now)).2 = false →
    (run step c (history ++ (e, now) :: later)).state = .closed
  counted : (run step c history).events = UInt64.ofNat history.length ∧
    (run step c history).invalids = UInt64.ofNat ((outputs step c history).count false)
  /-- The first reason stays, and a refusal leaves one. -/
  reason : (run step c history).closeReason =
    if c.closeReason ≠ [] ∨ ∀ ok ∈ outputs step c history, ok = true then c.closeReason
    else ascii "invalid_transition"

theorem run_counted :
    (run step c history).events = c.events + UInt64.ofNat history.length ∧
    (run step c history).invalids =
      c.invalids + UInt64.ofNat ((outputs step c history).count false) := by
  induction history generalizing c with
  | nil => exact ⟨(UInt64.add_zero _).symm, (UInt64.add_zero _).symm⟩
  | cons seen rest ih =>
    have spec := onEvent_spec c seen.1 seen.2
    obtain ⟨events, invalids⟩ := ih (step c seen).1
    constructor
    · rw [run_cons, events, step, spec.events, List.length_cons, Nat.add_comm, UInt64.ofNat_add,
        UInt64.add_assoc]
      rfl
    · rw [run_cons, invalids, outputs, List.count_cons, step, spec.invalids, Nat.add_comm,
        UInt64.ofNat_add, ← UInt64.add_assoc]
      cases (c.onEvent seen.1 seen.2).2 with
      | true => simp
      | false => simp

theorem run_reason :
    (run step c history).closeReason =
      if c.closeReason ≠ [] ∨ ∀ ok ∈ outputs step c history, ok = true then c.closeReason
      else ascii "invalid_transition" := by
  induction history generalizing c with
  | nil => simp [run, outputs]
  | cons seen rest ih =>
    have spec := onEvent_spec c seen.1 seen.2
    have named : ascii "invalid_transition" ≠ [] := by decide
    rw [run_cons, ih, outputs, step, spec.reason]
    cases (c.onEvent seen.1 seen.2).2 with
    | true => simp
    | false =>
      by_cases empty : c.closeReason = []
      · simp [empty, named]
      · simp [empty]

/-- A connection that starts fresh follows the life cycle. -/
theorem connection_lifecycle (start : c.state = .fresh) (noEvents : c.events = 0)
    (noInvalids : c.invalids = 0) : Lifecycle c history := by
  have state := run_state c history
  rw [start] at state
  have leads : ∀ s ≠ .closed, (run step c history).state = s ↔ LeadsTo s (history.map Prod.fst) := by
    intro s stillOpen
    rw [state]
    exact ⟨fun same => same ▸ leadsTo_of_open (by rw [same]; exact stillOpen), open_of_leadsTo⟩
  refine ⟨leads, ?_, ?_, ?_, run_reason c history⟩
  · intro e now
    rw [step, (onEvent_spec _ e now).answer]
    constructor
    · intro ok
      by_cases closed : (run step c history).state = .closed
      · rw [closed] at ok
        exact Or.inl (by simpa [accepts] using ok)
      · exact Or.inr ⟨_, (leads _ closed).mp rfl, ok⟩
    · rintro (terminal | ⟨s, found, ok⟩)
      · unfold accepts
        rw [terminal, Bool.true_or]
      · rw [state, open_of_leadsTo found]
        exact ok
  · intro e now later refused
    have spec := onEvent_spec (run step c history) e now
    have bad : accepts (run step c history).state e = false := spec.answer.symm.trans refused
    rw [run_append, run_cons, run_state, step, spec.state, next_refused bad]
    exact foldl_stays fun _ _ => rfl
  · obtain ⟨events, invalids⟩ := run_counted c history
    rw [events, invalids, noEvents, noInvalids]
    exact ⟨UInt64.zero_add _, UInt64.zero_add _⟩

theorem connection_lifecycle_fresh :
    Lifecycle { entered := 0 } [(.startHandshake, 1), (.handshakeDone, 2), (.sendAppRecord, 3)] ∧
    (step (run step { entered := 0 } [(.startHandshake, 1), (.handshakeDone, 2), (.beginClose, 3)])
      (.sendAppRecord, 4)).2 = false :=
  ⟨connection_lifecycle { entered := 0 } _ rfl rfl rfl, by decide⟩

end SecureLink.Guarantees.ConnectionLifecycle
