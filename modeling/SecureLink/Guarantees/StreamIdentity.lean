import SecureLink.Guarantees.StreamWindows

/-!
# Identities of streams

Local ids come from a counter that steps over the peer's parity and stops at the limit, and
`on_frame` creates streams of the peer's parity only, so the two never meet in the one table
they share. No stream is ever removed from it, and no transition leaves the closed phase.
-/
namespace SecureLink.Guarantees.StreamIdentity
open Library.Runs Source.Streams StreamMultiplexer
open StreamWindows (Call step)

/-- The id that a call returns, if it is one of `open_stream` and there is one left. -/
def returned (m : StreamMultiplexer) : Call → Option UInt32
  | .openStream prio => if (m.openStream prio).2 = 0 then none else some (m.openStream prio).2
  | _ => none

/-- The ids that `open_stream` returned during a run. -/
def opened (m : StreamMultiplexer) : List Call → List UInt32
  | [] => []
  | call :: rest => (returned m call).toList ++ opened (step m call).1 rest

/-- A stream that exists and is closed. -/
def Closed (m : StreamMultiplexer) (id : UInt32) : Prop :=
  m.Known id ∧ (m.recordOf id).state.isClosed = true

theorem isClosed_iff (s : StreamState) : s.isClosed = true ↔ s.phase = .kClosed := beq_iff_eq

structure NeverConfused (role : SlStreamRole) (window : UInt32) (calls : List Call) : Prop where
  distinct : (opened (.new role window) calls).Nodup
  fresh : AllSteps step (fun m call => ∀ id ∈ returned m call,
    OwnParity role id ∧ id ≤ slStreamIdMax ∧ ¬ m.Known id) (.new role window) calls
  created : AllSteps step (fun m call => ∀ f, call = .onFrame f →
    ∀ id, (m.onFrame f).1.Known id → ¬ m.Known id → OwnParity (peer role) id) (.new role window) calls
  stays : ∀ first later, calls = first ++ later →
    ∀ id, Closed (run step (.new role window) first) id →
      Closed (run step (.new role window) calls) id ∧
      (∀ data fin, ((run step (.new role window) calls).sendData id data fin).2 = false) ∧
      ∀ f, f.streamId = id → f.type = .data → ((run step (.new role window) calls).onFrame f).2 = false

/-! ## The invariant -/

/-- Every stream of the own parity has an id below the next one. -/
structure Numbered (role : SlStreamRole) (m : StreamMultiplexer) : Prop where
  sameRole : m.role = role
  next : OwnParity role m.idAlloc.nextId
  positive : m.idAlloc.nextId ≠ 0
  own : ∀ id, m.Known id → OwnParity role id → id.toNat < m.idAlloc.nextId.toNat
  control : ¬ m.Known slStreamIdControl

theorem ownParity_peer (role : SlStreamRole) (id : UInt32) :
    OwnParity (peer role) id ↔ ¬ OwnParity role id := by
  cases role <;> simp [OwnParity, peer]

/-- A call hands out no id and creates at most a stream of the peer's parity. -/
structure Foreign (role : SlStreamRole) (m m' : StreamMultiplexer) : Prop where
  alloc : m'.idAlloc = m.idAlloc
  known : ∀ id, m'.Known id → m.Known id ∨ id ≠ slStreamIdControl ∧ OwnParity (peer role) id

/-- A call hands out the next id and creates its stream. -/
structure Local (m m' : StreamMultiplexer) : Prop where
  bound : m.idAlloc.nextId ≤ slStreamIdMax
  alloc : m'.idAlloc.nextId.toNat = m.idAlloc.nextId.toNat + 2
  known : ∀ id, m'.Known id → m.Known id ∨ id = m.idAlloc.nextId

section Calls

variable {role : SlStreamRole} {m : StreamMultiplexer}

theorem Foreign.of_known {m' : StreamMultiplexer} (alloc : m'.idAlloc = m.idAlloc)
    (known : ∀ id, m'.Known id ↔ m.Known id) : Foreign role m m' :=
  ⟨alloc, fun id knows => Or.inl ((known id).mp knows)⟩

theorem openStream_identity (positive : m.idAlloc.nextId ≠ 0) (prio : SlPriority) :
    returned m (.openStream prio) = none ∧ Foreign role m (m.openStream prio).1 ∨
    returned m (.openStream prio) = some m.idAlloc.nextId ∧ Local m (m.openStream prio).1 := by
  obtain ⟨_, _, _, alloc, answer, _, learns, _⟩ := m.openStream_spec prio
  by_cases spent : (slStreamIdNext m.idAlloc).2 = 0
  · have same : (slStreamIdNext m.idAlloc).1 = m.idAlloc := by
      unfold slStreamIdNext at spent ⊢
      split
      · rfl
      next left => exact absurd (by simpa [left] using spent) positive
    refine Or.inl ⟨by simp only [returned, answer, spent, if_true], alloc.trans same, fun id knows => ?_⟩
    exact (learns id knows).imp_right fun created => absurd (created.1.trans spent) created.2
  · obtain ⟨same, bound, next⟩ := slStreamIdNext_fresh spent
    refine Or.inr ⟨by simp only [returned, answer, same, if_neg positive], same ▸ bound,
      by rw [alloc, next], fun id knows => ?_⟩
    exact (learns id knows).imp_right fun created => created.1.trans same

/-- What each call does to the ids. -/
theorem step_identity (h : Numbered role m) (call : Call) :
    (step m call).1.role = m.role ∧
    (returned m call = none ∧ Foreign role m (step m call).1 ∨
      returned m call = some m.idAlloc.nextId ∧ Local m (step m call).1) := by
  cases call with
  | openStream prio => exact ⟨(m.openStream_spec prio).1, openStream_identity h.positive prio⟩
  | sendData id data fin =>
    rcases m.sendData_cases id data fin with ⟨_, same, known, _, alloc⟩ |
      ⟨_, knows, _, _, _, changed, _, alloc⟩
    · exact ⟨same.role, Or.inl ⟨rfl, .of_known alloc known⟩⟩
    · exact ⟨changed.role, Or.inl ⟨rfl, .of_known alloc (changed.known_iff knows)⟩⟩
  | onFrame f =>
    obtain ⟨sameRole, alloc, learns, _⟩ := onFrame_identity m f
    refine ⟨sameRole, Or.inl ⟨rfl, alloc, fun id knows => ?_⟩⟩
    refine (learns id knows).imp_right fun created => ?_
    rw [← belongs_iff, peer_peer, ← h.sameRole]
    exact created.2
  | popOutbound order =>
    rcases m.popOutbound_cases order with idle | ⟨id, _, _, knows, _, _, changed, _, alloc⟩
    · rw [step, idle]
      exact ⟨rfl, Or.inl ⟨rfl, .of_known rfl fun _ => Iff.rfl⟩⟩
    · exact ⟨changed.role, Or.inl ⟨rfl, .of_known alloc (changed.known_iff knows)⟩⟩
  | readInbound id =>
    obtain ⟨_, sameRole, _, _, known, _, _, alloc⟩ := m.readInbound_spec id
    exact ⟨sameRole, Or.inl ⟨rfl, .of_known alloc known⟩⟩
  | resetStream id reason =>
    rcases m.resetStream_cases id reason with idle | ⟨knows, changed, _, alloc⟩
    · rw [step, idle]
      exact ⟨rfl, Or.inl ⟨rfl, .of_known rfl fun _ => Iff.rfl⟩⟩
    · exact ⟨changed.role, Or.inl ⟨rfl, .of_known alloc (changed.known_iff knows)⟩⟩

theorem step_numbered (m : StreamMultiplexer) (call : Call) (h : Numbered role m) :
    Numbered role (step m call).1 := by
  obtain ⟨sameRole, ⟨_, alloc, known⟩ | ⟨_, _, alloc, known⟩⟩ := step_identity h call
  · refine ⟨sameRole.trans h.sameRole, alloc ▸ h.next, alloc ▸ h.positive, fun id knows parity => ?_,
      fun knows => ?_⟩
    · rw [alloc]
      refine h.own id ((known id knows).resolve_right fun foreign => ?_) parity
      exact (ownParity_peer role id).mp foreign.2 parity
    · exact h.control ((known _ knows).resolve_right fun foreign => foreign.1 rfl)
  · have next := h.next
    rw [OwnParity] at next
    refine ⟨sameRole.trans h.sameRole, ?_, fun zero => ?_, fun id knows parity => ?_, fun knows => ?_⟩
    · rw [OwnParity, alloc, Nat.add_mod_right]
      exact next
    · rw [zero] at alloc
      simp at alloc
    · rw [alloc]
      rcases known id knows with before | rfl
      · have := h.own id before parity
        omega
      · omega
    · rcases known _ knows with before | zero
      · exact h.control before
      · exact h.positive zero.symm

/-- An id that `open_stream` returns names no stream yet. -/
theorem returned_fresh (h : Numbered role m) {call : Call} {id : UInt32}
    (here : id ∈ returned m call) :
    OwnParity role id ∧ id ≤ slStreamIdMax ∧ ¬ m.Known id := by
  obtain ⟨_, ⟨unopened, _⟩ | ⟨next, own⟩⟩ := step_identity h call
  · rw [unopened] at here
    cases here
  · rw [next] at here
    obtain rfl := Option.some.inj here
    exact ⟨h.next, own.bound, fun knows => Nat.lt_irrefl _ (h.own _ knows h.next)⟩

/-- The ids of a run lie behind the counter, each behind the one before. -/
theorem opened_increasing (h : Numbered role m) (calls : List Call) :
    (∀ id ∈ opened m calls, m.idAlloc.nextId.toNat ≤ id.toNat) ∧ (opened m calls).Nodup := by
  induction calls generalizing m with
  | nil => exact ⟨fun id member => absurd member List.not_mem_nil, List.nodup_nil⟩
  | cons call rest ih =>
    obtain ⟨above, nodup⟩ := ih (step_numbered m call h)
    obtain ⟨_, ⟨unopened, foreign⟩ | ⟨next, own⟩⟩ := step_identity h call
    · simp only [opened, unopened, Option.toList_none, List.nil_append]
      rw [foreign.alloc] at above
      exact ⟨above, nodup⟩
    · simp only [opened, next, Option.toList_some, List.singleton_append, List.forall_mem_cons,
        List.nodup_cons]
      rw [own.alloc] at above
      refine ⟨⟨Nat.le_refl _, fun id member => ?_⟩, fun member => ?_, nodup⟩
      · have := above id member
        omega
      · have := above _ member
        omega

/-! ## Closed streams -/

/-- No call opens a closed stream again. -/
theorem step_closed (h : Numbered role m) {id : UInt32} (closed : Closed m id) (call : Call) :
    Closed (step m call).1 id := by
  obtain ⟨knows, phase⟩ := closed
  -- a change of one record that keeps the closed phase
  have change : ∀ {m' : StreamMultiplexer} {target : UInt32} {r : StreamRecord}, Changed m m' target r →
      ((m.recordOf target).state.isClosed = true → r.state.isClosed = true) → Closed m' id :=
    fun changed keeps => ⟨(changed.known id).mpr (Or.inl knows),
      recordOf_related changed.record
        (Q := fun before after => before.state.isClosed = true → after.state.isClosed = true)
        (fun _ h => h) keeps id phase⟩
  cases call with
  | openStream prio =>
    obtain ⟨_, _, _, _, _, record, _, keeps⟩ := m.openStream_spec prio
    obtain ⟨p, same⟩ := record id
    exact ⟨keeps id knows, by rw [step, same]; exact phase⟩
  | sendData target data fin =>
    rcases m.sendData_cases target data fin with ⟨_, same, known, _⟩ |
      ⟨_, _, sends, _, _, changed, _⟩
    · exact ⟨(known id).mpr knows, by rw [step, same.record id]; exact phase⟩
    · exact change changed fun closed =>
        absurd (Or.inr ((isClosed_iff _).mp closed)) (canSend_not_closed sends)
  | onFrame f =>
    obtain ⟨_, _, _, keeps, _⟩ := onFrame_identity m f
    have nonzero : id ≠ slStreamIdControl := by
      rintro rfl
      exact h.control knows
    have stays := (onFrame_closed (f := f) knows nonzero ((isClosed_iff _).mp phase)).1
    exact ⟨keeps id knows, (isClosed_iff _).mpr stays⟩
  | popOutbound order =>
    rcases m.popOutbound_cases order with idle | ⟨_, _, _, _, _, _, changed, _⟩
    · rw [step, idle]
      exact ⟨knows, phase⟩
    · exact change changed fun closed => closed
  | readInbound target =>
    obtain ⟨_, _, _, ⟨flow, _, _, record⟩, known, _⟩ := m.readInbound_spec target
    refine ⟨(known id).mpr knows, ?_⟩
    exact recordOf_related record
      (Q := fun before after => before.state.isClosed = true → after.state.isClosed = true)
      (fun _ h => h) (fun h => h) id phase
  | resetStream target reason =>
    rcases m.resetStream_cases target reason with idle | ⟨_, changed, _⟩
    · rw [step, idle]
      exact ⟨knows, phase⟩
    · exact change changed fun _ => rfl

theorem closed_refuses (h : Numbered role m) {id : UInt32} (closed : Closed m id) :
    (∀ data fin, (m.sendData id data fin).2 = false) ∧
    ∀ f, f.streamId = id → f.type = .data → (m.onFrame f).2 = false := by
  obtain ⟨knows, phase⟩ := closed
  rw [isClosed_iff] at phase
  refine ⟨fun data fin => ?_, fun f here data => ?_⟩
  · rcases m.sendData_cases id data fin with ⟨refused, _⟩ | ⟨_, _, sends, _⟩
    · exact refused
    · exact absurd (Or.inr phase) (canSend_not_closed sends)
  · have nonzero : id ≠ slStreamIdControl := by
      rintro rfl
      exact h.control knows
    exact (onFrame_closed knows nonzero phase).2 here data

end Calls

theorem numbered_new (role : SlStreamRole) (window : UInt32) :
    Numbered role (StreamMultiplexer.new role window) where
  sameRole := rfl
  next := by
    have first : OwnParity role (slStreamIdInit role).nextId := by
      unfold OwnParity
      cases role <;> decide
    exact first
  positive := by
    have first : (slStreamIdInit role).nextId ≠ 0 := by cases role <;> decide
    exact first
  own id knows := by simp [StreamMultiplexer.new, Known, find] at knows
  control := by simp [StreamMultiplexer.new, Known, find]

/-- Whatever a multiplexer is called with, frames of the peer included: the ids it hands out are
new, distinct and of its own parity, the streams that frames create have the peer's, and a
closed stream stays closed. -/
theorem streams_never_confused (role : SlStreamRole) (window : UInt32) (calls : List Call) :
    NeverConfused role window calls where
  distinct := (opened_increasing (numbered_new role window) calls).2
  fresh := allSteps_of_invariant (Numbered role) step_numbered
    (fun _ _ h _ here => returned_fresh h here) calls (numbered_new role window)
  created := by
    refine allSteps_of_invariant (Numbered role) step_numbered ?_ calls (numbered_new role window)
    rintro m call h f rfl id knows unknown
    obtain ⟨_, ⟨_, foreign⟩ | ⟨opened, _⟩⟩ := step_identity h (.onFrame f)
    · exact ((foreign.known id knows).resolve_left unknown).2
    · cases opened
  stays := by
    rintro first later rfl id closed
    have start : Numbered role (run step (.new role window) first) :=
      run_invariant (Numbered role) step_numbered first (numbered_new role window)
    have final := run_invariant (fun m => Numbered role m ∧ Closed m id)
      (fun m call h => ⟨step_numbered m call h.1, step_closed h.1 h.2 call⟩) later ⟨start, closed⟩
    rw [run_append]
    exact ⟨final.2, closed_refuses final.1 final.2⟩

end SecureLink.Guarantees.StreamIdentity
