import SecureLink.Guarantees.StreamDelivery

/-!
# Send credit over two joined multiplexers

No operation emits a WINDOW frame, so the session's send credit only ever falls: it is the
initial window less all bytes ever accepted for sending, also once the peer has read them.
-/
namespace SecureLink.Guarantees.StreamCredit
open Library.BigEndian Library.Runs Library.Tagged Source.Streams StreamMultiplexer StreamDelivery

/-- Nothing is queued, nothing is in flight and everything received has been read. -/
structure Quiescent (n : Net) : Prop where
  queues : ∀ r order, ((n.side r).mux.popOutbound order).2 = none
  wires : ∀ r, n.wire r = []
  buffers : ∀ r id, ((n.side r).mux.recordOf id).inbound = []

/-- No stream that exists has anything queued or unread. -/
def streamsIdle (m : StreamMultiplexer) : Bool :=
  m.streams.keys.all fun id => (m.recordOf id).outbound.isEmpty && (m.recordOf id).inbound.isEmpty

theorem streamsIdle_known {m : StreamMultiplexer} (idle : streamsIdle m = true) {id : UInt32}
    (known : m.Known id) : (m.recordOf id).outbound = [] ∧ (m.recordOf id).inbound = [] := by
  have here := List.all_eq_true.mp idle id ((known_iff_mem_keys m id).mp known)
  simpa using here

/-- It is enough to look at the streams that exist. -/
theorem quiescent_of_streams {n : Net}
    (idle : ∀ r, n.wire r = [] ∧ streamsIdle (n.side r).mux = true) : Quiescent n where
  queues r order := by
    rcases (n.side r).mux.popOutbound_cases order with idle | ⟨id, chunk, rest, known, queue, _⟩
    · rw [idle]
    · rw [(streamsIdle_known (idle r).2 known).1] at queue
      cases queue
  wires r := (idle r).1
  buffers r id := by
    by_cases known : (n.side r).mux.Known id
    · exact (streamsIdle_known (idle r).2 known).2
    · rw [recordOf_unknown known]
      rfl

/-- `send_data` finds a stream that may send, and length and both credits suffice. -/
def MaySend (m : StreamMultiplexer) (id : UInt32) (data : Bytes) : Prop :=
  m.Known id ∧ (m.recordOf id).state.canSend = true ∧ data.length ≤ slStreamFrameMaxPayload ∧
    data.length ≤ (m.recordOf id).flow.sendCredit ∧ data.length ≤ m.sessionFlow.sendCredit

/-- The action uses up no credit: it is no `send_data` that can send a byte. -/
def Free (n : Net) : Action → Prop
  | .sendData r id data _ => data = [] ∨ ¬ MaySend (n.side r).mux id data
  | _ => True

theorem sendData_accepts {m : StreamMultiplexer} {id : UInt32} {data : Bytes}
    (h : MaySend m id data) (fin : Bool) : (m.sendData id data fin).2 = true := by
  obtain ⟨known, sends, short, stream, session⟩ := h
  obtain ⟨r, found⟩ := Option.isSome_iff_exists.mp known
  rw [find_eq_recordOf found] at sends stream
  by_cases empty : data.length = 0
  · simp [sendData, found, sends, chargeOutbound, empty]
  · simp [sendData, found, sends, Nat.not_lt.mpr short, chargeOutbound, empty, slFlowCanSend, stream,
      session]

/-! ## Bytes accepted for sending -/

/-- How much each side has accepted so far. -/
def spent (n : Net) (r : SlStreamRole) : Nat := total (n.side r).accepted

/-- A step of one side, and what it adds to the log of that side. -/
theorem spent_update {n : Net} {r : SlStreamRole} {s : Side}
    (wire : SlStreamRole → List SlStreamFrame) (more : Nat) (here : total s.accepted = spent n r + more) :
    (∀ q, spent n q ≤ spent { side := Function.update n.side r s, wire } q) ∧
    (spent { side := Function.update n.side r s, wire } = spent n ↔ more = 0) := by
  have changed : spent { side := Function.update n.side r s, wire } r = spent n r + more := by
    simpa [spent] using here
  have kept : ∀ q, q ≠ r → spent { side := Function.update n.side r s, wire } q = spent n q :=
    fun q elsewhere => by simp [spent, Function.update_of_ne elsewhere]
  refine ⟨fun q => ?_, fun same => ?_, fun unsent => ?_⟩
  · by_cases here : q = r
    · rw [here, changed]
      omega
    · rw [kept q here]
  · rw [same] at changed
    omega
  · funext q
    by_cases here : q = r
    · rw [here, changed, unsent]
      rfl
    · exact kept q here

theorem spent_kept {n : Net} {r : SlStreamRole} {s : Side} (wire : SlStreamRole → List SlStreamFrame)
    (same : s.accepted = (n.side r).accepted) :
    spent { side := Function.update n.side r s, wire } = spent n :=
  (spent_update wire 0 (by rw [same]; rfl)).2.mpr rfl

/-- One step: the logs grow, and stay as they are exactly when the action is free. -/
theorem step_spent (n : Net) (a : Action) :
    (∀ r, spent n r ≤ spent (step n a).1 r) ∧ (spent (step n a).1 = spent n ↔ Free n a) := by
  have quiet : spent (step n a).1 = spent n → Free n a →
      (∀ r, spent n r ≤ spent (step n a).1 r) ∧ (spent (step n a).1 = spent n ↔ Free n a) :=
    fun same free => ⟨fun r => by rw [same], iff_of_true same free⟩
  cases a with
  | openStream r prio => exact quiet (spent_kept n.wire rfl) trivial
  | readInbound r id => exact quiet (spent_kept n.wire rfl) trivial
  | popOutbound r order => exact quiet (spent_kept _ rfl) trivial
  | deliver r =>
    refine quiet ?_ trivial
    cases frames : n.wire r with
    | nil => simp only [step, frames]
    | cons f rest =>
      simp only [step, frames]
      exact spent_kept _ rfl
  | sendData r id data fin =>
    by_cases may : MaySend (n.side r).mux id data
    · have grown : total (sendStep (n.side r) id data fin).accepted = spent n r + data.length := by
        simp [sendStep, sendData_accepts may fin, spent]
      obtain ⟨le, iff⟩ := spent_update n.wire data.length grown
      refine ⟨le, iff.trans ?_⟩
      simp [Free, may]
    · refine quiet ((spent_update n.wire 0 ?_).2.mpr rfl) (Or.inr may)
      -- accepted without credit only if there is nothing to send
      rcases (n.side r).mux.sendData_cases id data fin with ⟨refused, _⟩ |
        ⟨ok, known, sends, short, credit, _⟩
      · simp [sendStep, refused, spent]
      · have empty : data.length = 0 := by
          by_contra full
          obtain ⟨stream, session⟩ := credit.resolve_left full
          exact may ⟨known, sends, short, stream, session⟩
        simp [sendStep, ok, spent, empty]

theorem run_spent_le (n : Net) (actions : List Action) (r : SlStreamRole) :
    spent n r ≤ spent (run step n actions) r :=
  run_invariant (fun later => spent n r ≤ spent later r)
    (fun later a h => h.trans ((step_spent later a).1 r)) actions (Nat.le_refl _)

theorem run_spent_iff (n : Net) (actions : List Action) :
    spent (run step n actions) = spent n ↔ AllSteps step Free n actions := by
  induction actions generalizing n with
  | nil => simp [AllSteps]
  | cons a rest ih =>
    rw [run_cons, AllSteps, ← ih, ← (step_spent n a).2]
    refine ⟨fun same => ?_, fun both => both.2.trans both.1⟩
    -- the logs only grow, so equal ends leave no room in between
    have first : spent (step n a).1 = spent n := by
      funext r
      have up := (step_spent n a).1 r
      have on := run_spent_le (step n a).1 rest r
      rw [same] at on
      omega
    exact ⟨first, same.trans first.symm⟩

/-- In every state, quiescent or not, the session credit of both sides is back at the initial window
exactly when no byte was ever sent. -/
theorem credit_restored_iff (window : UInt32) (actions : List Action) :
    (∀ r, ((run step (start window) actions).side r).mux.sessionFlow.sendCredit = window.toNat) ↔
      AllSteps step Free (start window) actions := by
  have final : Inv window (run step (start window) actions) :=
    run_invariant (Inv window) (fun n a h => (step_keeps window n a h).1) actions (inv_start window)
  rw [← run_spent_iff, funext_iff]
  refine forall_congr' fun r => ?_
  have credit := (final.endpoint r).sessionCredit
  have unspent : spent (start window) r = 0 := rfl
  rw [unspent, spent]
  omega

/-- The client opens a stream and sends on it; the server takes it in and reads it. -/
def transfer (data : Bytes) (fin : Bool) : List Action :=
  [.openStream .client .normal, .sendData .client 1 data fin, .popOutbound .client [1],
    .deliver .client, .readInbound .server 1]

theorem credit_kept_without_data :
    let n := run step (start 100) (transfer [] true)
    Quiescent n ∧ ∀ r, (n.side r).mux.sessionFlow.sendCredit = 100 := by
  intro n
  have quiet : Quiescent n := quiescent_of_streams fun r => by cases r <;> decide +kernel
  exact ⟨quiet, (credit_restored_iff 100 (transfer [] true)).mpr
    ⟨trivial, Or.inl rfl, trivial, trivial, trivial, trivial⟩⟩

/-- Ten bytes sent, delivered and read: the client's credit stays at 90 of 100. -/
theorem credit_lost_after_read :
    let n := run step (start 100) (transfer (List.replicate 10 0) false)
    Quiescent n ∧ (n.side .client).mux.sessionFlow.sendCredit = 90 ∧
    ((n.side .server).read = [(1, List.replicate 10 0)]) := by
  intro n
  refine ⟨quiescent_of_streams fun r => ?_, by decide +kernel, by decide +kernel⟩
  cases r <;> decide +kernel

end SecureLink.Guarantees.StreamCredit
