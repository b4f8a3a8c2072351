import SecureLink.Source.Streams.Multiplexer

/-!
# What each multiplexer operation can do

A stream that does not exist yet reads as the record `find_or_create` would set up, so
that creating it changes nothing. Every operation then changes the record of at most one
stream; the lemmas here say how, and later results do not unfold the operations.
-/
namespace SecureLink.Source.Streams
open Library.BigEndian

/-! ## Stream ids -/

def peer : SlStreamRole → SlStreamRole
  | .client => .server
  | .server => .client

@[simp] theorem peer_peer (role : SlStreamRole) : peer (peer role) = role := by cases role <;> rfl

/-- The ids a role hands out have its parity. -/
def OwnParity (role : SlStreamRole) (id : UInt32) : Prop :=
  id.toNat % 2 = if role = .client then 1 else 0

/-- The ids that belong to the peer, in the eyes of the peer, are those of the own parity. -/
theorem belongs_iff (role : SlStreamRole) (id : UInt32) :
    slStreamIdBelongsToPeer id (peer role) = true ↔ id ≠ slStreamIdControl ∧ OwnParity role id := by
  have low : (id &&& 1).toNat = id.toNat % 2 := by
    rw [UInt32.toNat_and]
    exact Nat.and_one_is_mod id.toNat
  have bit : ∀ b : UInt32, id &&& 1 = b ↔ id.toNat % 2 = b.toNat := fun b => by
    rw [← low, UInt32.toNat_inj]
  by_cases control : id = slStreamIdControl
  · simp [slStreamIdBelongsToPeer, control]
  · have nonzero : id ≠ 0 := control
    cases role <;>
      simp [slStreamIdBelongsToPeer, control, peer, slStreamIdIsClientInitiated,
        slStreamIdIsServerInitiated, nonzero, bit, OwnParity]

/-- An id that is handed out is the next one, and within bounds. -/
theorem slStreamIdNext_fresh {a : SlStreamIdAlloc} (nonzero : (slStreamIdNext a).2 ≠ 0) :
    (slStreamIdNext a).2 = a.nextId ∧ (slStreamIdNext a).2 ≤ slStreamIdMax ∧
    (slStreamIdNext a).1.nextId.toNat = a.nextId.toNat + 2 := by
  unfold slStreamIdNext at nonzero ⊢
  split
  next spent => simp [spent] at nonzero
  next left =>
    have bound : a.nextId ≤ slStreamIdMax := UInt32.not_lt.mp left
    have small : a.nextId.toNat ≤ 0x7FFFFFFF := UInt32.le_iff_toNat_le.mp bound
    refine ⟨rfl, bound, ?_⟩
    simp only [UInt32.toNat_add, UInt32.reduceToNat]
    omega

theorem slStreamIdNext_parity {a : SlStreamIdAlloc} {role : SlStreamRole}
    (parity : OwnParity role a.nextId) : OwnParity role (slStreamIdNext a).1.nextId := by
  unfold slStreamIdNext
  split
  · exact parity
  · simp only [OwnParity, UInt32.toNat_add, UInt32.reduceToNat] at parity ⊢
    omega

namespace StreamMultiplexer
variable {m m' m₁ m₂ : StreamMultiplexer} {id : UInt32} {r : StreamRecord} {f : SlStreamFrame}

/-- The record of a stream, existing or to be created. -/
def recordOf (m : StreamMultiplexer) (id : UInt32) : StreamRecord :=
  (m.find id).getD (m.newRecord id)

def Known (m : StreamMultiplexer) (id : UInt32) : Prop := (m.find id).isSome

instance (m : StreamMultiplexer) (id : UInt32) : Decidable (m.Known id) :=
  inferInstanceAs (Decidable ((m.find id).isSome = true))

theorem known_iff_mem_keys (m : StreamMultiplexer) (id : UInt32) :
    m.Known id ↔ id ∈ m.streams.keys := by
  rw [← AList.mem_keys, Known, find, AList.lookup_isSome]

/-- A stream that does not exist reads as empty. -/
theorem recordOf_unknown (absent : ¬ m.Known id) : m.recordOf id = m.newRecord id := by
  rw [Known, Bool.not_eq_true, Option.isSome_eq_false_iff, Option.isNone_iff_eq_none] at absent
  rw [recordOf, absent, Option.getD_none]

theorem find_store (m : StreamMultiplexer) (id other : UInt32) (r : StreamRecord) :
    (m.store id r).find other = if other = id then some r else m.find other := by
  unfold find store
  split
  next same =>
    subst same
    exact AList.lookup_insert m.streams
  next different => exact AList.lookup_insert_ne different

theorem find_eq_recordOf (h : m.find id = some r) : m.recordOf id = r := by
  simp [recordOf, h]

/-- At most the record of one stream differs. -/
structure Changed (m m' : StreamMultiplexer) (id : UInt32) (r : StreamRecord) : Prop where
  role : m'.role = m.role
  window : m'.initialWindow = m.initialWindow
  record : ∀ other, m'.recordOf other = if other = id then r else m.recordOf other
  known : ∀ other, m'.Known other ↔ m.Known other ∨ other = id

/-- No record differs; a stream may have come into existence. -/
structure Unchanged (m m' : StreamMultiplexer) : Prop where
  role : m'.role = m.role
  window : m'.initialWindow = m.initialWindow
  record : ∀ other, m'.recordOf other = m.recordOf other

theorem Unchanged.refl (m : StreamMultiplexer) : Unchanged m m := ⟨rfl, rfl, fun _ => rfl⟩

/-- A relation that every record has to itself, and that the one change respects, holds
between the records before and after. -/
theorem recordOf_related
    (record : ∀ other, m'.recordOf other = if other = id then r else m.recordOf other)
    {Q : StreamRecord → StreamRecord → Prop} (same : ∀ r, Q r r) (here : Q (m.recordOf id) r)
    (other : UInt32) : Q (m.recordOf other) (m'.recordOf other) := by
  rw [record other]
  split
  next changed =>
    rw [changed]
    exact here
  · exact same _

theorem Known.or_eq_iff (knows : m.Known id) (other : UInt32) :
    m.Known other ∨ other = id ↔ m.Known other := by
  refine ⟨?_, Or.inl⟩
  rintro (known | rfl)
  · exact known
  · exact knows

/-- A change of a stream that exists brings no stream into existence. -/
theorem Changed.known_iff (changed : Changed m m' id r) (knows : m.Known id) (other : UInt32) :
    m'.Known other ↔ m.Known other :=
  (changed.known other).trans (knows.or_eq_iff other)

theorem store_changed (m : StreamMultiplexer) (id : UInt32) (r : StreamRecord) :
    Changed m (m.store id r) id r where
  role := rfl
  window := rfl
  record other := by
    simp only [recordOf, find_store]
    split <;> rfl
  known other := by
    simp only [Known, find_store]
    by_cases same : other = id <;> simp [same]

/-- Storing a record and then touching statistics, session or ids is a change of that
record. -/
theorem Changed.of_store (role : m'.role = m.role) (window : m'.initialWindow = m.initialWindow)
    (streams : m'.streams = (m.store id r).streams) : Changed m m' id r := by
  obtain ⟨_, _, record, known⟩ := store_changed m id r
  have find : ∀ other, m'.find other = (m.store id r).find other := by
    intro other
    simp only [StreamMultiplexer.find, streams]
  refine ⟨role, window, fun other => ?_, fun other => ?_⟩
  · rw [← record other, recordOf, recordOf, find, newRecord, newRecord, window]
    rfl
  · rw [← known other, Known, Known, find]

theorem findOrCreate_spec (m : StreamMultiplexer) (id : UInt32) :
    (m.findOrCreate id).2 = m.recordOf id ∧ Unchanged m (m.findOrCreate id).1 ∧
    (∀ other, (m.findOrCreate id).1.Known other ↔ m.Known other ∨ other = id) ∧
    (m.findOrCreate id).1.sessionFlow = m.sessionFlow ∧
    (m.findOrCreate id).1.idAlloc = m.idAlloc := by
  unfold findOrCreate
  cases found : m.find id with
  | some r =>
    have known : m.Known id := by simp [Known, found]
    exact ⟨(find_eq_recordOf found).symm, Unchanged.refl m, fun other => (known.or_eq_iff other).symm,
      rfl, rfl⟩
  | none =>
    have changed : Changed m { m.store id (m.newRecord id) with
        stats := { m.stats with streamsOpened := m.stats.streamsOpened + 1 } } id (m.newRecord id) :=
      Changed.of_store rfl rfl rfl
    have same : m.recordOf id = m.newRecord id := by simp [recordOf, found]
    refine ⟨same.symm, ⟨rfl, rfl, fun other => ?_⟩, changed.known, rfl, rfl⟩
    rw [changed.record other]
    split
    next here => rw [here, same]
    · rfl

/-! ## open_stream -/

/-- Opening sets a priority and nothing else that a record holds. -/
theorem openStream_spec (m : StreamMultiplexer) (prio : SlPriority) :
    (m.openStream prio).1.role = m.role ∧
    (m.openStream prio).1.initialWindow = m.initialWindow ∧
    (m.openStream prio).1.sessionFlow = m.sessionFlow ∧
    (m.openStream prio).1.idAlloc = (slStreamIdNext m.idAlloc).1 ∧
    (m.openStream prio).2 = (slStreamIdNext m.idAlloc).2 ∧
    (∀ other, ∃ p, (m.openStream prio).1.recordOf other = { m.recordOf other with priority := p }) ∧
    (∀ other, (m.openStream prio).1.Known other →
      m.Known other ∨ (other = (slStreamIdNext m.idAlloc).2 ∧ other ≠ 0)) ∧
    (∀ other, m.Known other → (m.openStream prio).1.Known other) := by
  unfold openStream
  generalize slStreamIdNext m.idAlloc = next
  dsimp only
  split
  next spent =>
    exact ⟨rfl, rfl, rfl, rfl, spent.symm, fun other => ⟨_, rfl⟩, fun other h => Or.inl h, fun _ h => h⟩
  next fresh =>
    obtain ⟨found, same, known, session, alloc⟩ :=
      findOrCreate_spec { m with idAlloc := next.1 } next.2
    generalize StreamMultiplexer.findOrCreate { m with idAlloc := next.1 } next.2 = created at *
    have changed := store_changed created.1 next.2 { created.2 with priority := prio }
    refine ⟨same.role, same.window, session, alloc, rfl, fun other => ?_, fun other h => ?_,
      fun other h => ?_⟩
    · rw [changed.record other]
      split
      next here => exact ⟨prio, by rw [found, here]; rfl⟩
      · exact ⟨_, by rw [same.record other]; rfl⟩
    · rcases (changed.known other).mp h with h | rfl
      · rcases (known other).mp h with h | rfl
        · exact Or.inl h
        · exact Or.inr ⟨rfl, fresh⟩
      · exact Or.inr ⟨rfl, fresh⟩
    · exact (changed.known other).mpr (Or.inl ((known other).mpr (Or.inl h)))

/-! ## send_data -/

/-- A record after `len` bytes were charged and queued. -/
def queued (r : StreamRecord) (data : Chunk) : StreamRecord :=
  { r with
    flow := { r.flow with sendCredit := r.flow.sendCredit - data.1.length }
    outbound := if data.1.length = 0 then r.outbound else r.outbound ++ [data] }

/-- A record after an accepted `send_data`. -/
def sent (r : StreamRecord) (data : Chunk) (fin : Bool) : StreamRecord :=
  if fin then queueFin (queued r data) else queued r data

theorem sent_spec (r : StreamRecord) (data : Chunk) (fin : Bool) :
    (sent r data fin).flow = { r.flow with sendCredit := r.flow.sendCredit - data.1.length } ∧
    (sent r data fin).inbound = r.inbound ∧
    (sent r data fin).outbound.flatMap Subtype.val = r.outbound.flatMap Subtype.val ++ data.1 ∧
    (sent r data fin).state = if fin then r.state.onSentFin.1 else r.state := by
  have queue : (queued r data).outbound.flatMap Subtype.val =
      r.outbound.flatMap Subtype.val ++ data.1 := by
    by_cases empty : data.1.length = 0
    · simp [queued, List.eq_nil_of_length_eq_zero empty]
    · simp [queued, empty]
  cases fin with
  | false => exact ⟨rfl, rfl, queue, rfl⟩
  | true =>
    refine ⟨rfl, rfl, ?_, rfl⟩
    rw [← queue]
    cases queuedChunks : (queued r data).outbound <;> simp [sent, queueFin, queuedChunks]

/-- A refused `send_data` changes at most a statistic; an accepted one charges stream and
session, queues the bytes, and closes the local side if asked to. -/
theorem sendData_cases (m : StreamMultiplexer) (id : UInt32) (data : Bytes) (fin : Bool) :
    ((m.sendData id data fin).2 = false ∧ Unchanged m (m.sendData id data fin).1 ∧
      (∀ other, (m.sendData id data fin).1.Known other ↔ m.Known other) ∧
      (m.sendData id data fin).1.sessionFlow = m.sessionFlow ∧
      (m.sendData id data fin).1.idAlloc = m.idAlloc) ∨
    ((m.sendData id data fin).2 = true ∧ m.Known id ∧ (m.recordOf id).state.canSend = true ∧
      ∃ short : data.length ≤ slStreamFrameMaxPayload,
      (data.length = 0 ∨ (data.length ≤ (m.recordOf id).flow.sendCredit ∧
        data.length ≤ m.sessionFlow.sendCredit)) ∧
      Changed m (m.sendData id data fin).1 id (sent (m.recordOf id) ⟨data, short⟩ fin) ∧
      (m.sendData id data fin).1.sessionFlow =
        { m.sessionFlow with sendCredit := m.sessionFlow.sendCredit - data.length } ∧
      (m.sendData id data fin).1.idAlloc = m.idAlloc) := by
  have refused : ∀ stats, m.sendData id data fin = ({ m with stats }, false) →
      (m.sendData id data fin).2 = false ∧ Unchanged m (m.sendData id data fin).1 ∧
      (∀ other, (m.sendData id data fin).1.Known other ↔ m.Known other) ∧
      (m.sendData id data fin).1.sessionFlow = m.sessionFlow ∧
      (m.sendData id data fin).1.idAlloc = m.idAlloc := by
    intro stats result
    rw [result]
    exact ⟨rfl, ⟨rfl, rfl, fun _ => rfl⟩, fun _ => Iff.rfl, rfl, rfl⟩
  cases found : m.find id with
  | none => exact Or.inl (refused m.stats (by simp [sendData, found]))
  | some r =>
    have here := find_eq_recordOf found
    have known : m.Known id := by simp [Known, found]
    by_cases sends : r.state.canSend = true
    · by_cases fits : data.length ≤ slStreamFrameMaxPayload
      · by_cases empty : data.length = 0
        · have result : m.sendData id data fin =
              (m.store id (if fin then queueFin r else r), true) := by
            simp [sendData, found, sends, chargeOutbound, empty]
          have same : queued (m.recordOf id) ⟨data, fits⟩ = r := by simp [queued, here, empty]
          rw [result]
          refine Or.inr ⟨rfl, known, here ▸ sends, fits, Or.inl empty, ?_, by simp [store, empty], rfl⟩
          rw [sent, same]
          exact Changed.of_store rfl rfl rfl
        · by_cases credit : (data.length : Int) ≤ r.flow.sendCredit ∧
              (data.length : Int) ≤ m.sessionFlow.sendCredit
          · have result : m.sendData id data fin =
                ({ m with sessionFlow := { m.sessionFlow with
                    sendCredit := m.sessionFlow.sendCredit - data.length } }.store id
                  (sent r ⟨data, fits⟩ fin), true) := by
              simp [sendData, found, sends, chargeOutbound, empty, Nat.not_lt.mpr fits,
                slFlowCanSend, slFlowChargeSend, credit.1, credit.2, Int.not_lt.mpr credit.1,
                Int.not_lt.mpr credit.2, sent, queued]
            rw [result, here]
            exact Or.inr ⟨rfl, known, sends, fits, Or.inr credit, Changed.of_store rfl rfl rfl,
              rfl, rfl⟩
          · refine Or.inl (refused { m.stats with flowBlocks := m.stats.flowBlocks + 1 } ?_)
            have blocked : (!slFlowCanSend r.flow data.length ||
                !slFlowCanSend m.sessionFlow data.length) = true := by
              simp only [slFlowCanSend, Bool.or_eq_true, Bool.not_eq_true', decide_eq_false_iff_not]
              omega
            simp [sendData, found, sends, chargeOutbound, empty, Nat.not_lt.mpr fits, blocked]
      · exact Or.inl (refused m.stats (by simp [sendData, found, sends, Nat.lt_of_not_le fits]))
    · exact Or.inl (refused m.stats (by simp [sendData, found, sends]))

/-! ## on_frame -/

/-- A record after an accepted DATA frame. -/
def received (r : StreamRecord) (f : SlStreamFrame) : StreamRecord :=
  let taken := { r with
    flow := { r.flow with recvWindow := r.flow.recvWindow - f.payload.1.length }
    inbound := r.inbound ++ f.payload.1 }
  if f.fin then { taken with state := r.state.onRecvFin.1, inboundFin := true } else taken

/-- Both windows have room for the payload. -/
def HasRoom (m : StreamMultiplexer) (r : StreamRecord) (f : SlStreamFrame) : Prop :=
  f.payload.1.length = 0 ∨ (f.payload.1.length ≤ r.flow.recvWindow ∧
    f.payload.1.length ≤ m.sessionFlow.recvWindow)

theorem onData_accepted (receiving : r.state.canRecv = true) (room : m.HasRoom r f) :
    m.onData f r = ({ m with sessionFlow := { m.sessionFlow with
        recvWindow := m.sessionFlow.recvWindow - f.payload.1.length } }.store f.streamId
          (received r f), true) := by
  by_cases empty : f.payload.1.length = 0
  · have nothing : f.payload.1 = [] := List.eq_nil_of_length_eq_zero empty
    simp [onData, receiving, nothing, received, store]
  · obtain ⟨stream, session⟩ := room.resolve_left empty
    simp [onData, receiving, empty, slFlowChargeRecv, Int.not_lt.mpr stream, Int.not_lt.mpr session,
      received]

/-- The stream has room for the payload and the session has not: the case in which
`on_frame` returns between its two charges. -/
def HalfCharged (m : StreamMultiplexer) (r : StreamRecord) (f : SlStreamFrame) : Prop :=
  r.state.canRecv = true ∧ f.payload.1.length ≠ 0 ∧ f.payload.1.length ≤ r.flow.recvWindow ∧
    m.sessionFlow.recvWindow < f.payload.1.length

instance (m : StreamMultiplexer) (r : StreamRecord) (f : SlStreamFrame) :
    Decidable (m.HalfCharged r f) :=
  inferInstanceAs (Decidable (_ ∧ _ ∧ _ ∧ _))

theorem onData_halfCharged (h : m.HalfCharged r f) :
    m.onData f r = (m.store f.streamId { r with flow := { r.flow with
      recvWindow := r.flow.recvWindow - f.payload.1.length } }, false) := by
  obtain ⟨receiving, full, stream, session⟩ := h
  simp [onData, receiving, full, slFlowChargeRecv, Int.not_lt.mpr stream, session]

theorem onData_untouched (h : r.state.canRecv = true → ¬ m.HasRoom r f)
    (whole : ¬ m.HalfCharged r f) : m.onData f r = (m, false) := by
  by_cases receiving : r.state.canRecv = true
  · obtain ⟨full, narrow⟩ := not_or.mp (h receiving)
    have stream : r.flow.recvWindow < f.payload.1.length := by
      by_contra enough
      refine whole ⟨receiving, full, Int.not_lt.mp enough, ?_⟩
      by_contra session
      exact narrow ⟨Int.not_lt.mp enough, Int.not_lt.mp session⟩
    simp [onData, receiving, full, slFlowChargeRecv, stream]
  · simp [onData, receiving]

/-- The frame reaches the switch exactly when its stream exists or may be created. -/
theorem onFrame_dispatch (m : StreamMultiplexer) (f : SlStreamFrame) :
    (f.streamId ≠ slStreamIdControl ∧
      (m.Known f.streamId ∨ slStreamIdBelongsToPeer f.streamId m.role = true) ∧
      ∃ m₁, m.onFrame f = m₁.dispatch f (m.recordOf f.streamId) ∧ Unchanged m m₁ ∧
        (∀ other, m₁.Known other ↔ m.Known other ∨ other = f.streamId) ∧
        m₁.sessionFlow = m.sessionFlow ∧ m₁.idAlloc = m.idAlloc) ∨
    (¬ (f.streamId ≠ slStreamIdControl ∧
        (m.Known f.streamId ∨ slStreamIdBelongsToPeer f.streamId m.role = true)) ∧
      ∃ m₁ answer, m.onFrame f = (m₁, answer) ∧ Unchanged m m₁ ∧
        (∀ other, m₁.Known other ↔ m.Known other) ∧
        m₁.sessionFlow = m.sessionFlow ∧ m₁.idAlloc = m.idAlloc) := by
  -- the counters at the head of the function touch no stream
  let m₀ : StreamMultiplexer := { m with stats := { m.stats with
    framesIn := m.stats.framesIn + 1
    bytesIn := m.stats.bytesIn + UInt64.ofNat f.payload.1.length } }
  have counted : Unchanged m m₀ := ⟨rfl, rfl, fun _ => rfl⟩
  by_cases control : f.streamId = slStreamIdControl
  · refine Or.inr ⟨fun h => h.1 control, m₀, true, ?_, counted, fun _ => Iff.rfl, rfl, rfl⟩
    simp only [onFrame, control, if_true]
    rfl
  · cases found : m.find f.streamId with
    | some r =>
      have known : m.Known f.streamId := by simp [Known, found]
      have found₀ : m₀.find f.streamId = some r := found
      refine Or.inl ⟨control, Or.inl known, m₀, ?_, counted, fun other => (known.or_eq_iff other).symm,
        rfl, rfl⟩
      rw [find_eq_recordOf found]
      simp only [onFrame, control, if_false]
      rw [show (_ : StreamMultiplexer).find f.streamId = some r from found₀]
    | none =>
      have found₀ : m₀.find f.streamId = none := found
      by_cases peers : slStreamIdBelongsToPeer f.streamId m.role = true
      · obtain ⟨record, same, known, session, alloc⟩ := findOrCreate_spec m₀ f.streamId
        refine Or.inl ⟨control, Or.inr peers, (m₀.findOrCreate f.streamId).1, ?_,
          ⟨same.role, same.window, same.record⟩, known, session, alloc⟩
        have here : m.recordOf f.streamId = (m₀.findOrCreate f.streamId).2 := record.symm
        rw [here]
        simp only [onFrame, control, if_false]
        rw [show (_ : StreamMultiplexer).find f.streamId = none from found₀]
        simp [peers, m₀]
      · have absent : ¬ m.Known f.streamId := by simp [Known, found]
        refine Or.inr ⟨fun h => h.2.elim absent peers, m₀, false, ?_, counted, fun _ => Iff.rfl,
          rfl, rfl⟩
        simp only [onFrame, control, if_false]
        rw [show (_ : StreamMultiplexer).find f.streamId = none from found₀]
        simp [peers, m₀]

/-- A change on top of no change. -/
theorem Unchanged.then_changed (first : Unchanged m m₁)
    (known : ∀ other, m₁.Known other ↔ m.Known other ∨ other = id) (second : Changed m₁ m₂ id r) :
    Changed m m₂ id r where
  role := second.role.trans first.role
  window := second.window.trans first.window
  record other := by rw [second.record other, first.record other]
  known other := by rw [second.known other, known other, or_assoc, or_self]

/-- A DATA frame with room on a stream that may receive is accepted. -/
theorem onFrame_accepts (data : f.type = .data) (control : f.streamId ≠ slStreamIdControl)
    (reachable : m.Known f.streamId ∨ slStreamIdBelongsToPeer f.streamId m.role = true)
    (receiving : (m.recordOf f.streamId).state.canRecv = true)
    (room : m.HasRoom (m.recordOf f.streamId) f) :
    (m.onFrame f).2 = true ∧
    Changed m (m.onFrame f).1 f.streamId (received (m.recordOf f.streamId) f) ∧
    (m.onFrame f).1.sessionFlow = { m.sessionFlow with
      recvWindow := m.sessionFlow.recvWindow - f.payload.1.length } ∧
    (m.onFrame f).1.idAlloc = m.idAlloc := by
  rcases onFrame_dispatch m f with ⟨_, _, m₁, result, same, known, session, alloc⟩ | ⟨not, _⟩
  · have room₁ : m₁.HasRoom (m.recordOf f.streamId) f := by
      rw [HasRoom, session]
      exact room
    rw [result, dispatch, data]
    simp only
    rw [onData_accepted receiving room₁]
    refine ⟨rfl, same.then_changed known (Changed.of_store rfl rfl rfl), ?_, alloc⟩
    simp only [store, session]
  · exact absurd ⟨control, reachable⟩ not

/-- Everything the switch of `on_frame` can do: nothing, a change of one record that leaves
its buffer and the session alone, or the acceptance of a DATA frame. -/
theorem dispatch_cases (m : StreamMultiplexer) (f : SlStreamFrame) (r : StreamRecord) :
    ((m.dispatch f r).1 = m) ∨
    (∃ r' : StreamRecord, Changed m (m.dispatch f r).1 f.streamId r' ∧
      (m.dispatch f r).1.sessionFlow = m.sessionFlow ∧ r'.inbound = r.inbound ∧
      (0 ≤ r.flow.recvWindow → 0 ≤ r'.flow.recvWindow) ∧
      (f.type ≠ .reset → ∃ flow, r' = { r with flow })) ∨
    (f.type = .data ∧ r.state.canRecv = true ∧ m.HasRoom r f ∧
      Changed m (m.dispatch f r).1 f.streamId (received r f) ∧
      (m.dispatch f r).1.sessionFlow = { m.sessionFlow with
        recvWindow := m.sessionFlow.recvWindow - f.payload.1.length }) := by
  cases type : f.type with
  | data =>
    simp only [dispatch, type]
    by_cases accepts : r.state.canRecv = true ∧ m.HasRoom r f
    · rw [onData_accepted accepts.1 accepts.2]
      exact Or.inr (Or.inr ⟨trivial, accepts.1, accepts.2, Changed.of_store rfl rfl rfl, rfl⟩)
    · have refuses : r.state.canRecv = true → ¬ m.HasRoom r f :=
        fun receiving room => accepts ⟨receiving, room⟩
      by_cases half : m.HalfCharged r f
      · rw [onData_halfCharged half]
        refine Or.inr (Or.inl ⟨_, store_changed _ _ _, rfl, rfl, fun _ => ?_, fun _ => ⟨_, rfl⟩⟩)
        have room := half.2.2.1
        dsimp only
        omega
      · rw [onData_untouched refuses half]
        exact Or.inl rfl
  | window =>
    simp only [dispatch, type]
    split
    · exact Or.inl rfl
    · refine Or.inr (Or.inl ⟨_, store_changed _ _ _, rfl, rfl, fun wide => ?_, fun _ => ⟨_, rfl⟩⟩)
      unfold slFlowGrantSend
      split <;> exact wide
  | reset =>
    simp only [dispatch, type]
    exact Or.inr (Or.inl ⟨_, Changed.of_store rfl rfl rfl, rfl, rfl, fun wide => wide,
      fun noReset => absurd rfl noReset⟩)
  | invalid | ping | pong => exact Or.inl (by simp only [dispatch, type])

/-- Everything `on_frame` can do to records, buffers and the session's windows. -/
theorem onFrame_effect (m : StreamMultiplexer) (f : SlStreamFrame) :
    (m.onFrame f).1.initialWindow = m.initialWindow ∧
    (∀ other, (m.onFrame f).1.Known other → m.Known other ∨ other ≠ slStreamIdControl) ∧
    ((∃ r' : StreamRecord, (∀ other, (m.onFrame f).1.recordOf other =
          if other = f.streamId then r' else m.recordOf other) ∧
        (m.onFrame f).1.sessionFlow = m.sessionFlow ∧
        r'.inbound = (m.recordOf f.streamId).inbound ∧
        (0 ≤ (m.recordOf f.streamId).flow.recvWindow → 0 ≤ r'.flow.recvWindow) ∧
        (f.type ≠ .reset → ∃ flow, r' = { m.recordOf f.streamId with flow })) ∨
      (f.type = .data ∧ (m.recordOf f.streamId).state.canRecv = true ∧
        m.HasRoom (m.recordOf f.streamId) f ∧
        Changed m (m.onFrame f).1 f.streamId (received (m.recordOf f.streamId) f) ∧
        (m.onFrame f).1.sessionFlow = { m.sessionFlow with
          recvWindow := m.sessionFlow.recvWindow - f.payload.1.length })) := by
  -- a multiplexer whose records are the old ones, as the first disjunct
  have idle : ∀ m₁ : StreamMultiplexer, Unchanged m m₁ → ∀ other, m₁.recordOf other =
      if other = f.streamId then m.recordOf f.streamId else m.recordOf other := by
    intro m₁ same other
    rw [same.record other]
    split
    next here => rw [here]
    · rfl
  rcases onFrame_dispatch m f with ⟨nonzero, _, m₁, result, same, known, session, _⟩ |
    ⟨_, m₁, answer, result, same, known, session, _⟩
  · rw [result]
    have learns : ∀ other, m₁.Known other ∨ other = f.streamId →
        m.Known other ∨ other ≠ slStreamIdControl := by
      intro other knows
      rw [known other, or_assoc, or_self] at knows
      rcases knows with knows | rfl
      · exact Or.inl knows
      · exact Or.inr nonzero
    rcases dispatch_cases m₁ f (m.recordOf f.streamId) with
      h | ⟨r', changed, kept, inbound, wide, flow⟩ | ⟨data, receiving, room, changed, charged⟩
    · rw [h]
      exact ⟨same.window, fun other knows => learns other (Or.inl knows),
        Or.inl ⟨_, idle m₁ same, session, rfl, fun wide => wide, fun _ => ⟨_, rfl⟩⟩⟩
    · have whole := same.then_changed known changed
      exact ⟨whole.window, fun other knows => learns other ((changed.known other).mp knows),
        Or.inl ⟨r', whole.record, kept.trans session, inbound, wide, flow⟩⟩
    · have whole := same.then_changed known changed
      rw [HasRoom, session] at room
      rw [session] at charged
      exact ⟨whole.window, fun other knows => learns other ((changed.known other).mp knows),
        Or.inr ⟨data, receiving, room, whole, charged⟩⟩
  · rw [result]
    exact ⟨same.window, fun other knows => Or.inl ((known other).mp knows),
      Or.inl ⟨_, idle m₁ same, session, rfl, fun wide => wide, fun _ => ⟨_, rfl⟩⟩⟩

/-- Everything `on_frame` can do with a frame that is not a RESET. -/
theorem onFrame_cases (m : StreamMultiplexer) (f : SlStreamFrame) (noReset : f.type ≠ .reset) :
    (Unchanged m (m.onFrame f).1 ∧ (m.onFrame f).1.sessionFlow = m.sessionFlow) ∨
    (f.type = .data ∧ (m.recordOf f.streamId).state.canRecv = true ∧
      m.HasRoom (m.recordOf f.streamId) f ∧
      Changed m (m.onFrame f).1 f.streamId (received (m.recordOf f.streamId) f)) ∨
    (∃ flow, Changed m (m.onFrame f).1 f.streamId { m.recordOf f.streamId with flow }) := by
  rcases onFrame_dispatch m f with ⟨_, _, m₁, result, same, known, session, _⟩ |
    ⟨_, m₁, answer, result, same, _, session, _⟩
  · rw [result]
    rcases dispatch_cases m₁ f (m.recordOf f.streamId) with
      h | ⟨r', changed, _, _, _, flowOnly⟩ | ⟨data, receiving, room, changed, _⟩
    · rw [h]
      exact Or.inl ⟨same, session⟩
    · obtain ⟨flow, rfl⟩ := flowOnly noReset
      exact Or.inr (Or.inr ⟨flow, same.then_changed known changed⟩)
    · rw [HasRoom, session] at room
      exact Or.inr (Or.inl ⟨data, receiving, room, same.then_changed known changed⟩)
  · rw [result]
    exact Or.inl ⟨same, session⟩

/-! ## pop_outbound and read_inbound -/

/-- A stream with something to send. -/
def Waiting (m : StreamMultiplexer) (id : UInt32) : Prop := (m.recordOf id).outbound ≠ []

instance (m : StreamMultiplexer) (id : UInt32) : Decidable (m.Waiting id) :=
  inferInstanceAs (Decidable ((m.recordOf id).outbound ≠ []))

theorem Waiting.known (waiting : m.Waiting id) : m.Known id := by
  by_contra absent
  rw [Waiting, recordOf_unknown absent] at waiting
  exact waiting rfl

/-- What the scan of `pop_outbound` finds at one stream in one band. -/
def readyAt (m : StreamMultiplexer) (band : Nat) (id : UInt32) :
    Option (UInt32 × StreamRecord × Chunk × List Chunk) :=
  (m.find id).bind fun r =>
    if r.priority.band ≠ band then none
    else r.outbound.head?.map fun chunk => (id, r, chunk, r.outbound.tail)

theorem nextReady_eq (m : StreamMultiplexer) (order : List UInt32) :
    m.nextReady order =
      (List.range slPriorityCount).findSome? fun band => order.findSome? (m.readyAt band) := by
  unfold nextReady
  congr 1
  funext band
  congr 1
  funext id
  unfold readyAt
  cases m.find id with
  | none => rfl
  | some r => cases queue : r.outbound <;> simp [queue]

theorem readyAt_some {band : Nat} {id' : UInt32} {chunk : Chunk} {rest : List Chunk}
    (h : m.readyAt band id = some (id', r, chunk, rest)) :
    id' = id ∧ m.find id = some r ∧ r.priority.band = band ∧ r.outbound = chunk :: rest := by
  obtain ⟨r', found, hit⟩ := Option.bind_eq_some_iff.mp h
  split at hit
  · cases hit
  next inBand =>
    obtain ⟨first, head, same⟩ := Option.map_eq_some_iff.mp hit
    cases same
    exact ⟨rfl, found, not_not.mp inBand, (List.cons_head?_tail head).symm⟩

theorem readyAt_none {band : Nat} (h : m.readyAt band id = none) (waiting : m.Waiting id) :
    (m.recordOf id).priority.band ≠ band := by
  intro inBand
  obtain ⟨r, found⟩ := Option.isSome_iff_exists.mp waiting.known
  rw [Waiting, find_eq_recordOf found] at waiting
  rw [find_eq_recordOf found] at inBand
  simp [readyAt, found, inBand, waiting] at h

theorem band_lt (p : SlPriority) : p.band < slPriorityCount := by cases p <;> decide

/-- The scan stops at the most urgent band with something to send, and in it at the stream
that comes first. -/
theorem nextReady_some {order : List UInt32} {chunk : Chunk} {rest : List Chunk}
    (h : m.nextReady order = some (id, r, chunk, rest)) :
    m.find id = some r ∧ r.outbound = chunk :: rest ∧
    ∀ other ∈ order, m.Waiting other → r.priority.band ≤ (m.recordOf other).priority.band ∧
      ((m.recordOf other).priority.band = r.priority.band → order.idxOf id ≤ order.idxOf other) := by
  rw [nextReady_eq] at h
  obtain ⟨earlier, band, later, range, scan, idle⟩ := List.findSome?_eq_some_iff.mp h
  obtain ⟨before, id', after, split, hit, skipped⟩ := List.findSome?_eq_some_iff.mp scan
  obtain ⟨rfl, found, rfl, queue⟩ := readyAt_some hit
  refine ⟨found, queue, fun other member waiting => ⟨?_, fun inBand => ?_⟩⟩
  · by_contra lower
    have inRange : (m.recordOf other).priority.band ∈ List.range slPriorityCount :=
      List.mem_range.mpr (band_lt _)
    have sorted := List.pairwise_lt_range (n := slPriorityCount)
    rw [range] at inRange sorted
    have first : (m.recordOf other).priority.band ∈ earlier := by
      rcases List.mem_append.mp inRange with first | notFirst
      · exact first
      · rcases List.mem_cons.mp notFirst with same | second
        · omega
        · have := (List.pairwise_cons.mp (List.pairwise_append.mp sorted).2.1).1 _ second
          omega
    have nothing := List.findSome?_eq_none_iff.mp (idle _ first) other member
    exact readyAt_none nothing waiting rfl
  · have behind : other ∉ before := fun inFront => readyAt_none (skipped other inFront) waiting inBand
    rw [split, List.idxOf_append, List.idxOf_append, if_neg behind]
    split
    next inFront =>
      have := List.idxOf_lt_length_iff.mpr inFront
      omega
    · rw [List.idxOf_cons_self]
      omega

theorem popOutbound_cases (m : StreamMultiplexer) (order : List UInt32) :
    m.popOutbound order = (m, none) ∨
    ∃ id chunk rest, m.Known id ∧ (m.recordOf id).outbound = chunk :: rest ∧
      (m.popOutbound order).2 = some (outboundFrame id (m.recordOf id) chunk rest) ∧
      Changed m (m.popOutbound order).1 id { m.recordOf id with outbound := rest } ∧
      (m.popOutbound order).1.sessionFlow = m.sessionFlow ∧
      (m.popOutbound order).1.idAlloc = m.idAlloc := by
  unfold popOutbound
  cases ready : m.nextReady order with
  | none => exact Or.inl rfl
  | some next =>
    obtain ⟨id, r, chunk, rest⟩ := next
    obtain ⟨found, queue, _⟩ := nextReady_some ready
    have here := find_eq_recordOf found
    refine Or.inr ⟨id, chunk, rest, by simp [Known, found], here ▸ queue, by rw [here], ?_, rfl, rfl⟩
    rw [here]
    exact Changed.of_store rfl rfl rfl

/-- A frame comes from a stream that waited, and no stream that waited comes before it: by
band, and by the iteration order within the band. -/
theorem popOutbound_first {order : List UInt32} (popped : (m.popOutbound order).2 = some f) :
    m.Waiting f.streamId ∧
    ∀ other ∈ order, m.Waiting other →
      (m.recordOf f.streamId).priority.band ≤ (m.recordOf other).priority.band ∧
      ((m.recordOf other).priority.band = (m.recordOf f.streamId).priority.band →
        order.idxOf f.streamId ≤ order.idxOf other) := by
  unfold popOutbound at popped
  cases ready : m.nextReady order with
  | none =>
    rw [ready] at popped
    cases popped
  | some next =>
    obtain ⟨id, r, chunk, rest⟩ := next
    rw [ready] at popped
    cases popped
    obtain ⟨found, queue, first⟩ := nextReady_some ready
    have here := find_eq_recordOf found
    refine ⟨?_, ?_⟩
    · simp only [Waiting, outboundFrame, here, queue]
      exact List.cons_ne_nil _ _
    · simp only [outboundFrame, here]
      exact first

theorem popOutbound_none {order : List UInt32} (nothing : (m.popOutbound order).2 = none)
    (id : UInt32) (member : id ∈ order) : ¬ m.Waiting id := by
  intro waiting
  cases ready : m.nextReady order with
  | none =>
    rw [nextReady_eq] at ready
    have idle := List.findSome?_eq_none_iff.mp
      (List.findSome?_eq_none_iff.mp ready _
        (List.mem_range.mpr (band_lt (m.recordOf id).priority))) id member
    exact readyAt_none idle waiting rfl
  | some next =>
    rw [popOutbound, ready] at nothing
    cases nothing

theorem outboundFrame_fin (id : UInt32) (r : StreamRecord) (chunk : Chunk) (rest : List Chunk) :
    (outboundFrame id r chunk rest).fin = true ↔
      rest = [] ∧ r.state.phase = .kHalfClosedLocal := by
  simp only [SlStreamFrame.fin, outboundFrame, List.isEmpty_iff]
  split
  next h => exact iff_of_true (by decide) h
  next h => exact iff_of_false (by decide) h

/-- A grant never narrows a window. -/
theorem slFlowGrantRecv_spec (fc : SlFlowCtrl) (bytes : Nat) :
    (slFlowGrantRecv fc bytes).1.sendCredit = fc.sendCredit ∧
    fc.recvWindow ≤ (slFlowGrantRecv fc bytes).1.recvWindow := by
  unfold slFlowGrantRecv
  split
  · exact ⟨rfl, Int.le_refl _⟩
  · exact ⟨rfl, by simp⟩

/-- A grant never widens a window by more than it says. -/
theorem slFlowGrantRecv_le (fc : SlFlowCtrl) (bytes : Nat) :
    (slFlowGrantRecv fc bytes).1.recvWindow ≤ fc.recvWindow + bytes := by
  unfold slFlowGrantRecv
  split
  · dsimp only
    omega
  · exact Int.le_refl _

theorem readInbound_spec (m : StreamMultiplexer) (id : UInt32) :
    (m.readInbound id).2 = (m.recordOf id).inbound ∧
    (m.readInbound id).1.role = m.role ∧
    (m.readInbound id).1.initialWindow = m.initialWindow ∧
    (∃ flow : SlFlowCtrl, flow.sendCredit = (m.recordOf id).flow.sendCredit ∧
      (m.recordOf id).flow.recvWindow ≤ flow.recvWindow ∧
      ∀ other, (m.readInbound id).1.recordOf other =
        if other = id then { m.recordOf id with inbound := [], flow } else m.recordOf other) ∧
    (∀ other, (m.readInbound id).1.Known other ↔ m.Known other) ∧
    (m.readInbound id).1.sessionFlow.sendCredit = m.sessionFlow.sendCredit ∧
    m.sessionFlow.recvWindow ≤ (m.readInbound id).1.sessionFlow.recvWindow ∧
    (m.readInbound id).1.idAlloc = m.idAlloc := by
  cases found : m.find id with
  | none =>
    have result : m.readInbound id = (m, []) := by simp [readInbound, found]
    have here : m.recordOf id = m.newRecord id := by simp [recordOf, found]
    rw [result]
    refine ⟨by rw [here]; rfl, rfl, rfl, ⟨(m.recordOf id).flow, rfl, Int.le_refl _, fun other => ?_⟩,
      fun _ => Iff.rfl, rfl, Int.le_refl _, rfl⟩
    split
    next same => rw [same, here]; rfl
    · rfl
  | some r =>
    have here := find_eq_recordOf found
    have known : m.Known id := by simp [Known, found]
    obtain ⟨credit, window⟩ := slFlowGrantRecv_spec r.flow (r.inbound.length % 2 ^ 32)
    obtain ⟨sessionCredit, sessionWindow⟩ :=
      slFlowGrantRecv_spec m.sessionFlow (r.inbound.length % 2 ^ 32)
    have changed : Changed m (m.readInbound id).1 id { r with
        inbound := [], flow := (slFlowGrantRecv r.flow (r.inbound.length % 2 ^ 32)).1 } := by
      simp only [readInbound, found]
      exact Changed.of_store rfl rfl rfl
    refine ⟨by simp [readInbound, found, here], changed.role, changed.window,
      ⟨_, by rw [credit, here], by rw [here]; exact window, fun other => ?_⟩,
      changed.known_iff known, ?_, ?_, ?_⟩
    · rw [changed.record other, here]
    all_goals simp only [readInbound, found]
    · exact sessionCredit
    · exact sessionWindow
    · rfl

/-- The session gets back at most what was read: the length is cut to 32 bits and the grant
may be refused. -/
theorem readInbound_session (m : StreamMultiplexer) (id : UInt32) :
    (m.readInbound id).1.sessionFlow.recvWindow ≤
      m.sessionFlow.recvWindow + (m.recordOf id).inbound.length := by
  cases found : m.find id with
  | none =>
    simp only [readInbound, found]
    omega
  | some r =>
    have granted := slFlowGrantRecv_le m.sessionFlow (r.inbound.length % 2 ^ 32)
    have cut : r.inbound.length % 2 ^ 32 ≤ r.inbound.length := Nat.mod_le _ _
    simp only [readInbound, found, find_eq_recordOf found]
    omega

theorem resetStream_cases (m : StreamMultiplexer) (id : UInt32) (reason : String) :
    m.resetStream id reason = (m, false) ∨
    m.Known id ∧ Changed m (m.resetStream id reason).1 id
        { m.recordOf id with state := (m.recordOf id).state.reset reason } ∧
      (m.resetStream id reason).1.sessionFlow = m.sessionFlow ∧
      (m.resetStream id reason).1.idAlloc = m.idAlloc := by
  unfold resetStream
  cases found : m.find id with
  | none => exact Or.inl rfl
  | some r =>
    refine Or.inr ⟨by simp [Known, found], ?_, rfl, rfl⟩
    rw [find_eq_recordOf found]
    exact Changed.of_store rfl rfl rfl

/-- A reset sets the state of a stream and nothing else that a record holds. -/
theorem resetStream_spec (m : StreamMultiplexer) (id : UInt32) (reason : String) :
    (m.resetStream id reason).1.initialWindow = m.initialWindow ∧
    (m.resetStream id reason).1.sessionFlow = m.sessionFlow ∧
    (∀ other, ∃ state, (m.resetStream id reason).1.recordOf other =
      { m.recordOf other with state }) ∧
    (∀ other, (m.resetStream id reason).1.Known other ↔ m.Known other) := by
  rcases m.resetStream_cases id reason with same | ⟨knows, changed, session, _⟩
  · rw [same]
    exact ⟨rfl, rfl, fun other => ⟨_, rfl⟩, fun _ => Iff.rfl⟩
  · refine ⟨changed.window, session, ?_, changed.known_iff knows⟩
    exact recordOf_related changed.record
      (Q := fun before after => ∃ state, after = { before with state })
      (fun _ => ⟨_, rfl⟩) ⟨_, rfl⟩

/-! ## The two closed sides of a stream -/

/-- A DATA frame with nothing but the FIN. -/
def bareFin (id : UInt32) : SlStreamFrame :=
  { type := .data, flags := slStreamFlagFin, streamId := id, payload := ⟨[], Nat.two_pow_pos 16⟩ }

def LocalClosed (r : StreamRecord) : Prop :=
  r.state.phase = .kHalfClosedLocal ∨ r.state.phase = .kClosed

def RemoteClosed (r : StreamRecord) : Prop :=
  r.state.phase = .kHalfClosedRemote ∨ r.state.phase = .kClosed

theorem canSend_not_closed (h : r.state.canSend = true) : ¬ LocalClosed r := by
  rintro (closed | closed) <;> simp [StreamState.canSend, closed] at h

theorem canRecv_of_not_closed (opened : r.state.phase ≠ .kIdle) (h : ¬ RemoteClosed r) :
    r.state.canRecv = true := by
  cases phase : r.state.phase <;> simp_all [RemoteClosed, StreamState.canRecv]

theorem sent_closed (data : Chunk) (fin : Bool) :
    (LocalClosed r → LocalClosed (sent r data fin)) ∧
    (RemoteClosed (sent r data fin) → RemoteClosed r) ∧
    (r.state.phase ≠ .kIdle → (sent r data fin).state.phase ≠ .kIdle) := by
  obtain ⟨_, _, _, state⟩ := sent_spec r data fin
  simp only [LocalClosed, RemoteClosed, state]
  cases fin <;> cases phase : r.state.phase <;> simp [StreamState.onSentFin, phase]

theorem received_closed (f : SlStreamFrame) :
    (LocalClosed (received r f) ↔ LocalClosed r) ∧
    (RemoteClosed (received r f) → RemoteClosed r ∨ f.fin = true) ∧
    (r.state.phase ≠ .kIdle → (received r f).state.phase ≠ .kIdle) := by
  by_cases fin : f.fin = true
  · cases phase : r.state.phase <;>
      simp [LocalClosed, RemoteClosed, received, StreamState.onRecvFin, phase, fin]
  · simp [LocalClosed, RemoteClosed, received, fin]

theorem received_fields (r : StreamRecord) (f : SlStreamFrame) :
    (received r f).flow =
      { r.flow with recvWindow := r.flow.recvWindow - f.payload.1.length } ∧
    (received r f).inbound = r.inbound ++ f.payload.1 ∧
    (received r f).outbound = r.outbound := by
  unfold received
  split <;> exact ⟨rfl, rfl, rfl⟩

/-! ## Identities and closed streams -/

/-- The switch of `on_frame` hands out no ids and creates no stream. -/
theorem dispatch_identity (r : StreamRecord) (knows : m.Known f.streamId) :
    (m.dispatch f r).1.role = m.role ∧ (m.dispatch f r).1.idAlloc = m.idAlloc ∧
    (∀ other, (m.dispatch f r).1.Known other ↔ m.Known other) ∧
    ∀ other, other ≠ f.streamId → (m.dispatch f r).1.recordOf other = m.recordOf other := by
  have alloc : (m.dispatch f r).1.idAlloc = m.idAlloc := by
    unfold dispatch
    cases f.type with
    | data =>
      simp only [onData]
      split_ifs <;> rfl
    | window =>
      dsimp only
      split_ifs <;> rfl
    | reset | invalid | ping | pong => rfl
  have changes : (m.dispatch f r).1 = m ∨ ∃ r', Changed m (m.dispatch f r).1 f.streamId r' := by
    rcases dispatch_cases m f r with same | ⟨_, changed, _⟩ | ⟨_, _, _, changed, _⟩
    · exact Or.inl same
    · exact Or.inr ⟨_, changed⟩
    · exact Or.inr ⟨_, changed⟩
  rcases changes with same | ⟨_, changed⟩
  · rw [same]
    exact ⟨rfl, rfl, fun _ => Iff.rfl, fun _ _ => rfl⟩
  · exact ⟨changed.role, alloc, changed.known_iff knows,
      fun other different => by rw [changed.record other, if_neg different]⟩

/-- A closed stream stays closed under any frame and refuses DATA. -/
theorem dispatch_closed (here : m.recordOf f.streamId = r) (closed : r.state.phase = .kClosed) :
    ((m.dispatch f r).1.recordOf f.streamId).state.phase = .kClosed ∧
    (f.type = .data → (m.dispatch f r).2 = false) := by
  have refuses : r.state.canRecv = false := by simp [StreamState.canRecv, closed]
  cases type : f.type with
  | data =>
    simp only [dispatch, type, onData, refuses, Bool.not_false, if_true]
    exact ⟨by rw [here, closed], fun _ => trivial⟩
  | window =>
    simp only [dispatch, type]
    refine ⟨?_, fun data => by cases data⟩
    split
    · rw [here, closed]
    · rw [(store_changed _ _ _).record, if_pos rfl]
      exact closed
  | reset =>
    have changed : Changed m (m.dispatch f r).1 f.streamId
        { r with state := r.state.reset "peer_reset" } := by
      simp only [dispatch, type]
      exact Changed.of_store rfl rfl rfl
    refine ⟨?_, fun data => by cases data⟩
    rw [changed.record, if_pos rfl]
    rfl
  | invalid | ping | pong =>
    simp only [dispatch, type]
    exact ⟨by rw [here, closed], fun data => by cases data⟩

/-- What `on_frame` does to the set of streams: a stream that did not exist is the peer's. -/
theorem onFrame_identity (m : StreamMultiplexer) (f : SlStreamFrame) :
    (m.onFrame f).1.role = m.role ∧ (m.onFrame f).1.idAlloc = m.idAlloc ∧
    (∀ other, (m.onFrame f).1.Known other → m.Known other ∨
      other = f.streamId ∧ slStreamIdBelongsToPeer other m.role = true) ∧
    (∀ other, m.Known other → (m.onFrame f).1.Known other) ∧
    ∀ other, other ≠ f.streamId → (m.onFrame f).1.recordOf other = m.recordOf other := by
  rcases onFrame_dispatch m f with ⟨_, reachable, m₁, result, same, known, _, alloc⟩ |
    ⟨_, m₁, answer, result, same, known, _, alloc⟩
  · obtain ⟨role, alloc', known', others⟩ :=
      dispatch_identity (m.recordOf f.streamId) ((known f.streamId).mpr (Or.inr rfl))
    rw [result]
    refine ⟨role.trans same.role, alloc'.trans alloc, fun other knows => ?_, fun other knows => ?_,
      fun other different => (others other different).trans (same.record other)⟩
    · rcases (known other).mp ((known' other).mp knows) with before | rfl
      · exact Or.inl before
      · exact reachable.imp_right fun peers => ⟨rfl, peers⟩
    · exact (known' other).mpr ((known other).mpr (Or.inl knows))
  · rw [result]
    exact ⟨same.role, alloc, fun other knows => Or.inl ((known other).mp knows),
      fun other knows => (known other).mpr knows, fun other _ => same.record other⟩

/-- A closed stream stays closed under any frame and refuses DATA. -/
theorem onFrame_closed (knows : m.Known id) (nonzero : id ≠ slStreamIdControl)
    (closed : (m.recordOf id).state.phase = .kClosed) :
    ((m.onFrame f).1.recordOf id).state.phase = .kClosed ∧
    (f.streamId = id → f.type = .data → (m.onFrame f).2 = false) := by
  by_cases same : f.streamId = id
  · subst same
    rcases onFrame_dispatch m f with ⟨_, _, m₁, result, unchanged, _⟩ | ⟨unreachable, _⟩
    · rw [result]
      obtain ⟨stays, refuses⟩ := dispatch_closed (unchanged.record f.streamId) closed
      exact ⟨stays, fun _ => refuses⟩
    · exact absurd ⟨nonzero, Or.inl knows⟩ unreachable
  · obtain ⟨_, _, _, _, others⟩ := onFrame_identity m f
    refine ⟨?_, fun here => absurd here same⟩
    rw [others id (Ne.symm same)]
    exact closed

end StreamMultiplexer
end SecureLink.Source.Streams
