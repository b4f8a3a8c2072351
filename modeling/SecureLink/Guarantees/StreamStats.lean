import SecureLink.Guarantees.StreamWindows

/-!
# Statistics of the multiplexer

`streams_opened` counts the records ever created, and no record is removed. The one place that
raises `streams_closed` (src/stream_multiplexer.cpp:168) asks for a stream whose FIN has
arrived and whose remote side is still open; there is none, as the FIN closes that side. So
`streams_closed` stays zero, and the account balances as long as no stream is closed.
-/
namespace SecureLink.Guarantees.StreamStats
open Library.BigEndian Library.Runs Source.Streams StreamMultiplexer
open StreamWindows (Call step)

/-! ## The counters -/

/-- Every record is counted as opened and none as closed. -/
structure Counted (m : StreamMultiplexer) : Prop where
  opened : m.stats.streamsOpened = UInt64.ofNat m.streams.keys.length
  closed : m.stats.streamsClosed = 0

section Counters

variable {m : StreamMultiplexer}

theorem length_insert_known {id : UInt32} (knows : m.Known id) (r : StreamRecord) :
    (m.streams.insert id r).keys.length = m.streams.keys.length := by
  have member := (m.known_iff_mem_keys id).mp knows
  rw [AList.keys_insert, List.length_cons, List.length_erase_add_one member]

theorem length_insert_new {id : UInt32} (absent : m.find id = none) (r : StreamRecord) :
    (m.streams.insert id r).keys.length = m.streams.keys.length + 1 := by
  have unknown : id ∉ m.streams.keys := by
    rw [← m.known_iff_mem_keys, Known, absent]
    exact Bool.false_ne_true
  rw [AList.keys_insert, List.length_cons, List.erase_of_not_mem unknown]

theorem Counted.store (h : Counted m) {id : UInt32} (knows : m.Known id) (r : StreamRecord) :
    Counted (m.store id r) where
  opened := by
    change m.stats.streamsOpened = UInt64.ofNat (m.streams.insert id r).keys.length
    rw [length_insert_known knows, h.opened]
  closed := h.closed

theorem known_of_find {id : UInt32} {r : StreamRecord} (found : m.find id = some r) : m.Known id := by
  rw [Known, found]
  rfl

theorem Counted.findOrCreate (h : Counted m) (id : UInt32) :
    Counted (m.findOrCreate id).1 ∧ (m.findOrCreate id).1.Known id := by
  refine ⟨?_, ((findOrCreate_spec m id).2.2.1 id).mpr (Or.inr rfl)⟩
  unfold StreamMultiplexer.findOrCreate
  cases absent : m.find id with
  | some r => exact h
  | none =>
    refine ⟨?_, h.closed⟩
    change m.stats.streamsOpened + 1 = UInt64.ofNat (m.streams.insert id _).keys.length
    rw [length_insert_new absent, h.opened, UInt64.ofNat_add]
    rfl

theorem Counted.openStream (h : Counted m) (prio : SlPriority) : Counted (m.openStream prio).1 := by
  unfold StreamMultiplexer.openStream
  dsimp only
  split
  · exact ⟨h.opened, h.closed⟩
  · have moved : Counted { m with idAlloc := (slStreamIdNext m.idAlloc).1 } := ⟨h.opened, h.closed⟩
    obtain ⟨created, knows⟩ := moved.findOrCreate (slStreamIdNext m.idAlloc).2
    exact created.store knows _

theorem chargeOutbound_frame {m' : StreamMultiplexer} {r r' : StreamRecord} {data : Chunk}
    (charged : m.chargeOutbound r data = some (m', r')) :
    m'.streams = m.streams ∧ m'.stats = m.stats := by
  unfold chargeOutbound at charged
  split_ifs at charged
  · cases charged
    exact ⟨rfl, rfl⟩
  · cases charged
    exact ⟨rfl, rfl⟩

theorem Counted.sendData (h : Counted m) (id : UInt32) (data : Bytes) (fin : Bool) :
    Counted (m.sendData id data fin).1 := by
  unfold StreamMultiplexer.sendData
  cases found : m.find id with
  | none => exact h
  | some r =>
    dsimp only
    split
    · exact h
    · split
      · exact h
      · split
        · exact ⟨h.opened, h.closed⟩
        next m' r' charged =>
          obtain ⟨streams, stats⟩ := chargeOutbound_frame charged
          have knows : m'.Known id := by
            rw [Known, find, streams]
            exact known_of_find found
          have counted : Counted m' := ⟨by rw [streams, stats, h.opened], by rw [stats, h.closed]⟩
          exact counted.store knows _

theorem Counted.onData (h : Counted m) {f : SlStreamFrame} (knows : m.Known f.streamId)
    (r : StreamRecord) : Counted (m.onData f r).1 := by
  by_cases accepts : r.state.canRecv = true ∧ m.HasRoom r f
  · rw [onData_accepted accepts.1 accepts.2]
    exact ⟨(h.store knows (received r f)).opened, h.closed⟩
  · by_cases half : m.HalfCharged r f
    · rw [onData_halfCharged half]
      exact h.store knows _
    · rw [onData_untouched (fun receiving room => accepts ⟨receiving, room⟩) half]
      exact h

theorem Counted.dispatch (h : Counted m) {f : SlStreamFrame} (knows : m.Known f.streamId)
    (r : StreamRecord) : Counted (m.dispatch f r).1 := by
  unfold StreamMultiplexer.dispatch
  cases f.type with
  | data => exact h.onData knows r
  | window =>
    dsimp only
    split_ifs
    · exact h
    · exact h.store knows _
  | reset => exact ⟨(h.store knows _).opened, h.closed⟩
  | invalid | ping | pong => exact h

theorem Counted.onFrame (h : Counted m) (f : SlStreamFrame) : Counted (m.onFrame f).1 := by
  have counted : Counted { m with stats := { m.stats with
      framesIn := m.stats.framesIn + 1
      bytesIn := m.stats.bytesIn + UInt64.ofNat f.payload.1.length } } := ⟨h.opened, h.closed⟩
  unfold StreamMultiplexer.onFrame
  dsimp only
  split
  · exact counted
  · split
    next r found => exact counted.dispatch (known_of_find found) r
    · split
      · exact counted
      · obtain ⟨created, knows⟩ := counted.findOrCreate f.streamId
        exact created.dispatch knows _

theorem Counted.popOutbound (h : Counted m) (order : List UInt32) : Counted (m.popOutbound order).1 := by
  unfold StreamMultiplexer.popOutbound
  cases ready : m.nextReady order with
  | none => exact h
  | some next =>
    obtain ⟨id, r, chunk, rest⟩ := next
    have knows := known_of_find (nextReady_some ready).1
    exact ⟨(h.store knows _).opened, h.closed⟩

theorem Counted.resetStream (h : Counted m) (id : UInt32) (reason : String) :
    Counted (m.resetStream id reason).1 := by
  unfold StreamMultiplexer.resetStream
  cases found : m.find id with
  | none => exact h
  | some r => exact ⟨(h.store (known_of_find found) _).opened, h.closed⟩

end Counters

/-! ## A FIN that has arrived has closed the remote side -/

def FinCloses (r : StreamRecord) : Prop := r.inboundFin = true → RemoteClosed r

theorem sent_finCloses {r : StreamRecord} (h : FinCloses r) (data : Chunk) (fin : Bool) :
    FinCloses (sent r data fin) := by
  intro arrived
  have before : RemoteClosed r := h (by cases fin <;> exact arrived)
  obtain ⟨-, -, -, state⟩ := sent_spec r data fin
  rw [RemoteClosed, state]
  rcases before with half | closed
  · cases fin <;> simp [StreamState.onSentFin, half]
  · cases fin <;> simp [StreamState.onSentFin, closed]

theorem received_finCloses {r : StreamRecord} (receiving : r.state.canRecv = true) (h : FinCloses r)
    (f : SlStreamFrame) : FinCloses (received r f) := by
  intro arrived
  by_cases fin : f.fin = true
  · cases phase : r.state.phase <;>
      simp [StreamState.canRecv, phase] at receiving <;>
      simp [RemoteClosed, received, fin, StreamState.onRecvFin, phase]
  · simp only [received, fin] at arrived ⊢
    exact h arrived

/-- In every stream, existing or to be created. -/
def FinsClose (m : StreamMultiplexer) : Prop := ∀ id, FinCloses (m.recordOf id)

section Fins

variable {m m' : StreamMultiplexer}

theorem FinsClose.unchanged (h : FinsClose m) (record : ∀ other, m'.recordOf other = m.recordOf other) :
    FinsClose m' := by
  intro other
  rw [record other]
  exact h other

theorem FinsClose.changed (h : FinsClose m) {id : UInt32} {r : StreamRecord}
    (record : ∀ other, m'.recordOf other = if other = id then r else m.recordOf other)
    (here : FinCloses r) : FinsClose m' := by
  intro other
  rw [record other]
  split
  · exact here
  · exact h other

theorem FinsClose.onFrame (h : FinsClose m) (f : SlStreamFrame) : FinsClose (m.onFrame f).1 := by
  by_cases reset : f.type = .reset
  · rcases onFrame_dispatch m f with ⟨_, _, m₁, result, same, _⟩ | ⟨_, m₁, _, result, same, _⟩
    · have changed : Changed m₁ (m₁.dispatch f (m.recordOf f.streamId)).1 f.streamId
          { m.recordOf f.streamId with state := (m.recordOf f.streamId).state.reset "peer_reset" } := by
        simp only [dispatch, reset]
        exact Changed.of_store rfl rfl rfl
      rw [result]
      exact (h.unchanged same.record).changed changed.record fun _ => Or.inr rfl
    · rw [result]
      exact h.unchanged same.record
  · rcases onFrame_cases m f reset with ⟨same, _⟩ | ⟨_, receiving, _, changed⟩ | ⟨flow, changed⟩
    · exact h.unchanged same.record
    · exact h.changed changed.record (received_finCloses receiving (h f.streamId) f)
    · exact h.changed changed.record (h f.streamId)

theorem FinsClose.step (h : FinsClose m) (call : Call) : FinsClose (step m call).1 := by
  cases call with
  | openStream prio =>
    intro other
    obtain ⟨_, _, _, _, _, record, _⟩ := m.openStream_spec prio
    obtain ⟨p, same⟩ := record other
    rw [StreamWindows.step, same]
    exact h other
  | sendData id data fin =>
    rcases m.sendData_cases id data fin with ⟨_, same, _⟩ | ⟨_, _, _, short, _, changed, _⟩
    · exact h.unchanged same.record
    · exact h.changed changed.record (sent_finCloses (h id) _ fin)
  | onFrame f => exact h.onFrame f
  | popOutbound order =>
    rcases m.popOutbound_cases order with same | ⟨id, _, _, _, _, _, changed, _⟩
    · rw [StreamWindows.step, same]
      exact h
    · exact h.changed changed.record (h id)
  | readInbound id =>
    obtain ⟨_, _, _, ⟨flow, _, _, record⟩, _⟩ := m.readInbound_spec id
    exact h.changed record (h id)
  | resetStream id reason =>
    rcases m.resetStream_cases id reason with same | ⟨_, changed, _⟩
    · rw [StreamWindows.step, same]
      exact h
    · exact h.changed changed.record fun _ => Or.inr rfl

/-- The branch that counts a closed stream is never taken. -/
theorem Counted.readInbound (h : Counted m) (fins : FinsClose m) (id : UInt32) :
    Counted (m.readInbound id).1 := by
  unfold StreamMultiplexer.readInbound
  cases found : m.find id with
  | none => exact h
  | some r =>
    have never : ¬ (r.inboundFin = true ∧ r.state.phase = .kHalfClosedLocal) := by
      rintro ⟨arrived, half⟩
      have closed := fins id
      rw [find_eq_recordOf found] at closed
      rcases closed arrived with remote | both
      · rw [half] at remote
        cases remote
      · rw [half] at both
        cases both
    simp only [if_neg never]
    exact ⟨(h.store (known_of_find found) _).opened, h.closed⟩

end Fins

/-! ## Runs -/

theorem step_counted {m : StreamMultiplexer} (call : Call) (h : Counted m ∧ FinsClose m) :
    Counted (step m call).1 ∧ FinsClose (step m call).1 := by
  refine ⟨?_, h.2.step call⟩
  cases call with
  | openStream prio => exact h.1.openStream prio
  | sendData id data fin => exact h.1.sendData id data fin
  | onFrame f => exact h.1.onFrame f
  | popOutbound order => exact h.1.popOutbound order
  | readInbound id => exact h.1.readInbound h.2 id
  | resetStream id reason => exact h.1.resetStream id reason

theorem run_counted (role : SlStreamRole) (window : UInt32) (calls : List Call) :
    Counted (run step (.new role window) calls) :=
  (run_invariant (fun m => Counted m ∧ FinsClose m) (fun _ call => step_counted call) calls
    ⟨⟨rfl, rfl⟩, fun _ arrived => by cases arrived⟩).1

/-- There are no more streams than ids. -/
theorem keys_length_le (m : StreamMultiplexer) : m.streams.keys.length ≤ 2 ^ 32 := by
  have distinct : (m.streams.keys.map UInt32.toNat).Nodup :=
    (List.nodup_map_iff fun _ _ => UInt32.toNat_inj.mp).mpr m.streams.nodupKeys
  have below : m.streams.keys.map UInt32.toNat ⊆ List.range (2 ^ 32) := by
    intro n member
    obtain ⟨id, -, rfl⟩ := List.mem_map.mp member
    exact List.mem_range.mpr id.toNat_lt
  have length := (List.subperm_of_subset distinct below).length_le
  rw [List.length_map, List.length_range] at length
  exact length

theorem openStreamCount_eq_iff (m : StreamMultiplexer) :
    m.openStreamCount = m.streams.keys.length ↔
      ∀ id, m.Known id → (m.recordOf id).state.isClosed = false := by
  have length : m.streams.keys.length = m.streams.entries.length := List.length_map _
  rw [openStreamCount, length, List.countP_eq_length]
  constructor
  · intro all id knows
    obtain ⟨r, found⟩ := Option.isSome_iff_exists.mp knows
    have opened := all ⟨id, r⟩ (AList.mem_lookup_iff.mp found)
    rw [find_eq_recordOf found]
    simpa using opened
  · rintro all ⟨id, r⟩ member
    have found : m.find id = some r := AList.mem_lookup_iff.mpr member
    have opened := all id (known_of_find found)
    rw [find_eq_recordOf found] at opened
    simpa using opened

/-- No stream is ever counted as closed, so the account balances exactly while none is. -/
theorem stream_balance_iff (role : SlStreamRole) (window : UInt32) (calls : List Call) :
    (run step (.new role window) calls).stats.streamsClosed = 0 ∧
    (((run step (.new role window) calls).stats.streamsOpened.toNat : Int) -
        (run step (.new role window) calls).stats.streamsClosed.toNat =
        (run step (.new role window) calls).openStreamCount ↔
      ∀ id, (run step (.new role window) calls).Known id →
        ((run step (.new role window) calls).recordOf id).state.isClosed = false) := by
  obtain ⟨opened, closed⟩ := run_counted role window calls
  have small := keys_length_le (run step (.new role window) calls)
  have value : (UInt64.ofNat (run step (.new role window) calls).streams.keys.length).toNat =
      (run step (.new role window) calls).streams.keys.length := by
    rw [UInt64.toNat_ofNat']
    exact Nat.mod_eq_of_lt (by omega)
  refine ⟨closed, ?_⟩
  rw [← openStreamCount_eq_iff, opened, closed, value, UInt64.toNat_zero]
  omega

/-- A stream that was opened, finished by both sides and read is counted as opened only. -/
theorem finished_stream_not_counted :
    let m := run step (.new .client 1000) [.openStream .normal, .sendData 1 [] true,
      .onFrame (bareFin 1), .readInbound 1]
    m.stats.streamsOpened = 1 ∧ m.stats.streamsClosed = 0 ∧ m.openStreamCount = 0 := by
  decide

end SecureLink.Guarantees.StreamStats
