import Mathlib.Algebra.BigOperators.Group.Finset.Basic
import SecureLink.Library.Runs
import SecureLink.Source.Streams.MultiplexerSteps

/-!
# Receive windows against an arbitrary peer

One multiplexer, called in any order and fed arbitrary frames. The session's receive
window and the bytes buffered over all streams never exceed the initial window together.
A DATA frame that the session refuses after the stream was charged is the one rejected
frame that leaves a trace.
-/
namespace SecureLink.Guarantees.StreamWindows
open Library.BigEndian Library.Runs Source.Streams StreamMultiplexer

/-- The calls of the public interface that change a multiplexer. -/
inductive Call where
  | openStream (prio : SlPriority)
  | sendData (id : UInt32) (data : Bytes) (fin : Bool)
  | onFrame (f : SlStreamFrame)
  | popOutbound (order : List UInt32)
  | readInbound (id : UInt32)
  | resetStream (id : UInt32) (reason : String)

def step (m : StreamMultiplexer) : Call → StreamMultiplexer × Unit
  | .openStream prio => ((m.openStream prio).1, ())
  | .sendData id data fin => ((m.sendData id data fin).1, ())
  | .onFrame f => ((m.onFrame f).1, ())
  | .popOutbound order => ((m.popOutbound order).1, ())
  | .readInbound id => ((m.readInbound id).1, ())
  | .resetStream id reason => ((m.resetStream id reason).1, ())

/-! ## Bytes buffered over all streams -/

/-- Inbound bytes that wait to be read, summed over the streams that exist. -/
def buffered (m : StreamMultiplexer) : Nat :=
  ∑ id ∈ m.streams.keys.toFinset, (m.recordOf id).inbound.length

/-- Streams that do not exist buffer nothing, so any larger set of ids gives the same sum. -/
theorem buffered_eq_sum (m : StreamMultiplexer) {ids : Finset UInt32}
    (covers : m.streams.keys.toFinset ⊆ ids) :
    buffered m = ∑ id ∈ ids, (m.recordOf id).inbound.length := by
  refine Finset.sum_subset covers fun id _ absent => ?_
  rw [List.mem_toFinset, ← known_iff_mem_keys] at absent
  rw [recordOf_unknown absent]
  rfl

/-- One buffer changed: the sum changes by as much. -/
theorem buffered_change (m m' : StreamMultiplexer) (id : UInt32)
    (others : ∀ other, other ≠ id → (m'.recordOf other).inbound = (m.recordOf other).inbound) :
    buffered m' + (m.recordOf id).inbound.length =
      buffered m + (m'.recordOf id).inbound.length := by
  let ids : Finset UInt32 := insert id (m.streams.keys.toFinset ∪ m'.streams.keys.toFinset)
  have member : id ∈ ids := Finset.mem_insert_self _ _
  have before : m.streams.keys.toFinset ⊆ ids :=
    Finset.subset_union_left.trans (Finset.subset_insert _ _)
  have after : m'.streams.keys.toFinset ⊆ ids :=
    Finset.subset_union_right.trans (Finset.subset_insert _ _)
  have rest : ∑ other ∈ ids.erase id, (m'.recordOf other).inbound.length =
      ∑ other ∈ ids.erase id, (m.recordOf other).inbound.length :=
    Finset.sum_congr rfl fun other h => by rw [others other (Finset.ne_of_mem_erase h)]
  rw [buffered_eq_sum m before, buffered_eq_sum m' after, ← Finset.sum_erase_add _ _ member,
    ← Finset.sum_erase_add ids (fun other => (m.recordOf other).inbound.length) member, rest]
  omega

theorem buffered_congr {m m' : StreamMultiplexer}
    (same : ∀ other, (m'.recordOf other).inbound = (m.recordOf other).inbound) :
    buffered m' = buffered m := by
  have change := buffered_change m m' 0 fun other _ => same other
  rw [same 0] at change
  omega

/-! ## The invariant -/

structure Bounded (window : UInt32) (m : StreamMultiplexer) : Prop where
  initial : m.initialWindow = window
  session : 0 ≤ m.sessionFlow.recvWindow
  streams : ∀ id, 0 ≤ (m.recordOf id).flow.recvWindow
  total : m.sessionFlow.recvWindow + buffered m ≤ window.toNat
  control : ¬ m.Known slStreamIdControl

/-- A call that leaves the session's receive window, every buffer and every stream's receive
window alone. -/
theorem Bounded.quiet {window : UInt32} {m m' : StreamMultiplexer} (h : Bounded window m)
    (same : m'.initialWindow = m.initialWindow)
    (session : m'.sessionFlow.recvWindow = m.sessionFlow.recvWindow)
    (record : ∀ id, (m'.recordOf id).inbound = (m.recordOf id).inbound ∧
      (m'.recordOf id).flow.recvWindow = (m.recordOf id).flow.recvWindow)
    (control : m'.Known slStreamIdControl → m.Known slStreamIdControl) : Bounded window m' where
  initial := same.trans h.initial
  session := session ▸ h.session
  streams id := (record id).2 ▸ h.streams id
  total := by
    rw [session, buffered_congr fun id => (record id).1]
    exact h.total
  control knows := h.control (control knows)

theorem bounded_new (role : SlStreamRole) (window : UInt32) :
    Bounded window (StreamMultiplexer.new role window) where
  initial := rfl
  session := Int.natCast_nonneg _
  streams _ := Int.natCast_nonneg _
  total := by simp [StreamMultiplexer.new, slFlowInitWith, buffered]
  control := by simp [StreamMultiplexer.new, Known, find]

section Calls

variable {window : UInt32} {m : StreamMultiplexer}

theorem openStream_bounded (h : Bounded window m) (prio : SlPriority) :
    Bounded window (m.openStream prio).1 := by
  obtain ⟨_, same, session, _, _, record, learns, _⟩ := m.openStream_spec prio
  refine h.quiet same (by rw [session]) (fun id => ?_) (fun knows => ?_)
  · obtain ⟨p, priority⟩ := record id
    rw [priority]
    exact ⟨rfl, rfl⟩
  · rcases learns _ knows with knows | ⟨_, nonzero⟩
    · exact knows
    · exact absurd rfl nonzero

theorem sendData_bounded (h : Bounded window m) (id : UInt32) (data : Bytes) (fin : Bool) :
    Bounded window (m.sendData id data fin).1 := by
  rcases m.sendData_cases id data fin with ⟨_, same, known, session, _⟩ |
    ⟨_, knows, _, short, _, changed, session, _⟩
  · exact h.quiet same.window (by rw [session])
      (fun other => by rw [same.record other]; exact ⟨rfl, rfl⟩) (known _).mp
  · obtain ⟨flow, inbound, _, _⟩ := sent_spec (m.recordOf id) ⟨data, short⟩ fin
    refine h.quiet changed.window (by rw [session]) ?_ (changed.known_iff knows _).mp
    exact recordOf_related changed.record
      (Q := fun before after => after.inbound = before.inbound ∧
        after.flow.recvWindow = before.flow.recvWindow)
      (fun _ => ⟨rfl, rfl⟩) ⟨inbound, by rw [flow]⟩

theorem popOutbound_bounded (h : Bounded window m) (order : List UInt32) :
    Bounded window (m.popOutbound order).1 := by
  rcases m.popOutbound_cases order with idle | ⟨id, chunk, rest, knows, _, _, changed, session, _⟩
  · rw [idle]
    exact h
  · refine h.quiet changed.window (by rw [session]) ?_ (changed.known_iff knows _).mp
    exact recordOf_related changed.record
      (Q := fun before after => after.inbound = before.inbound ∧
        after.flow.recvWindow = before.flow.recvWindow)
      (fun _ => ⟨rfl, rfl⟩) ⟨rfl, rfl⟩

theorem resetStream_bounded (h : Bounded window m) (id : UInt32) (reason : String) :
    Bounded window (m.resetStream id reason).1 := by
  obtain ⟨same, session, record, known⟩ := m.resetStream_spec id reason
  refine h.quiet same (by rw [session]) (fun other => ?_) (known _).mp
  obtain ⟨state, reset⟩ := record other
  rw [reset]
  exact ⟨rfl, rfl⟩

/-- What a read takes out of the buffers is at least what it adds to the window. -/
theorem readInbound_bounded (h : Bounded window m) (id : UInt32) :
    Bounded window (m.readInbound id).1 := by
  obtain ⟨_, _, same, ⟨flow, _, wider, record⟩, known, _, sessionWider, _⟩ := m.readInbound_spec id
  have granted := m.readInbound_session id
  have sum := buffered_change m (m.readInbound id).1 id
    fun other elsewhere => by rw [record other, if_neg elsewhere]
  rw [record id, if_pos rfl, List.length_nil] at sum
  have session := h.session
  have total := h.total
  refine ⟨same.trans h.initial, by omega, ?_, by omega, fun knows => h.control ((known _).mp knows)⟩
  intro other
  rw [record other]
  split
  next here =>
    have before := h.streams id
    dsimp only
    omega
  · exact h.streams other

/-- What an accepted frame adds to the buffers was charged to the session. -/
theorem onFrame_bounded (h : Bounded window m) (f : SlStreamFrame) :
    Bounded window (m.onFrame f).1 := by
  obtain ⟨same, learns, effect⟩ := m.onFrame_effect f
  have control : ¬ (m.onFrame f).1.Known slStreamIdControl :=
    fun knows => (learns _ knows).elim h.control fun nonzero => nonzero rfl
  have session := h.session
  have total := h.total
  rcases effect with ⟨r', record, kept, inbound, wide, _⟩ | ⟨_, _, room, changed, charged⟩
  · have buffers : ∀ other, ((m.onFrame f).1.recordOf other).inbound =
        (m.recordOf other).inbound :=
      recordOf_related record (Q := fun before after => after.inbound = before.inbound)
        (fun _ => rfl) inbound
    have windows : ∀ other, 0 ≤ (m.recordOf other).flow.recvWindow →
        0 ≤ ((m.onFrame f).1.recordOf other).flow.recvWindow :=
      recordOf_related record
        (Q := fun before after => 0 ≤ before.flow.recvWindow → 0 ≤ after.flow.recvWindow)
        (fun _ wide => wide) wide
    exact ⟨same.trans h.initial, kept ▸ session, fun other => windows other (h.streams other),
      by rw [kept, buffered_congr buffers]; exact total, control⟩
  · obtain ⟨flow, inbound, _⟩ := received_fields (m.recordOf f.streamId) f
    have sum := buffered_change m (m.onFrame f).1 f.streamId
      fun other elsewhere => by rw [changed.record other, if_neg elsewhere]
    rw [changed.record, if_pos rfl, inbound, List.length_append] at sum
    have stream := h.streams f.streamId
    -- an empty payload passes without a look at the windows
    have fits : f.payload.1.length ≤ m.sessionFlow.recvWindow ∧
        f.payload.1.length ≤ (m.recordOf f.streamId).flow.recvWindow := by
      rcases room with empty | ⟨first, second⟩
      · exact ⟨by omega, by omega⟩
      · exact ⟨second, first⟩
    refine ⟨same.trans h.initial, ?_, fun other => ?_, ?_, control⟩
    · rw [charged]
      dsimp only
      omega
    · rw [changed.record other]
      split
      · rw [flow]
        dsimp only
        omega
      · exact h.streams other
    · rw [charged]
      dsimp only
      omega

end Calls

theorem step_bounded (window : UInt32) (m : StreamMultiplexer) (call : Call)
    (h : Bounded window m) : Bounded window (step m call).1 := by
  cases call with
  | openStream prio => exact openStream_bounded h prio
  | sendData id data fin => exact sendData_bounded h id data fin
  | onFrame f => exact onFrame_bounded h f
  | popOutbound order => exact popOutbound_bounded h order
  | readInbound id => exact readInbound_bounded h id
  | resetStream id reason => exact resetStream_bounded h id reason

theorem run_bounded (role : SlStreamRole) (window : UInt32) (calls : List Call) :
    Bounded window (run step (StreamMultiplexer.new role window) calls) :=
  run_invariant (Bounded window) (step_bounded window) calls (bounded_new role window)

/-- Whatever a peer sends, no more than one window is buffered. -/
theorem buffered_within_window (role : SlStreamRole) (window : UInt32) (calls : List Call) :
    let m := run step (StreamMultiplexer.new role window) calls
    m.sessionFlow.recvWindow + buffered m ≤ window.toNat ∧
    0 ≤ m.sessionFlow.recvWindow ∧
    (∀ id record, m.find id = some record → 0 ≤ record.flow.recvWindow) ∧
    buffered m ≤ window.toNat := by
  intro m
  have bounded : Bounded window m := run_bounded role window calls
  have session := bounded.session
  have total := bounded.total
  refine ⟨total, session, fun id record found => ?_, by omega⟩
  rw [← find_eq_recordOf found]
  exact bounded.streams id

/-! ## Rejected DATA frames -/

/-- Nothing that flow control or the life cycle of a stream rests on differs. -/
def SameReceive (m m' : StreamMultiplexer) : Prop :=
  m'.sessionFlow.recvWindow = m.sessionFlow.recvWindow ∧
  ∀ id, (m'.find id).map (fun r => (r.flow.recvWindow, r.inbound, r.state.phase)) =
    (m.find id).map (fun r => (r.flow.recvWindow, r.inbound, r.state.phase))

theorem sameReceive_of_unchanged {m m' : StreamMultiplexer} (same : Unchanged m m')
    (known : ∀ id, m'.Known id ↔ m.Known id) (session : m'.sessionFlow = m.sessionFlow) :
    SameReceive m m' := by
  refine ⟨by rw [session], fun id => ?_⟩
  have record := same.record id
  have exists_ := known id
  simp only [Known] at exists_
  cases before : m.find id <;> cases after : m'.find id <;>
    simp_all [recordOf]

/-- A DATA frame for an existing stream is rejected without effect unless the stream has
room for it and the session has not. -/
theorem rejected_data_untouched_iff (role : SlStreamRole) (window : UInt32) (calls : List Call)
    (f : SlStreamFrame) (data : f.type = .data)
    (known : (run step (StreamMultiplexer.new role window) calls).Known f.streamId) :
    let m := run step (StreamMultiplexer.new role window) calls
    ((m.onFrame f).2 = false → SameReceive m (m.onFrame f).1) ↔
      ¬ m.HalfCharged (m.recordOf f.streamId) f := by
  intro m
  have bounded : Bounded window m := run_bounded role window calls
  have nonzero : f.streamId ≠ slStreamIdControl := by
    intro control
    rw [control] at known
    exact bounded.control known
  rcases onFrame_dispatch m f with ⟨_, _, m₁, result, same, learns, session, _⟩ | ⟨unreached, _⟩
  · have keeps : ∀ id, m₁.Known id ↔ m.Known id := by
      intro id
      rw [learns id]
      refine ⟨?_, Or.inl⟩
      rintro (knows | rfl)
      · exact knows
      · exact known
    have half₁ : m₁.HalfCharged (m.recordOf f.streamId) f ↔
        m.HalfCharged (m.recordOf f.streamId) f := by
      rw [HalfCharged, HalfCharged, session]
    have answer : m.onFrame f = m₁.onData f (m.recordOf f.streamId) := by
      rw [result, dispatch, data]
    rw [answer]
    by_cases half : m.HalfCharged (m.recordOf f.streamId) f
    · rw [onData_halfCharged (half₁.mpr half)]
      refine iff_of_false (fun untouched => ?_) (not_not_intro half)
      have stream := (untouched rfl).2 f.streamId
      obtain ⟨r, found⟩ := Option.isSome_iff_exists.mp known
      obtain ⟨_, full, _, _⟩ := half
      rw [find_store, if_pos rfl, found, find_eq_recordOf found] at stream
      simp only [Option.map_some, Option.some.injEq, Prod.mk.injEq] at stream
      omega
    · refine iff_of_true (fun rejected => ?_) half
      by_cases accepts : (m.recordOf f.streamId).state.canRecv = true ∧
          m₁.HasRoom (m.recordOf f.streamId) f
      · rw [onData_accepted accepts.1 accepts.2] at rejected
        cases rejected
      · rw [onData_untouched (fun receiving room => accepts ⟨receiving, room⟩) (half₁.not.mpr half)]
        exact sameReceive_of_unchanged same keeps session
  · exact absurd ⟨nonzero, Or.inl known⟩ unreached

/-- A DATA frame of `n` zero octets. -/
def zeros (id : UInt32) (n : Fin 1000) : SlStreamFrame where
  type := .data
  flags := 0
  streamId := id
  payload := ⟨List.replicate n 0, by rw [List.length_replicate]; omega⟩

/-- A server with two streams of the peer, 60 bytes of its window of 100 in use on the first. -/
def twoStreams : List Call := [.onFrame (zeros 1 60), .onFrame (zeros 3 0)]

theorem oversized_data_untouched :
    let m := run step (StreamMultiplexer.new .server 100) twoStreams
    m.Known 3 ∧ (m.onFrame (zeros 3 101)).2 = false ∧ SameReceive m (m.onFrame (zeros 3 101)).1 := by
  intro m
  have known : m.Known 3 := by decide +kernel
  have rejected : (m.onFrame (zeros 3 101)).2 = false := by decide +kernel
  have whole : ¬ m.HalfCharged (m.recordOf 3) (zeros 3 101) := by decide +kernel
  exact ⟨known, rejected,
    (rejected_data_untouched_iff .server 100 twoStreams (zeros 3 101) rfl known).mpr whole rejected⟩

/-- The session has 40 bytes left, so 60 bytes on the second stream are rejected, but that
stream's window has shrunk to 40 as well. -/
theorem rejected_data_keeps_charge :
    let m := run step (StreamMultiplexer.new .server 100) twoStreams
    m.Known 3 ∧ (m.onFrame (zeros 3 60)).2 = false ∧
    (m.recordOf 3).flow.recvWindow = 100 ∧
    ((m.onFrame (zeros 3 60)).1.recordOf 3).flow.recvWindow = 40 ∧
    ¬ SameReceive m (m.onFrame (zeros 3 60)).1 := by
  intro m
  refine ⟨by decide +kernel, by decide +kernel, by decide +kernel, by decide +kernel, fun same => ?_⟩
  exact absurd (same.2 3) (by decide +kernel)

end SecureLink.Guarantees.StreamWindows
