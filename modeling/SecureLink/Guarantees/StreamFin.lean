import SecureLink.Library.Runs
import SecureLink.Source.Streams.MultiplexerSteps

/-!
# The FIN of a stream

The FIN flag is not queued with the data; src/stream_multiplexer.cpp:143 sets it when
the last chunk is popped and the stream is half closed on the local side. If the peer has
closed its side before, the stream is closed altogether by then and the flag is lost.
Otherwise the accepted FIN goes out once, on the last frame.
-/
namespace SecureLink.Guarantees.StreamFin
open Library.BigEndian Library.Runs Source.Streams StreamMultiplexer

/-- A multiplexer with the frames it has returned and the streams on which a `send_data`
with fin was accepted. -/
structure Node where
  mux : StreamMultiplexer
  popped : List SlStreamFrame := []
  finished : List UInt32 := []

/-- The operations, with any frame from the peer but a RESET. -/
inductive Op where
  | openStream (prio : SlPriority)
  | sendData (id : UInt32) (data : Bytes) (fin : Bool)
  | onFrame (f : SlStreamFrame) (noReset : f.type ≠ .reset)
  | popOutbound (order : List UInt32)
  | readInbound (id : UInt32)

def step (n : Node) : Op → Node × Unit
  | .openStream prio => ({ n with mux := (n.mux.openStream prio).1 }, ())
  | .sendData id data fin =>
    ({ n with
       mux := (n.mux.sendData id data fin).1
       finished := if (n.mux.sendData id data fin).2 && fin then n.finished ++ [id]
         else n.finished }, ())
  | .onFrame f _ => ({ n with mux := (n.mux.onFrame f).1 }, ())
  | .popOutbound order =>
    ({ n with
       mux := (n.mux.popOutbound order).1
       popped := n.popped ++ (n.mux.popOutbound order).2.toList }, ())
  | .readInbound id => ({ n with mux := (n.mux.readInbound id).1 }, ())

def framesOf (n : Node) (id : UInt32) : List SlStreamFrame :=
  n.popped.filter fun f => f.streamId = id

/-- The FIN was on the last frame of the stream and on no other. -/
def FinSent (n : Node) (id : UInt32) : Prop :=
  ∃ before last, framesOf n id = before ++ [last] ∧ last.fin = true ∧
    ∀ f ∈ before, f.fin = false

/-- Once a stream with an accepted FIN has nothing queued, the FIN is out. -/
def FinNeverLost (n : Node) : Prop :=
  ∀ id ∈ n.finished, (n.mux.recordOf id).outbound = [] → FinSent n id

instance (m : StreamMultiplexer) (r : StreamRecord) (f : SlStreamFrame) : Decidable (m.HasRoom r f) :=
  inferInstanceAs (Decidable (_ ∨ _))

/-- The operation closes the second side of a stream whose FIN is still to go out: the
local side is closed after the remote one, or the remote one while chunks are queued. -/
def finAtRisk (m : StreamMultiplexer) : Op → Bool
  | .sendData id data fin =>
    let r := m.recordOf id
    fin && r.state.phase == .kHalfClosedRemote && data.length ≤ slStreamFrameMaxPayload &&
      (data.length == 0 || slFlowCanSend r.flow data.length && slFlowCanSend m.sessionFlow data.length)
  | .onFrame f _ =>
    let r := m.recordOf f.streamId
    f.type == .data && f.fin && r.state.phase == .kHalfClosedLocal && !r.outbound.isEmpty &&
      m.HasRoom r f
  | _ => false

/-- Progress of the FIN of a finished stream. -/
inductive Progress (n : Node) (id : UInt32) : Prop
  | waiting (phase : (n.mux.recordOf id).state.phase = .kHalfClosedLocal)
      (queue : (n.mux.recordOf id).outbound ≠ [])
      (unsent : ∀ f ∈ framesOf n id, f.fin = false)
  | done (queue : (n.mux.recordOf id).outbound = []) (sent : FinSent n id)

/-- Progress depends on the phase, the queue and the frames of the stream. -/
theorem Progress.congr {n n' : Node} {id : UInt32} (h : Progress n id)
    (state : (n'.mux.recordOf id).state = (n.mux.recordOf id).state)
    (outbound : (n'.mux.recordOf id).outbound = (n.mux.recordOf id).outbound)
    (frames : framesOf n' id = framesOf n id) : Progress n' id := by
  cases h with
  | waiting phase queue unsent =>
    exact .waiting (by rw [state]; exact phase) (by rw [outbound]; exact queue)
      (by rw [frames]; exact unsent)
  | done queue sent =>
    exact .done (by rw [outbound]; exact queue) (by rw [FinSent, frames]; exact sent)

structure Inv (n : Node) : Prop where
  closed : ∀ id, LocalClosed (n.mux.recordOf id) ↔ id ∈ n.finished
  progress : ∀ id ∈ n.finished, Progress n id
  unsent : ∀ id ∉ n.finished, ∀ f ∈ framesOf n id, f.fin = false

/-- Steps that leave phases, queues and history alone. -/
theorem Inv.frame {n n' : Node} (h : Inv n) (popped : n'.popped = n.popped)
    (finished : n'.finished = n.finished)
    (state : ∀ id, (n'.mux.recordOf id).state = (n.mux.recordOf id).state)
    (outbound : ∀ id, (n'.mux.recordOf id).outbound = (n.mux.recordOf id).outbound) : Inv n' := by
  have frames : ∀ id, framesOf n' id = framesOf n id := fun id => by rw [framesOf, framesOf, popped]
  constructor
  · intro id
    rw [finished, ← h.closed id, LocalClosed, LocalClosed, state]
  · intro id member
    rw [finished] at member
    exact (h.progress id member).congr (state id) (outbound id) (frames id)
  · intro id absent
    rw [finished] at absent
    rw [frames]
    exact h.unsent id absent

/-- A step that changes one stream and nothing in the history. -/
theorem Inv.change {n n' : Node} (h : Inv n) {id : UInt32} {r : StreamRecord}
    (changed : Changed n.mux n'.mux id r) (popped : n'.popped = n.popped)
    (finished : ∀ other, other ≠ id → (other ∈ n'.finished ↔ other ∈ n.finished))
    (closed : LocalClosed r ↔ id ∈ n'.finished)
    (progress : id ∈ n'.finished → Progress n' id)
    (unsent : id ∉ n'.finished → ∀ f ∈ framesOf n id, f.fin = false) : Inv n' := by
  have frames : ∀ id, framesOf n' id = framesOf n id := fun id => by rw [framesOf, framesOf, popped]
  have here : n'.mux.recordOf id = r := by rw [changed.record id, if_pos rfl]
  have elsewhere : ∀ other, other ≠ id → n'.mux.recordOf other = n.mux.recordOf other :=
    fun other different => by rw [changed.record other, if_neg different]
  constructor
  · intro other
    by_cases same : other = id
    · rw [same, here]
      exact closed
    · rw [elsewhere other same, finished other same]
      exact h.closed other
  · intro other member
    by_cases same : other = id
    · rw [same] at member ⊢
      exact progress member
    · have before := h.progress other ((finished other same).mp member)
      exact before.congr (by rw [elsewhere other same]) (by rw [elsewhere other same]) (frames other)
  · intro other absent
    rw [frames]
    by_cases same : other = id
    · rw [same] at absent ⊢
      exact unsent absent
    · exact h.unsent other (fun member => absent ((finished other same).mpr member))

theorem send_keeps {n : Node} (h : Inv n) (id : UInt32) (data : Bytes) (fin : Bool)
    (safe : finAtRisk n.mux (.sendData id data fin) = false) :
    Inv (step n (.sendData id data fin)).1 := by
  rcases n.mux.sendData_cases id data fin with ⟨refused, same, _⟩ |
    ⟨ok, _, sends, short, credit, changed, _⟩
  · exact h.frame rfl (by simp [step, refused]) (fun other => by simp [step, same.record other])
      (fun other => by simp [step, same.record other])
  · have unfinished : id ∉ n.finished := fun member => canSend_not_closed sends ((h.closed id).mpr member)
    obtain ⟨_, _, _, state⟩ := sent_spec (n.mux.recordOf id) ⟨data, short⟩ fin
    cases fin with
    | false =>
      have finished : (step n (.sendData id data false)).1.finished = n.finished := by simp [step]
      refine h.change changed rfl (fun _ _ => by rw [finished]) ?_ ?_ ?_
      all_goals rw [finished]
      · rw [← h.closed id, LocalClosed, LocalClosed, state]
        rfl
      · exact fun member => absurd member unfinished
      · exact fun _ => h.unsent id unfinished
    | true =>
      have finished : (step n (.sendData id data true)).1.finished = n.finished ++ [id] := by
        simp [step, ok]
      have phase : (n.mux.recordOf id).state.phase = .kOpen := by
        have enough : data.length = 0 ∨ slFlowCanSend (n.mux.recordOf id).flow data.length = true ∧
            slFlowCanSend n.mux.sessionFlow data.length = true := by
          simpa [slFlowCanSend] using credit
        simp only [StreamState.canSend, Bool.or_eq_true, beq_iff_eq] at sends
        rcases sends with isOpen | remote
        · exact isOpen
        · simp only [finAtRisk, remote, short, Bool.true_and, beq_self_eq_true, decide_true,
            Bool.or_eq_false_iff, Bool.and_eq_false_iff, beq_eq_false_iff_ne] at safe
          rcases enough with empty | ⟨stream, session⟩
          · exact absurd empty safe.1
          · simp [stream, session] at safe
      have closes : (sent (n.mux.recordOf id) ⟨data, short⟩ true).state.phase = .kHalfClosedLocal := by
        rw [state]
        simp [StreamState.onSentFin, phase]
      have queue : (sent (n.mux.recordOf id) ⟨data, short⟩ true).outbound ≠ [] := by
        cases chunks : (queued (n.mux.recordOf id) ⟨data, short⟩).outbound <;>
          simp [sent, queueFin, chunks]
      have record : (step n (.sendData id data true)).1.mux.recordOf id =
          sent (n.mux.recordOf id) ⟨data, short⟩ true := by
        simp [step, changed.record id]
      refine h.change changed rfl (fun other different => by simp [finished, different]) ?_ ?_ ?_
      · simp [finished, LocalClosed, closes]
      · exact fun _ => .waiting (record ▸ closes) (record ▸ queue) (h.unsent id unfinished)
      · exact fun absent => absurd (by simp [finished]) absent

theorem frame_keeps {n : Node} (h : Inv n) (f : SlStreamFrame) (noReset : f.type ≠ .reset)
    (safe : finAtRisk n.mux (.onFrame f noReset) = false) : Inv (step n (.onFrame f noReset)).1 := by
  rcases n.mux.onFrame_cases f noReset with ⟨same, _⟩ | ⟨data, accepts, room, changed⟩ |
    ⟨flow, changed⟩
  · exact h.frame rfl rfl (fun id => by simp [step, same.record id])
      (fun id => by simp [step, same.record id])
  · obtain ⟨_, _, outbound⟩ := received_fields (n.mux.recordOf f.streamId) f
    have record : (step n (.onFrame f noReset)).1.mux.recordOf f.streamId =
        received (n.mux.recordOf f.streamId) f := by simp [step, changed.record]
    refine h.change changed rfl (fun _ _ => Iff.rfl) ?_ ?_ ?_
    · exact (received_closed f).1.trans (h.closed f.streamId)
    · intro member
      cases h.progress f.streamId member with
      | waiting phase queue unsent =>
        -- a FIN here would be the one that closes the stream too early
        have noFin : f.fin = false := by
          simpa [finAtRisk, data, phase, queue, room] using safe
        exact .waiting (by rw [record, received, noFin]; exact phase)
          (by rw [record, outbound]; exact queue) unsent
      | done queue sent => exact .done (by rw [record, outbound]; exact queue) sent
    · exact h.unsent f.streamId
  · exact h.frame rfl rfl
      (recordOf_related changed.record (Q := fun before after => after.state = before.state)
        (fun _ => rfl) rfl)
      (recordOf_related changed.record (Q := fun before after => after.outbound = before.outbound)
        (fun _ => rfl) rfl)

theorem framesOf_pop (n : Node) (f : SlStreamFrame) (id : UInt32) {order : List UInt32}
    (popped : (n.mux.popOutbound order).2 = some f) :
    framesOf (step n (.popOutbound order)).1 id =
      framesOf n id ++ if f.streamId = id then [f] else [] := by
  simp only [framesOf, step, popped, Option.toList_some, List.filter_append]
  split <;> simp_all

theorem pop_keeps {n : Node} (h : Inv n) (order : List UInt32) :
    Inv (step n (.popOutbound order)).1 := by
  rcases n.mux.popOutbound_cases order with idle | ⟨id, chunk, rest, _, queue, popped, changed, _⟩
  · exact h.frame (by simp [step, idle]) rfl (fun id => by simp [step, idle])
      (fun id => by simp [step, idle])
  · have here : (step n (.popOutbound order)).1.mux.recordOf id =
        { n.mux.recordOf id with outbound := rest } := by simp [step, changed.record]
    have elsewhere : ∀ other, other ≠ id →
        (step n (.popOutbound order)).1.mux.recordOf other = n.mux.recordOf other :=
      fun other different => by simp [step, changed.record, different]
    have frames : framesOf (step n (.popOutbound order)).1 id =
        framesOf n id ++ [outboundFrame id (n.mux.recordOf id) chunk rest] := by
      rw [framesOf_pop n _ id popped]
      simp [outboundFrame]
    have otherFrames : ∀ other, other ≠ id →
        framesOf (step n (.popOutbound order)).1 other = framesOf n other := by
      intro other different
      rw [framesOf_pop n _ other popped]
      simp [outboundFrame, Ne.symm different]
    have fin := outboundFrame_fin id (n.mux.recordOf id) chunk rest
    have unmarked : (∀ f ∈ framesOf n id, f.fin = false) →
        (outboundFrame id (n.mux.recordOf id) chunk rest).fin = false →
          ∀ f ∈ framesOf (step n (.popOutbound order)).1 id, f.fin = false := by
      intro before last f member
      rw [frames] at member
      rcases List.mem_append.mp member with old | new
      · exact before f old
      · rw [List.mem_singleton.mp new]
        exact last
    constructor
    · intro other
      by_cases same : other = id
      · rw [same, here]
        exact h.closed id
      · rw [elsewhere other same]
        exact h.closed other
    · intro other member
      by_cases same : other = id
      · rw [same] at member ⊢
        cases h.progress id member with
        | waiting phase _ unsent =>
          by_cases last : rest = []
          · refine .done (by rw [here]; exact last) ⟨_, _, frames, fin.mpr ⟨last, phase⟩, unsent⟩
          · exact .waiting (by rw [here]; exact phase) (by rw [here]; exact last)
              (unmarked unsent (eq_false_of_ne_true fun set => last (fin.mp set).1))
        | done empty _ =>
          rw [empty] at queue
          cases queue
      · exact (h.progress other member).congr (by rw [elsewhere other same])
          (by rw [elsewhere other same]) (otherFrames other same)
    · intro other absent
      by_cases same : other = id
      · rw [same] at absent ⊢
        apply unmarked (h.unsent id absent)
        exact eq_false_of_ne_true fun set => absent ((h.closed id).mp (Or.inl (fin.mp set).2))
      · rw [otherFrames other same]
        exact h.unsent other absent

theorem step_keeps (n : Node) (op : Op) (h : Inv n) (safe : finAtRisk n.mux op = false) :
    Inv (step n op).1 := by
  cases op with
  | openStream prio =>
    obtain ⟨_, _, _, _, _, record, _⟩ := n.mux.openStream_spec prio
    refine h.frame rfl rfl (fun id => ?_) (fun id => ?_) <;>
    · obtain ⟨p, same⟩ := record id
      simp [step, same]
  | sendData id data fin => exact send_keeps h id data fin safe
  | onFrame f noReset => exact frame_keeps h f noReset safe
  | popOutbound order => exact pop_keeps h order
  | readInbound id =>
    obtain ⟨_, _, _, ⟨flow, _, _, record⟩, _⟩ := n.mux.readInbound_spec id
    exact h.frame rfl rfl
      (recordOf_related record (Q := fun before after => after.state = before.state)
        (fun _ => rfl) rfl)
      (recordOf_related record (Q := fun before after => after.outbound = before.outbound)
        (fun _ => rfl) rfl)

def fresh (role : SlStreamRole) (window : UInt32) : Node := { mux := .new role window }

theorem inv_fresh (role : SlStreamRole) (window : UInt32) : Inv (fresh role window) := by
  have isOpen : ∀ id, ((fresh role window).mux.recordOf id).state.phase = .kOpen := fun _ => rfl
  have nothing : (fresh role window).finished = [] := rfl
  constructor
  · intro id
    simp [LocalClosed, isOpen, nothing]
  · simp [nothing]
  · simp [fresh, framesOf]

/-- In every run whose operations never close the second side of a stream before its FIN
is out, no FIN is lost in any state reached. -/
theorem fin_never_lost (role : SlStreamRole) (window : UInt32) (ops : List Op)
    (safe : AllSteps step (fun n op => finAtRisk n.mux op = false) (fresh role window) ops) :
    FinNeverLost (run step (fresh role window) ops) := by
  have inv := safe.invariant Inv step_keeps (inv_fresh role window)
  intro id member empty
  cases inv.progress id member with
  | waiting _ queue _ => exact absurd empty queue
  | done _ sent => exact sent

/-- A stream is closed by its own side first: the FIN goes out with the data. -/
theorem fin_never_lost_local_close :
    FinSent (run step (fresh .client 100)
      [.openStream .normal, .sendData 1 [7] true, .popOutbound [1]]) 1 :=
  fin_never_lost .client 100 [.openStream .normal, .sendData 1 [7] true, .popOutbound [1]]
    (by decide +kernel) 1 (by decide +kernel) (by decide +kernel)

/-- After the peer's FIN the own one is accepted and never sent. -/
theorem fin_lost_after_peer_fin :
    ¬ ∀ (role : SlStreamRole) (window : UInt32) (ops : List Op),
      FinNeverLost (run step (fresh role window) ops) := by
  intro always
  obtain ⟨before, last, frames, fin, _⟩ := always .client 100
    [.openStream .normal, .onFrame (bareFin 1) (by decide), .sendData 1 [7] true, .popOutbound [1]]
    1 (by decide +kernel) (by decide +kernel)
  have plain : ∀ f ∈ framesOf (run step (fresh .client 100)
      [.openStream .normal, .onFrame (bareFin 1) (by decide), .sendData 1 [7] true,
        .popOutbound [1]]) 1, f.fin = false := by decide +kernel
  rw [frames] at plain
  simp [plain last (by simp)] at fin

end SecureLink.Guarantees.StreamFin
