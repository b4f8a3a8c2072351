import SecureLink.Library.Runs
import SecureLink.Library.Tagged
import SecureLink.Source.Streams.MultiplexerSteps

/-!
# Delivery over two joined multiplexers

Two multiplexers of opposite roles and one window, joined by a FIFO channel in each
direction. Whatever the two sides do, every frame is accepted, and the bytes accepted
for sending on a stream are those read by the peer, then those buffered there, then
those in flight, then those queued.
-/
namespace SecureLink.Guarantees.StreamDelivery
open Library.BigEndian Library.Runs Library.Tagged Source.Streams StreamMultiplexer

/-- One endpoint with its history: payloads accepted by `send_data`, payloads taken in by
`on_frame`, bytes handed out by `read_inbound`. -/
structure Side where
  mux : StreamMultiplexer
  accepted : List (UInt32 × Bytes) := []
  received : List (UInt32 × Bytes) := []
  read : List (UInt32 × Bytes) := []

/-- Both endpoints, and the frames of each that are under way. -/
structure Net where
  side : SlStreamRole → Side
  wire : SlStreamRole → List SlStreamFrame

def start (window : UInt32) : Net where
  side role := { mux := .new role window }
  wire _ := []

inductive Action where
  | openStream (side : SlStreamRole) (prio : SlPriority)
  | sendData (side : SlStreamRole) (id : UInt32) (data : Bytes) (fin : Bool)
  | popOutbound (side : SlStreamRole) (order : List UInt32)
  | deliver (sender : SlStreamRole)
  | readInbound (side : SlStreamRole) (id : UInt32)

def tagged (f : SlStreamFrame) : UInt32 × Bytes := (f.streamId, f.payload.1)

def openStep (s : Side) (prio : SlPriority) : Side := { s with mux := (s.mux.openStream prio).1 }

def popStep (s : Side) (order : List UInt32) : Side :=
  { s with mux := (s.mux.popOutbound order).1 }

def sendStep (s : Side) (id : UInt32) (data : Bytes) (fin : Bool) : Side :=
  { s with
    mux := (s.mux.sendData id data fin).1
    accepted := if (s.mux.sendData id data fin).2 then s.accepted ++ [(id, data)] else s.accepted }

def frameStep (t : Side) (f : SlStreamFrame) : Side :=
  { t with
    mux := (t.mux.onFrame f).1
    received := if (t.mux.onFrame f).2 then t.received ++ [tagged f] else t.received }

def readStep (t : Side) (id : UInt32) : Side :=
  { t with mux := (t.mux.readInbound id).1, read := t.read ++ [(id, (t.mux.readInbound id).2)] }

/-- One action, with the answer of `on_frame` if a frame was delivered. -/
def step (n : Net) : Action → Net × Option Bool
  | .openStream r prio =>
    ({ n with side := Function.update n.side r (openStep (n.side r) prio) }, none)
  | .sendData r id data fin =>
    ({ n with side := Function.update n.side r (sendStep (n.side r) id data fin) }, none)
  | .popOutbound r order =>
    let popped := ((n.side r).mux.popOutbound order).2.toList
    ({ side := Function.update n.side r (popStep (n.side r) order)
       wire := Function.update n.wire r (n.wire r ++ popped) }, none)
  | .deliver r =>
    match n.wire r with
    | [] => (n, none)
    | f :: rest =>
      ({ side := Function.update n.side (peer r) (frameStep (n.side (peer r)) f)
         wire := Function.update n.wire r rest }, some ((n.side (peer r)).mux.onFrame f).2)
  | .readInbound r id => ({ n with side := Function.update n.side r (readStep (n.side r) id) }, none)

/-! ## Invariants of one endpoint -/

/-- What holds of one stream, given the bytes accepted, received and read on it. -/
structure StreamOk (window : UInt32) (accepted received read : Bytes) (r : StreamRecord) : Prop where
  opened : r.state.phase ≠ .kIdle
  credit : r.flow.sendCredit + accepted.length = window.toNat
  solvent : 0 ≤ r.flow.sendCredit
  buffered : received = read ++ r.inbound
  room : window.toNat ≤ r.flow.recvWindow + received.length

structure Endpoint (window : UInt32) (side : SlStreamRole) (s : Side) : Prop where
  role : s.mux.role = side
  nextId : OwnParity side s.mux.idAlloc.nextId
  streams : ∀ id, StreamOk window (payload id s.accepted) (payload id s.received)
    (payload id s.read) (s.mux.recordOf id)
  sessionCredit : s.mux.sessionFlow.sendCredit + total s.accepted = window.toNat
  sessionSolvent : 0 ≤ s.mux.sessionFlow.sendCredit
  sessionRoom : window.toNat ≤ s.mux.sessionFlow.recvWindow + total s.received

/-! ## Invariants of one direction -/

/-- The direction from `s` to `t` over the frames `w`. -/
structure Link (s t : Side) (w : List SlStreamFrame) : Prop where
  conserved : ∀ id, payload id s.accepted = payload id t.received ++ payload id (w.map tagged) ++
    (s.mux.recordOf id).outbound.flatMap Subtype.val
  last : w.Pairwise fun f g => f.fin = true → g.streamId ≠ f.streamId
  finished : ∀ id, (RemoteClosed (t.mux.recordOf id) ∨ ∃ f ∈ w, f.fin = true ∧ f.streamId = id) →
    (s.mux.recordOf id).outbound = [] ∧ LocalClosed (s.mux.recordOf id)
  silent : ∀ id, RemoteClosed (t.mux.recordOf id) → ∀ f ∈ w, f.streamId ≠ id
  frames : ∀ f ∈ w, f.type = .data ∧ s.mux.Known f.streamId
  known : ∀ id, s.mux.Known id → id ≠ slStreamIdControl ∧
    (t.mux.Known id ∨ slStreamIdBelongsToPeer id t.mux.role = true)

/-- A change of the sender that this direction does not notice. -/
theorem Link.sender {s s' t : Side} {w : List SlStreamFrame} (h : Link s t w)
    (accepted : s'.accepted = s.accepted)
    (outbound : ∀ id, (s'.mux.recordOf id).outbound = (s.mux.recordOf id).outbound)
    (closed : ∀ id, LocalClosed (s.mux.recordOf id) → LocalClosed (s'.mux.recordOf id))
    (keeps : ∀ id, s.mux.Known id → s'.mux.Known id)
    (learns : ∀ id, s'.mux.Known id → s.mux.Known id ∨
      id ≠ slStreamIdControl ∧ (t.mux.Known id ∨ slStreamIdBelongsToPeer id t.mux.role = true)) :
    Link s' t w where
  conserved id := by
    rw [accepted, outbound]
    exact h.conserved id
  last := h.last
  finished id closing := by
    obtain ⟨empty, done⟩ := h.finished id closing
    exact ⟨(outbound id).trans empty, closed id done⟩
  silent := h.silent
  frames f member := ⟨(h.frames f member).1, keeps _ (h.frames f member).2⟩
  known id knows := (learns id knows).elim (h.known id) fun new => new

/-- A change of the receiver that this direction does not notice. -/
theorem Link.receiver {s t t' : Side} {w : List SlStreamFrame} (h : Link s t w)
    (received : t'.received = t.received) (role : t'.mux.role = t.mux.role)
    (closed : ∀ id, RemoteClosed (t'.mux.recordOf id) → RemoteClosed (t.mux.recordOf id))
    (keeps : ∀ id, t.mux.Known id → t'.mux.Known id) : Link s t' w where
  conserved id := by
    rw [received]
    exact h.conserved id
  last := h.last
  finished id closing := h.finished id (closing.imp_left (closed id))
  silent id done := h.silent id (closed id done)
  frames := h.frames
  known id knows := by
    obtain ⟨nonzero, reachable⟩ := h.known id knows
    rw [role]
    exact ⟨nonzero, reachable.imp_left (keeps id)⟩

/-! ## The operations -/

section Steps

variable {window : UInt32} {role : SlStreamRole} {s t : Side} {w : List SlStreamFrame}

theorem openStep_endpoint (h : Endpoint window role s) (prio : SlPriority) :
    Endpoint window role (openStep s prio) := by
  obtain ⟨sameRole, _, session, alloc, _, record, _⟩ := s.mux.openStream_spec prio
  have parity := slStreamIdNext_parity h.nextId
  refine ⟨sameRole.trans h.role, by simpa only [openStep, alloc] using parity, fun id => ?_,
    by simpa only [openStep, session] using h.sessionCredit,
    by simpa only [openStep, session] using h.sessionSolvent,
    by simpa only [openStep, session] using h.sessionRoom⟩
  obtain ⟨p, same⟩ := record id
  have before := h.streams id
  simp only [openStep, same]
  exact ⟨before.opened, before.credit, before.solvent, before.buffered, before.room⟩

theorem openStep_sends (h : Link s t w) (endpoint : Endpoint window role s)
    (role' : t.mux.role = peer role) (prio : SlPriority) : Link (openStep s prio) t w := by
  obtain ⟨_, _, _, _, _, record, learns, keeps⟩ := s.mux.openStream_spec prio
  refine h.sender rfl (fun id => ?_) (fun id => ?_) keeps (fun id knows => ?_)
  · obtain ⟨p, same⟩ := record id
    simp only [openStep, same]
  · obtain ⟨p, same⟩ := record id
    simp only [openStep, same]
    exact fun closed => closed
  · refine (learns id knows).imp_right ?_
    rintro ⟨rfl, nonzero⟩
    refine ⟨nonzero, Or.inr ?_⟩
    rw [role']
    rw [belongs_iff]
    exact ⟨nonzero, (slStreamIdNext_fresh nonzero).1 ▸ endpoint.nextId⟩

theorem openStep_receives (h : Link t s w) (prio : SlPriority) : Link t (openStep s prio) w := by
  obtain ⟨sameRole, _, _, _, _, record, _, keeps⟩ := s.mux.openStream_spec prio
  refine h.receiver rfl sameRole (fun id => ?_) keeps
  obtain ⟨p, same⟩ := record id
  simp only [openStep, same]
  exact fun closed => closed

theorem sendStep_endpoint (h : Endpoint window role s) (id : UInt32) (data : Bytes) (fin : Bool) :
    Endpoint window role (sendStep s id data fin) := by
  rcases s.mux.sendData_cases id data fin with ⟨refused, same, _, session, alloc⟩ |
    ⟨ok, _, _, short, credit, changed, session, alloc⟩
  · refine ⟨same.role.trans h.role, by simpa only [sendStep, alloc] using h.nextId, ?_, ?_, ?_, ?_⟩
    all_goals simp only [sendStep, refused, session, same.record, Bool.false_eq_true, if_false]
    · exact h.streams
    · exact h.sessionCredit
    · exact h.sessionSolvent
    · exact h.sessionRoom
  · have sessionCredit := h.sessionCredit
    have sessionSolvent := h.sessionSolvent
    refine ⟨changed.role.trans h.role, by simpa only [sendStep, alloc] using h.nextId,
      fun other => ?_, ?_, ?_, ?_⟩
    all_goals simp only [sendStep, ok, session, if_true]
    · have before := h.streams other
      rw [changed.record other]
      by_cases here : other = id
      · subst here
        obtain ⟨flow, inbound, _, _⟩ := sent_spec (s.mux.recordOf other) ⟨data, short⟩ fin
        have credited := before.credit
        have solvent := before.solvent
        simp only [if_true]
        refine ⟨(sent_closed ⟨data, short⟩ fin).2.2 before.opened, ?_, ?_, ?_, ?_⟩
        · simp only [flow, payload_append, payload_cons, payload_nil, if_true, List.append_nil,
            List.length_append]
          omega
        · rw [flow]
          dsimp only
          omega
        · rw [inbound]
          exact before.buffered
        · rw [flow]
          exact before.room
      · simpa [here, Ne.symm here] using before
    · simp only [total_append, total_cons, total_nil]
      omega
    · omega
    · exact h.sessionRoom

/-- A stream that may send has neither queued its FIN nor had it delivered. -/
theorem Link.sending (h : Link s t w) {id : UInt32}
    (sends : (s.mux.recordOf id).state.canSend = true) :
    ¬ (RemoteClosed (t.mux.recordOf id) ∨ ∃ f ∈ w, f.fin = true ∧ f.streamId = id) :=
  fun closing => canSend_not_closed sends (h.finished id closing).2

theorem sendStep_sends (h : Link s t w) (id : UInt32) (data : Bytes) (fin : Bool) :
    Link (sendStep s id data fin) t w := by
  rcases s.mux.sendData_cases id data fin with ⟨refused, same, known, _⟩ |
    ⟨ok, knows, sends, short, _, changed, _⟩
  · refine h.sender (by simp [sendStep, refused]) (fun other => ?_) (fun other => ?_)
      (fun other => (known other).mpr) (fun other k => Or.inl ((known other).mp k))
    all_goals simp only [sendStep, same.record]
    exact fun closed => closed
  · obtain ⟨_, _, outbound, _⟩ := sent_spec (s.mux.recordOf id) ⟨data, short⟩ fin
    have known : ∀ other, (sendStep s id data fin).mux.Known other ↔ s.mux.Known other :=
      changed.known_iff knows
    constructor
    case last => exact h.last
    case silent => exact h.silent
    case frames => exact fun f member =>
      ⟨(h.frames f member).1, (known _).mpr (h.frames f member).2⟩
    case known => exact fun other k => h.known other ((known other).mp k)
    case conserved =>
      intro other
      have before := h.conserved other
      simp only [sendStep, ok, if_true, changed.record]
      by_cases here : other = id
      · subst here
        simp [outbound, before]
      · simpa [here, Ne.symm here] using before
    case finished =>
      intro other closing
      have elsewhere : other ≠ id := by
        rintro rfl
        exact h.sending sends closing
      simpa only [sendStep, changed.record, elsewhere, if_false] using h.finished other closing

theorem sendStep_receives (h : Link t s w) (id : UInt32) (data : Bytes) (fin : Bool) :
    Link t (sendStep s id data fin) w := by
  rcases s.mux.sendData_cases id data fin with ⟨_, same, known, _⟩ |
    ⟨_, _, _, short, _, changed, _⟩
  · refine h.receiver rfl same.role (fun other => ?_) (fun other => (known other).mpr)
    simp only [sendStep, same.record]
    exact fun closed => closed
  · have closes := recordOf_related changed.record
      (Q := fun before after => RemoteClosed after → RemoteClosed before)
      (fun _ closed => closed) (sent_closed ⟨data, short⟩ fin).2.1
    exact h.receiver rfl changed.role closes fun other k => (changed.known other).mpr (Or.inl k)

theorem popStep_endpoint (h : Endpoint window role s) (order : List UInt32) :
    Endpoint window role (popStep s order) := by
  rcases s.mux.popOutbound_cases order with idle | ⟨id, chunk, rest, _, _, _, changed, session, alloc⟩
  · rw [popStep, idle]
    exact h
  · refine ⟨changed.role.trans h.role, by simpa only [popStep, alloc] using h.nextId,
      fun other => ?_, by simpa only [popStep, session] using h.sessionCredit,
      by simpa only [popStep, session] using h.sessionSolvent,
      by simpa only [popStep, session] using h.sessionRoom⟩
    have before := h.streams other
    simp only [popStep, changed.record other]
    split
    next here =>
      rw [here] at before ⊢
      exact ⟨before.opened, before.credit, before.solvent, before.buffered, before.room⟩
    · exact before

theorem popStep_sends (h : Link s t w) (order : List UInt32) :
    Link (popStep s order) t (w ++ (s.mux.popOutbound order).2.toList) := by
  rcases s.mux.popOutbound_cases order with idle |
    ⟨id, chunk, rest, knows, queue, popped, changed, _⟩
  · simp only [popStep, idle, Option.toList_none, List.append_nil]
    exact h
  · -- a stream with something queued is not finished in either sense
    have unfinished : ¬ (RemoteClosed (t.mux.recordOf id) ∨
        ∃ f ∈ w, f.fin = true ∧ f.streamId = id) := by
      intro closing
      rw [(h.finished id closing).1] at queue
      cases queue
    have known : ∀ other, (popStep s order).mux.Known other ↔ s.mux.Known other :=
      changed.known_iff knows
    rw [popped, Option.toList_some]
    constructor
    case conserved =>
      intro other
      have before := h.conserved other
      simp only [popStep, changed.record]
      by_cases here : other = id
      · subst here
        simp [before, queue, tagged, outboundFrame]
      · simpa [here, tagged, outboundFrame, Ne.symm here] using before
    case last =>
      refine List.pairwise_append.mpr ⟨h.last, List.pairwise_singleton _ _, ?_⟩
      intro f member g popped fin same
      rw [List.mem_singleton.mp popped] at same
      exact unfinished (Or.inr ⟨f, member, fin, same.symm⟩)
    case finished =>
      intro other closing
      simp only [popStep, changed.record]
      by_cases here : other = id
      · subst here
        have fin : (outboundFrame other (s.mux.recordOf other) chunk rest).fin
            = true := by
          rcases closing with closed | ⟨f, member, fin, same⟩
          · exact absurd (Or.inl closed) unfinished
          · rcases List.mem_append.mp member with old | new
            · exact absurd (Or.inr ⟨f, old, fin, same⟩) unfinished
            · rwa [List.mem_singleton.mp new] at fin
        obtain ⟨empty, phase⟩ := (outboundFrame_fin _ _ _ _).mp fin
        simp only [if_true, empty]
        exact ⟨trivial, Or.inl phase⟩
      · simp only [here, if_false]
        refine h.finished other (closing.imp_right ?_)
        rintro ⟨f, member, fin, same⟩
        refine ⟨f, ?_, fin, same⟩
        rcases List.mem_append.mp member with old | new
        · exact old
        · rw [List.mem_singleton.mp new] at same
          exact absurd same.symm here
    case silent =>
      intro other closed f member
      rcases List.mem_append.mp member with old | new
      · exact h.silent other closed f old
      · rw [List.mem_singleton.mp new]
        rintro rfl
        exact unfinished (Or.inl closed)
    case frames =>
      intro f member
      rw [known]
      rcases List.mem_append.mp member with old | new
      · exact h.frames f old
      · rw [List.mem_singleton.mp new]
        exact ⟨rfl, knows⟩
    case known => exact fun other k => h.known other ((known other).mp k)

theorem popStep_receives (h : Link t s w) (order : List UInt32) : Link t (popStep s order) w := by
  rcases s.mux.popOutbound_cases order with idle | ⟨id, chunk, rest, _, _, _, changed, _⟩
  · rw [popStep, idle]
    exact h
  · have closes := recordOf_related changed.record
      (Q := fun before after => RemoteClosed after → RemoteClosed before)
      (fun _ closed => closed) (fun closed => closed)
    exact h.receiver rfl changed.role closes fun other k => (changed.known other).mpr (Or.inl k)

theorem readStep_endpoint (h : Endpoint window role s) (id : UInt32) :
    Endpoint window role (readStep s id) := by
  obtain ⟨out, sameRole, _, ⟨flow, credit, wider, record⟩, _, sessionCredit, sessionWider, alloc⟩ :=
    s.mux.readInbound_spec id
  have sessionRoom := h.sessionRoom
  refine ⟨sameRole.trans h.role, by simpa only [readStep, alloc] using h.nextId, fun other => ?_,
    by simpa only [readStep, sessionCredit] using h.sessionCredit,
    by simpa only [readStep, sessionCredit] using h.sessionSolvent,
    by simp only [readStep]; omega⟩
  have before := h.streams other
  simp only [readStep, record other]
  by_cases here : other = id
  · subst here
    have room := before.room
    simp only [if_true]
    refine ⟨before.opened, by rw [credit]; exact before.credit, by rw [credit]; exact before.solvent,
      by simp [before.buffered, out], ?_⟩
    dsimp only
    omega
  · simpa [here, Ne.symm here] using before

theorem readStep_sends (h : Link s t w) (id : UInt32) : Link (readStep s id) t w := by
  obtain ⟨_, _, _, ⟨flow, _, _, record⟩, known, _⟩ := s.mux.readInbound_spec id
  have outbound := recordOf_related record
    (Q := fun before after => after.outbound = before.outbound) (fun _ => rfl) rfl
  have closes := recordOf_related record
    (Q := fun before after => LocalClosed before → LocalClosed after)
    (fun _ closed => closed) (fun closed => closed)
  exact h.sender rfl outbound closes (fun other => (known other).mpr)
    (fun other k => Or.inl ((known other).mp k))

theorem readStep_receives (h : Link t s w) (id : UInt32) : Link t (readStep s id) w := by
  obtain ⟨_, sameRole, _, ⟨flow, _, _, record⟩, known, _⟩ := s.mux.readInbound_spec id
  have closes := recordOf_related record
    (Q := fun before after => RemoteClosed after → RemoteClosed before)
    (fun _ closed => closed) (fun closed => closed)
  exact h.receiver rfl sameRole closes fun other => (known other).mpr

/-- The frame at the head of a channel fits the receiver's windows: the sender was charged
for it out of the same initial window. -/
theorem head_hasRoom {f : SlStreamFrame} (sender : Endpoint window role s)
    (receiver : Endpoint window (peer role) t) (link : Link s t (f :: w)) :
    t.mux.HasRoom (t.mux.recordOf f.streamId) f := by
  refine Or.inr ⟨?_, ?_⟩
  · have bytes := congrArg List.length (link.conserved f.streamId)
    have credit := (sender.streams f.streamId).credit
    have solvent := (sender.streams f.streamId).solvent
    have room := (receiver.streams f.streamId).room
    simp only [List.map_cons, payload_cons, tagged, if_true, List.length_append] at bytes
    omega
  · have less : total (t.received ++ [tagged f]) ≤ total s.accepted := by
      refine total_le_total fun id => ?_
      have bytes := congrArg List.length (link.conserved id)
      simp only [List.map_cons, payload_cons, payload_append, payload_nil, List.append_nil,
        List.length_append] at bytes ⊢
      omega
    have credit := sender.sessionCredit
    have solvent := sender.sessionSolvent
    have room := receiver.sessionRoom
    simp only [total_append, total_cons, total_nil, tagged] at less
    omega

/-- The frame at the head of a channel is accepted, and this is what becomes of the
receiver. -/
theorem frameStep_accepts {f : SlStreamFrame} (sender : Endpoint window role s)
    (receiver : Endpoint window (peer role) t) (link : Link s t (f :: w)) :
    (t.mux.onFrame f).2 = true ∧
    Changed t.mux (t.mux.onFrame f).1 f.streamId
      (received (t.mux.recordOf f.streamId) f) ∧
    (t.mux.onFrame f).1.sessionFlow = { t.mux.sessionFlow with
      recvWindow := t.mux.sessionFlow.recvWindow - f.payload.1.length } ∧
    (t.mux.onFrame f).1.idAlloc = t.mux.idAlloc := by
  obtain ⟨data, knows⟩ := link.frames f (by simp)
  obtain ⟨nonzero, reachable⟩ := link.known f.streamId knows
  have accepting : (t.mux.recordOf f.streamId).state.canRecv = true :=
    canRecv_of_not_closed (receiver.streams f.streamId).opened
      fun closed => link.silent f.streamId closed f (by simp) rfl
  exact onFrame_accepts data nonzero reachable accepting
    (head_hasRoom sender receiver link)

theorem frameStep_endpoint {f : SlStreamFrame} (sender : Endpoint window role s)
    (h : Endpoint window (peer role) t) (link : Link s t (f :: w)) :
    Endpoint window (peer role) (frameStep t f) := by
  obtain ⟨ok, changed, session, alloc⟩ := frameStep_accepts sender h link
  have sessionRoom := h.sessionRoom
  refine ⟨changed.role.trans h.role, by simpa only [frameStep, alloc] using h.nextId,
    fun other => ?_, by simpa only [frameStep, session] using h.sessionCredit,
    by simpa only [frameStep, session] using h.sessionSolvent, ?_⟩
  all_goals simp only [frameStep, ok, session, if_true]
  · have before := h.streams other
    rw [changed.record other]
    by_cases here : other = f.streamId
    · subst here
      obtain ⟨flow, inbound, _⟩ := received_fields (t.mux.recordOf f.streamId) f
      have room := before.room
      simp only [if_true]
      refine ⟨(received_closed f).2.2 before.opened, by rw [flow]; exact before.credit,
        by rw [flow]; exact before.solvent, by simp [before.buffered, inbound, tagged], ?_⟩
      simp only [flow, payload_append, payload_cons, tagged, payload_nil, if_true, List.append_nil,
        List.length_append]
      omega
    · simpa [here, Ne.symm here, tagged] using before
  · simp only [total_append, total_cons, total_nil, tagged]
    omega

theorem frameStep_receives {f : SlStreamFrame} (sender : Endpoint window role s)
    (receiver : Endpoint window (peer role) t) (link : Link s t (f :: w)) :
    Link s (frameStep t f) w := by
  obtain ⟨ok, changed, _, _⟩ := frameStep_accepts sender receiver link
  obtain ⟨headLast, tailLast⟩ := List.pairwise_cons.mp link.last
  -- the only stream that may have closed is the one whose FIN this is
  have closes : ∀ id, RemoteClosed ((frameStep t f).mux.recordOf id) →
      RemoteClosed (t.mux.recordOf id) ∨ (id = f.streamId ∧ f.fin = true) := by
    intro id
    simp only [frameStep, changed.record]
    split
    next here =>
      rw [here]
      exact fun closed => ((received_closed f).2.1 closed).imp_right fun fin => ⟨rfl, fin⟩
    · exact Or.inl
  constructor
  case conserved =>
    intro id
    have before := link.conserved id
    simp only [frameStep, ok, if_true]
    simpa using before
  case last => exact tailLast
  case finished =>
    intro id closing
    refine link.finished id ?_
    rcases closing with closed | ⟨g, member, fin, same⟩
    · rcases closes id closed with before | ⟨rfl, fin⟩
      · exact Or.inl before
      · exact Or.inr ⟨f, by simp, fin, rfl⟩
    · exact Or.inr ⟨g, by simp [member], fin, same⟩
  case silent =>
    intro id closed g member
    rcases closes id closed with before | ⟨rfl, fin⟩
    · exact link.silent id before g (by simp [member])
    · exact headLast g member fin
  case frames => exact fun g member => link.frames g (by simp [member])
  case known =>
    intro id knows
    obtain ⟨nonzero, reachable⟩ := link.known id knows
    refine ⟨nonzero, reachable.imp (fun k => (changed.known id).mpr (Or.inl k)) fun belongs => ?_⟩
    simp only [frameStep, changed.role]
    exact belongs

theorem frameStep_sends {f : SlStreamFrame} {back : List SlStreamFrame}
    (sender : Endpoint window role s) (receiver : Endpoint window (peer role) t)
    (link : Link s t (f :: w)) (h : Link t s back) : Link (frameStep t f) s back := by
  obtain ⟨_, changed, _, _⟩ := frameStep_accepts sender receiver link
  obtain ⟨_, _, outbound⟩ := received_fields (t.mux.recordOf f.streamId) f
  obtain ⟨_, knows⟩ := link.frames f (by simp)
  have queues := recordOf_related changed.record
    (Q := fun before after => after.outbound = before.outbound) (fun _ => rfl) outbound
  have closes := recordOf_related changed.record
    (Q := fun before after => LocalClosed before → LocalClosed after)
    (fun _ closed => closed) (received_closed f).1.mpr
  refine h.sender rfl queues closes (fun id k => (changed.known id).mpr (Or.inl k)) (fun id k => ?_)
  refine ((changed.known id).mp k).imp_right ?_
  rintro rfl
  exact ⟨(link.known f.streamId knows).1, Or.inl knows⟩

end Steps

/-! ## The whole net -/

structure Inv (window : UInt32) (n : Net) : Prop where
  endpoint : ∀ r, Endpoint window r (n.side r)
  link : ∀ r, Link (n.side r) (n.side (peer r)) (n.wire r)

theorem peer_ne (r : SlStreamRole) : peer r ≠ r := by cases r <;> decide

theorem eq_or_peer (r q : SlStreamRole) : q = r ∨ q = peer r := by cases r <;> cases q <;> decide

/-- A net in which one side and the channels were replaced. -/
theorem Inv.replace {window : UInt32} {n : Net} (h : Inv window n) (r : SlStreamRole) (s : Side)
    (wire : SlStreamRole → List SlStreamFrame) (endpoint : Endpoint window r s)
    (sends : Link s (n.side (peer r)) (wire r))
    (receives : Link (n.side (peer r)) s (wire (peer r))) :
    Inv window { side := Function.update n.side r s, wire } := by
  constructor
  · intro q
    rcases eq_or_peer r q with rfl | rfl
    · simpa using endpoint
    · simpa [Function.update_of_ne (peer_ne r)] using h.endpoint (peer r)
  · intro q
    rcases eq_or_peer r q with rfl | rfl
    · simpa [Function.update_of_ne (peer_ne q)] using sends
    · simpa [Function.update_of_ne (peer_ne r)] using receives

theorem inv_start (window : UInt32) : Inv window (start window) := by
  constructor
  · intro r
    constructor
    case role => rfl
    case nextId =>
      have first : OwnParity r (slStreamIdInit r).nextId := by
        unfold OwnParity
        cases r <;> decide
      exact first
    case streams =>
      intro id
      constructor <;> simp [start, StreamMultiplexer.new, recordOf,
        find, newRecord, slFlowInitWith, StreamState.openState]
    all_goals simp [start, StreamMultiplexer.new,
      slFlowInitWith]
  · intro r
    constructor
    case known => simp [start, StreamMultiplexer.new, Known, find]
    all_goals simp [start, StreamMultiplexer.new, recordOf, find,
      newRecord, StreamState.openState, RemoteClosed]

theorem step_keeps (window : UInt32) (n : Net) (a : Action) (h : Inv window n) :
    Inv window (step n a).1 ∧ (step n a).2 ≠ some false := by
  cases a with
  | openStream r prio =>
    have role := (h.endpoint (peer r)).role
    exact ⟨h.replace r _ n.wire (openStep_endpoint (h.endpoint r) prio)
      (openStep_sends (h.link r) (h.endpoint r) role prio)
      (openStep_receives (by simpa using h.link (peer r)) prio), by simp [step]⟩
  | sendData r id data fin =>
    exact ⟨h.replace r _ n.wire (sendStep_endpoint (h.endpoint r) id data fin)
      (sendStep_sends (h.link r) id data fin)
      (sendStep_receives (by simpa using h.link (peer r)) id data fin), by simp [step]⟩
  | popOutbound r order =>
    refine ⟨h.replace r _ _ (popStep_endpoint (h.endpoint r) order) ?_ ?_, by simp [step]⟩
    · simpa using popStep_sends (h.link r) order
    · rw [Function.update_of_ne (peer_ne r)]
      exact popStep_receives (by simpa using h.link (peer r)) order
  | readInbound r id =>
    exact ⟨h.replace r _ n.wire (readStep_endpoint (h.endpoint r) id)
      (readStep_sends (h.link r) id)
      (readStep_receives (by simpa using h.link (peer r)) id), by simp [step]⟩
  | deliver r =>
    cases frames : n.wire r with
    | nil => simpa [step, frames] using h
    | cons f rest =>
      have link := h.link r
      rw [frames] at link
      have sender := h.endpoint r
      have receiver := h.endpoint (peer r)
      obtain ⟨ok, _⟩ := frameStep_accepts sender receiver link
      simp only [step, frames]
      refine ⟨h.replace (peer r) _ _ (frameStep_endpoint sender receiver link) ?_ ?_, by simp [ok]⟩
      · rw [peer_peer, Function.update_of_ne (peer_ne r)]
        exact frameStep_sends sender receiver link (by simpa using h.link (peer r))
      · rw [peer_peer, Function.update_self]
        exact frameStep_receives sender receiver link

/-- In every run no frame is refused, and on every stream in either direction nothing is
lost, repeated or reordered. -/
theorem streams_delivered_in_order (window : UInt32) (actions : List Action) :
    some false ∉ outputs step (start window) actions ∧
    ∀ (r : SlStreamRole) (id : UInt32),
      let n := run step (start window) actions
      payload id (n.side r).accepted =
        payload id (n.side (peer r)).read ++ ((n.side (peer r)).mux.recordOf id).inbound ++
        payload id ((n.wire r).map tagged) ++
        ((n.side r).mux.recordOf id).outbound.flatMap Subtype.val := by
  have answers : ∀ answer ∈ outputs step (start window) actions, answer ≠ some false :=
    outputs_forall (Inv window) (· ≠ some false) (fun n a h => (step_keeps window n a h).1)
      (fun n a h => (step_keeps window n a h).2) actions (inv_start window)
  have final : Inv window (run step (start window) actions) :=
    run_invariant (Inv window) (fun n a h => (step_keeps window n a h).1) actions (inv_start window)
  refine ⟨fun refused => answers _ refused rfl, fun r id => ?_⟩
  have conserved := (final.link r).conserved id
  rw [((final.endpoint (peer r)).streams id).buffered] at conserved
  exact conserved

end SecureLink.Guarantees.StreamDelivery
