import SecureLink.Library.Table
import SecureLink.Source.Rpc.RpcMsg

/-!
# RPC client

src/rpc_client.cpp:10-167. A promise is the number it was made with; a function returns, beside the
client, the values it sets. `call` ends where the lock is released; what follows the call of
the send function is `sendResult`. The clock of src/sl_deadline.c:13-19 is an argument.
-/
namespace SecureLink.Source.Rpc
open Library.BigEndian Library.Table

structure RpcReply where
  status : SlRpcStatus := .ok
  body : Bytes := []
  timedOut : Bool := false
deriving DecidableEq

abbrev Promise := Nat

structure Pending where
  promise : Promise
  deadlineMs : UInt64 := 0
deriving DecidableEq

structure ClientStats where
  callsStarted : UInt64 := 0
  responsesMatched : UInt64 := 0
  timeouts : UInt64 := 0
  cancellations : UInt64 := 0
  sendFailures : UInt64 := 0
  unmatched : UInt64 := 0

structure RpcClient where
  ids : SlRpcIdAlloc := {}
  pending : AList (fun _ : UInt32 => Pending) := ∅
  stats : ClientStats := {}

/-- Under the lock a call is answered at once, or registered and about to be sent. -/
inductive CallResult where
  | answered (reply : RpcReply)
  | sending (id : UInt32) (wire : Bytes)
deriving DecidableEq

namespace RpcClient

/-- The request that `call` fills in. -/
def request (id : UInt32) (method body : Bytes) : SlRpcRequest where
  requestId := id
  method := method
  methodLen := UInt16.ofNat method.length
  body := dataPointer body
  bodyLen := UInt32.ofNat body.length

/-- A request whose lengths fit comes back from its wire. -/
theorem slRpcRequestUnpack_request (id : UInt32) {method body : Bytes} (named : 0 < method.length)
    (short : method.length ≤ slRpcMethodMax) (fits : body.length ≤ slRpcBodyMax) :
    ∃ wire, slRpcRequestPack (request id method body) (12 + method.length + body.length) = some wire ∧
      slRpcRequestUnpack wire = some (request id method body) := by
  have methodLen : (UInt16.ofNat method.length).toNat = method.length :=
    UInt16.toNat_ofNat_of_lt' (Nat.lt_of_le_of_lt short (by decide))
  have bodyLen : (UInt32.ofNat body.length).toNat = body.length :=
    UInt32.toNat_ofNat_of_lt' (Nat.lt_of_le_of_lt fits (by decide))
  have held : (request id method body).Held :=
    ⟨Nat.le_of_eq methodLen, held_dataPointer (Nat.le_of_eq bodyLen)⟩
  have within : (request id method body).Fits := by
    simp only [SlRpcRequest.Fits, request, methodLen, bodyLen]
    exact ⟨named, short, fits⟩
  have room : (request id method body).wire.length ≤ 12 + method.length + body.length := by
    rw [SlRpcRequest.length_wire held]
    simp only [request]
    omega
  have back := slRpcRequestUnpack_wire held within []
  rw [List.append_nil] at back
  refine ⟨_, by rw [slRpcRequestPack_eq held, if_pos ⟨within, room⟩], back.trans ?_⟩
  simp only [request, methodLen, List.take_length, bodyLen, received_dataPointer]

def call (c : RpcClient) (p : Promise) (method body : Bytes) (timeoutMs : UInt32) (now : UInt64) :
    RpcClient × CallResult :=
  if !slRpcMethodIsValid method then (c, .answered { status := .badRequest })
  else if body.length > slRpcBodyMax then (c, .answered { status := .badRequest })
  else
    let next := slRpcIdNext c.ids
    let c := { c with ids := next.2 }
    if next.1 == slRpcIdReserved then (c, .answered { status := .unavailable })
    else
      match slRpcRequestPack (request next.1 method body) (12 + method.length + body.length) with
      | none => (c, .answered { status := .badRequest })
      | some wire =>
        let pend : Pending :=
          { promise := p, deadlineMs := if timeoutMs > 0 then now + timeoutMs.toUInt64 else 0 }
        -- `emplace` leaves an entry that is already there
        let pending := if (c.pending.lookup next.1).isSome then c.pending
          else c.pending.insert next.1 pend
        ({ c with pending, stats := { c.stats with callsStarted := c.stats.callsStarted + 1 } },
          .sending next.1 wire)

def sendResult (c : RpcClient) (id : UInt32) (sent : Bool) :
    RpcClient × List (Promise × RpcReply) :=
  if sent then (c, [])
  else
    match c.pending.lookup id with
    | none => (c, [])
    | some p =>
      ({ c with
          pending := c.pending.erase id
          stats := { c.stats with sendFailures := c.stats.sendFailures + 1 } },
        [(p.promise, { status := .unavailable })])

/-- The reply made from a response. -/
def reply (resp : SlRpcResponse) : RpcReply where
  status := resp.status
  body := pointed resp.body resp.bodyLen

/-- It returns `true` where it sets a value. -/
def onResponse (c : RpcClient) (wireBytes : Bytes) : RpcClient × List (Promise × RpcReply) :=
  let unmatched := { c with stats := { c.stats with unmatched := c.stats.unmatched + 1 } }
  match slRpcResponseUnpack wireBytes with
  | none => (unmatched, [])
  | some resp =>
    match c.pending.lookup resp.requestId with
    | none => (unmatched, [])
    | some p =>
      ({ c with
          pending := c.pending.erase resp.requestId
          stats := { c.stats with responsesMatched := c.stats.responsesMatched + 1 } },
        [(p.promise, reply resp)])

/-- An entry with a deadline that has passed. -/
def expired (p : Pending) (now : UInt64) : Bool := p.deadlineMs != 0 && now ≥ p.deadlineMs

/-- Each entry is compared with the clock when it is visited. -/
def sweepTimeouts (c : RpcClient) (now : UInt32 → UInt64) : RpcClient × List (Promise × RpcReply) :=
  let out := c.pending.entries.filter fun e => expired e.2 (now e.1)
  ({ c with
      pending := keep (fun id p => !expired p (now id)) c.pending
      stats := { c.stats with timeouts := c.stats.timeouts + UInt64.ofNat out.length } },
    out.map fun e => (e.2.promise, { status := .unavailable, timedOut := true }))

def cancelAll (c : RpcClient) (status : SlRpcStatus) : RpcClient × List (Promise × RpcReply) :=
  ({ c with
      pending := ∅
      stats := { c.stats with
        cancellations := c.stats.cancellations + UInt64.ofNat (size c.pending) } },
    c.pending.entries.map fun e => (e.2.promise, { status }))

/-- The promises in the table. -/
def waiting (c : RpcClient) : List Promise := c.pending.entries.map (·.2.promise)

/-- The calls that were counted as closed. -/
def closed (c : RpcClient) : Nat :=
  c.stats.responsesMatched.toNat + c.stats.timeouts.toNat + c.stats.cancellations.toNat +
    c.stats.sendFailures.toNat

/-- Calls are taken out of the table: just the promises that are set, each counted once. -/
structure Removes (c c' : RpcClient) (set : List (Promise × RpcReply)) : Prop where
  moved : c.waiting.Perm (set.map Prod.fst ++ c'.waiting)
  left : c'.pending.entries ⊆ c.pending.entries
  ids : c'.ids = c.ids
  started : c'.stats.callsStarted = c.stats.callsStarted
  counted : c.closed + set.length < 2 ^ 64 → c'.closed = c.closed + set.length

theorem Removes.none {c c' : RpcClient} (pending : c'.pending = c.pending) (ids : c'.ids = c.ids)
    (started : c'.stats.callsStarted = c.stats.callsStarted) (closed : c'.closed = c.closed) :
    Removes c c' [] where
  moved := by rw [waiting, waiting, pending]; exact List.Perm.refl _
  left := by rw [pending]; exact List.Subset.refl _
  ids := ids
  started := started
  counted _ := closed

/-- A call leaves the table when its promise is set. -/
theorem removes_erase {c : RpcClient} {id : UInt32} {p : Pending}
    (found : c.pending.lookup id = some p) {stats : ClientStats}
    (started : stats.callsStarted = c.stats.callsStarted) (r : RpcReply)
    (counted : c.closed + 1 < 2 ^ 64 →
      ({ c with pending := c.pending.erase id, stats }).closed = c.closed + 1) :
    Removes c { c with pending := c.pending.erase id, stats } [(p.promise, r)] where
  moved := (erase_perm found).map _
  left := (List.kerase_sublist _ _).subset
  ids := rfl
  started := started
  counted := counted

/-- A counter below its range moves on. -/
theorem toNat_count {counter : UInt64} {n : Nat} (room : counter.toNat + n < 2 ^ 64) :
    (counter + UInt64.ofNat n).toNat = counter.toNat + n := by
  rw [UInt64.toNat_add, UInt64.toNat_ofNat', Nat.add_mod_mod, Nat.mod_eq_of_lt room]

theorem removes_sendResult (c : RpcClient) (id : UInt32) (sent : Bool) :
    Removes c (c.sendResult id sent).1 (c.sendResult id sent).2 := by
  unfold sendResult
  split
  · exact .none rfl rfl rfl rfl
  · cases found : c.pending.lookup id with
    | none => exact .none rfl rfl rfl rfl
    | some p =>
      refine removes_erase found (by rfl) _ fun room => ?_
      simp only [closed] at room ⊢
      have count : (c.stats.sendFailures + 1).toNat = c.stats.sendFailures.toNat + 1 :=
        toNat_count (n := 1) (by omega)
      omega

theorem removes_onResponse (c : RpcClient) (wireBytes : Bytes) :
    Removes c (c.onResponse wireBytes).1 (c.onResponse wireBytes).2 := by
  unfold onResponse
  cases slRpcResponseUnpack wireBytes with
  | none => exact .none rfl rfl rfl rfl
  | some resp =>
    dsimp only
    cases found : c.pending.lookup resp.requestId with
    | none => exact .none rfl rfl rfl rfl
    | some p =>
      refine removes_erase found (by rfl) _ fun room => ?_
      simp only [closed] at room ⊢
      have count : (c.stats.responsesMatched + 1).toNat = c.stats.responsesMatched.toNat + 1 :=
        toNat_count (n := 1) (by omega)
      omega

theorem removes_sweepTimeouts (c : RpcClient) (now : UInt32 → UInt64) :
    Removes c (c.sweepTimeouts now).1 (c.sweepTimeouts now).2 := by
  have split := (keep_perm (fun id p => !expired p (now id)) c.pending).map (·.2.promise)
  simp only [Bool.not_not, List.map_append] at split
  refine ⟨?_, List.filter_sublist.subset, rfl, rfl, fun room => ?_⟩
  · simp only [sweepTimeouts, List.map_map]
    exact split
  · simp only [sweepTimeouts, closed, List.length_map] at room ⊢
    rw [toNat_count (by omega)]
    omega

theorem removes_cancelAll (c : RpcClient) (status : SlRpcStatus) :
    Removes c (c.cancelAll status).1 (c.cancelAll status).2 := by
  refine ⟨?_, List.nil_subset _, rfl, rfl, fun room => ?_⟩
  · simp only [cancelAll, waiting, List.map_map, AList.empty_entries, List.map_nil,
      List.append_nil]
    exact List.Perm.refl _
  · simp only [cancelAll, closed, size, List.length_map] at room ⊢
    rw [toNat_count (by omega)]
    omega

/-- A response to a waiting call sets its promise. -/
theorem onResponse_waiting {c : RpcClient} {wireBytes : Bytes} {resp : SlRpcResponse} {p : Pending}
    (read : slRpcResponseUnpack wireBytes = some resp)
    (found : c.pending.lookup resp.requestId = some p) :
    (c.onResponse wireBytes).2 = [(p.promise, reply resp)] := by
  simp only [onResponse, read, found]

/-- A value set by a response goes to the call that waits under the response's id. -/
theorem onResponse_set {c : RpcClient} {wireBytes : Bytes} {p : Promise} {r : RpcReply}
    (set : (p, r) ∈ (c.onResponse wireBytes).2) :
    ∃ resp pend, slRpcResponseUnpack wireBytes = some resp ∧
      c.pending.lookup resp.requestId = some pend ∧ p = pend.promise ∧ r = reply resp := by
  unfold onResponse at set
  cases read : slRpcResponseUnpack wireBytes with
  | none =>
    rw [read] at set
    cases set
  | some resp =>
    rw [read] at set
    dsimp only at set
    cases found : c.pending.lookup resp.requestId with
    | none =>
      rw [found] at set
      cases set
    | some pend =>
      rw [found] at set
      have same := List.mem_singleton.mp set
      exact ⟨resp, pend, rfl, found, congrArg Prod.fst same, congrArg Prod.snd same⟩

/-- A call is answered at once, with the table as it was. -/
structure Refuses (c c' : RpcClient) : Prop where
  pending : c'.pending = c.pending
  stats : c'.stats = c.stats
  ids : c'.ids.InOrder
  handedOut : c.ids.allocated.toNat ≤ c'.ids.allocated.toNat

/-- A call is registered under the next id. -/
structure Registers (c c' : RpcClient) (p : Promise) (id : UInt32) : Prop where
  pending : ∃ deadlineMs, c'.pending = if (c.pending.lookup id).isSome then c.pending
    else c.pending.insert id { promise := p, deadlineMs }
  stats : c'.stats = { c.stats with callsStarted := c.stats.callsStarted + 1 }
  ids : c'.ids.InOrder
  next : id.toNat = c.ids.allocated.toNat + 1
  handedOut : c'.ids.allocated.toNat = c.ids.allocated.toNat + 1

theorem call_cases {c c' : RpcClient} (inOrder : c.ids.InOrder) {p : Promise} {method body : Bytes}
    {timeoutMs : UInt32} {now : UInt64} {result : CallResult}
    (h : c.call p method body timeoutMs now = (c', result)) :
    (∃ r, result = .answered r ∧ Refuses c c') ∨
    ∃ id wire, result = .sending id wire ∧ Registers c c' p id ∧
      slRpcMethodIsValid method = true ∧ body.length ≤ slRpcBodyMax ∧
      slRpcRequestPack (request id method body) (12 + method.length + body.length) = some wire := by
  have refuse : ∀ {r}, (c, CallResult.answered r) = (c', result) →
      ∃ r, result = .answered r ∧ Refuses c c' := by
    intro r same
    obtain ⟨rfl, rfl⟩ := Prod.mk.inj same
    exact ⟨r, rfl, rfl, rfl, inOrder, Nat.le_refl _⟩
  unfold call at h
  by_cases valid : slRpcMethodIsValid method = true
  · by_cases fits : body.length ≤ slRpcBodyMax
    · rw [if_neg (by simp [valid]), if_neg (by omega)] at h
      dsimp only at h
      rcases slRpcIdNext_cases inOrder with used | ⟨nonzero, ids, next, handedOut⟩
      · rw [used, if_pos (by rfl)] at h
        exact Or.inl (refuse h)
      · rw [if_neg (by simpa using nonzero)] at h
        cases packed : slRpcRequestPack (request (slRpcIdNext c.ids).1 method body)
            (12 + method.length + body.length) with
        | none =>
          rw [packed] at h
          obtain ⟨rfl, rfl⟩ := Prod.mk.inj h
          exact Or.inl ⟨_, rfl, rfl, rfl, ids, by dsimp only; omega⟩
        | some wire =>
          rw [packed] at h
          obtain ⟨rfl, rfl⟩ := Prod.mk.inj h
          exact Or.inr ⟨_, wire, rfl, ⟨⟨_, rfl⟩, rfl, ids, next, handedOut⟩, valid, fits, packed⟩
    · rw [if_neg (by simp [valid]), if_pos (by omega)] at h
      exact Or.inl (refuse h)
  · rw [if_pos (by simp [valid])] at h
    exact Or.inl (refuse h)

end RpcClient

end SecureLink.Source.Rpc
