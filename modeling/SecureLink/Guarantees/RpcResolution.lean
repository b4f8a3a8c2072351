import Mathlib.Data.List.Perm.Basic
import SecureLink.Library.Runs
import SecureLink.Source.Rpc.RpcClient

/-!
# Resolution of calls

The client with its history: the promises it made, the calls it registered and the values it
set. At any time the promises made are, up to order, those that were set and those in the
table, so none is set twice and none is lost.
-/
namespace SecureLink.Guarantees.RpcResolution
open Library.BigEndian Library.Table Library.Runs Source.Rpc

structure Exchange where
  client : RpcClient := {}
  promises : Nat := 0
  registered : List (UInt32 × Promise) := []
  settled : List (Promise × RpcReply) := []

/-- What may happen to a client, from any of its threads. -/
inductive Event where
  | call (method body : Bytes) (timeoutMs : UInt32) (now : UInt64)
  | sendResult (id : UInt32) (sent : Bool)
  | response (wireBytes : Bytes)
  | sweep (now : UInt32 → UInt64)
  | cancel (status : SlRpcStatus)

/-- Values are set and calls leave the table. -/
def Exchange.settle (x : Exchange) (after : RpcClient × List (Promise × RpcReply)) : Exchange :=
  { x with client := after.1, settled := x.settled ++ after.2 }

/-- A new promise is set at once, or goes with the registered call. -/
def Exchange.start (x : Exchange) (after : RpcClient × CallResult) : Exchange :=
  match after.2 with
  | .answered r =>
    { x with client := after.1, promises := x.promises + 1, settled := x.settled ++ [(x.promises, r)] }
  | .sending id _ =>
    { x with
      client := after.1
      promises := x.promises + 1
      registered := x.registered ++ [(id, x.promises)] }

def exchangeStep (x : Exchange) : Event → Exchange × Unit
  | .call method body timeoutMs now =>
    (x.start (x.client.call x.promises method body timeoutMs now), ())
  | .sendResult id sent => (x.settle (x.client.sendResult id sent), ())
  | .response wireBytes => (x.settle (x.client.onResponse wireBytes), ())
  | .sweep now => (x.settle (x.client.sweepTimeouts now), ())
  | .cancel status => (x.settle (x.client.cancelAll status), ())

/-- Every promise is accounted for, every call in the table is registered under its id, and ids
and calls are counted. -/
structure Accounted (x : Exchange) : Prop where
  promises : (x.settled.map Prod.fst ++ x.client.waiting).Perm (List.range x.promises)
  inOrder : x.client.ids.InOrder
  distinct : (x.registered.map Prod.fst).Nodup
  owners : (x.registered.map Prod.snd).Nodup
  handedOut : ∀ e ∈ x.registered, e.1.toNat ≤ x.client.ids.allocated.toNat
  pending : ∀ e ∈ x.client.pending.entries, (e.1, e.2.promise) ∈ x.registered
  registered : ∀ e ∈ x.registered, e.2 < x.promises ∧
    (e.2 ∈ x.settled.map Prod.fst ∨ e.2 ∈ x.client.waiting)
  started : x.client.stats.callsStarted.toNat ≤ x.client.ids.allocated.toNat
  counted : x.client.stats.callsStarted.toNat = x.client.closed + size x.client.pending

theorem accounted_start : Accounted {} where
  promises := List.Perm.refl _
  inOrder := rfl
  distinct := List.nodup_nil
  owners := List.nodup_nil
  handedOut := by simp
  pending := by simp
  registered := by simp
  started := Nat.le_refl _
  counted := rfl

theorem Accounted.settle {x : Exchange} (h : Accounted x)
    {after : RpcClient × List (Promise × RpcReply)}
    (removes : RpcClient.Removes x.client after.1 after.2) : Accounted (x.settle after) := by
  have moved := removes.moved
  have sizes : size x.client.pending = after.2.length + size after.1.pending := by
    simpa [RpcClient.waiting, size] using moved.length_eq
  have small := x.client.ids.allocated.toNat_lt
  have counts := h.counted
  have closed := removes.counted (by have := h.started; omega)
  refine ⟨?_, ?_, h.distinct, h.owners, ?_, ?_, ?_, ?_, ?_⟩
  · refine List.Perm.trans ?_ h.promises
    simp only [Exchange.settle, List.map_append, List.append_assoc]
    exact moved.symm.append_left _
  · simpa only [Exchange.settle, removes.ids] using h.inOrder
  · simpa only [Exchange.settle, removes.ids] using h.handedOut
  · exact fun e he => h.pending e (removes.left he)
  · intro e he
    obtain ⟨made, either⟩ := h.registered e he
    refine ⟨made, ?_⟩
    simp only [Exchange.settle, List.map_append, List.mem_append]
    rcases either with settled | waiting
    · exact Or.inl (Or.inl settled)
    · rcases List.mem_append.mp (moved.mem_iff.mp waiting) with set | still
      · exact Or.inl (Or.inr set)
      · exact Or.inr still
  · simpa only [Exchange.settle, removes.started, removes.ids] using h.started
  · simp only [Exchange.settle, removes.started]
    omega

theorem Accounted.refuse {x : Exchange} (h : Accounted x) {c : RpcClient}
    (refuses : RpcClient.Refuses x.client c) (r : RpcReply) :
    Accounted (x.start (c, .answered r)) := by
  have more := refuses.handedOut
  have same : c.waiting = x.client.waiting := by
    rw [RpcClient.waiting, RpcClient.waiting, refuses.pending]
  refine ⟨?_, refuses.ids, h.distinct, h.owners, ?_, ?_, ?_, ?_, ?_⟩
  · simp only [Exchange.start, same, List.range_succ, List.map_append, List.map_cons, List.map_nil,
      List.append_assoc]
    calc (x.settled.map Prod.fst ++ ([x.promises] ++ x.client.waiting)).Perm
          (x.settled.map Prod.fst ++ (x.client.waiting ++ [x.promises])) :=
        List.perm_append_comm.append_left _
      _ = x.settled.map Prod.fst ++ x.client.waiting ++ [x.promises] := (List.append_assoc ..).symm
      _ |>.Perm (List.range x.promises ++ [x.promises]) := h.promises.append_right _
  · intro e he
    have := h.handedOut e he
    simp only [Exchange.start]
    omega
  · simpa only [Exchange.start, refuses.pending] using h.pending
  · intro e he
    obtain ⟨made, either⟩ := h.registered e he
    simp only [Exchange.start, List.map_append, List.mem_append, same]
    exact ⟨Nat.lt_succ_of_lt made, either.imp_left Or.inl⟩
  · have := h.started
    simp only [Exchange.start, refuses.stats]
    omega
  · have := h.counted
    simpa only [Exchange.start, RpcClient.closed, refuses.stats, refuses.pending] using this

/-- The next id is not in the table. -/
theorem Accounted.fresh {x : Exchange} (h : Accounted x) {id : UInt32}
    (next : id.toNat = x.client.ids.allocated.toNat + 1) :
    x.client.pending.lookup id = none ∧ id ∉ x.registered.map Prod.fst := by
  have unused : id ∉ x.registered.map Prod.fst := by
    intro used
    obtain ⟨e, he, rfl⟩ := List.mem_map.mp used
    have := h.handedOut e he
    omega
  refine ⟨?_, unused⟩
  cases found : x.client.pending.lookup id with
  | none => rfl
  | some p =>
    have entry := h.pending ⟨id, p⟩ (AList.mem_lookup_iff.mp found)
    exact absurd (List.mem_map_of_mem entry) unused

theorem Accounted.register {x : Exchange} (h : Accounted x) {c : RpcClient} {id : UInt32}
    (registers : RpcClient.Registers x.client c x.promises id) (wire : Bytes) :
    Accounted (x.start (c, .sending id wire)) := by
  obtain ⟨unknown, unused⟩ := h.fresh registers.next
  obtain ⟨deadlineMs, pending⟩ := registers.pending
  have more := registers.handedOut
  have next := registers.next
  rw [unknown, Option.isSome_none, if_neg Bool.false_ne_true] at pending
  have entries : c.pending.entries = ⟨id, { promise := x.promises, deadlineMs }⟩ ::
      x.client.pending.entries := by
    rw [pending, insert_perm unknown]
  have waiting : c.waiting = x.promises :: x.client.waiting := by
    simp only [RpcClient.waiting, entries, List.map_cons]
  have count : c.stats.callsStarted.toNat = x.client.stats.callsStarted.toNat + 1 := by
    have small := c.ids.allocated.toNat_lt
    have started := h.started
    rw [registers.stats]
    exact RpcClient.toNat_count (n := 1) (by omega)
  refine ⟨?_, registers.ids, ?_, ?_, ?_, ?_, ?_, ?_, ?_⟩
  · simp only [Exchange.start, waiting, List.range_succ]
    calc (x.settled.map Prod.fst ++ x.promises :: x.client.waiting).Perm
          (x.promises :: (x.settled.map Prod.fst ++ x.client.waiting)) := List.perm_middle
      _ |>.Perm (x.settled.map Prod.fst ++ x.client.waiting ++ [x.promises]) :=
        (List.perm_append_singleton _ _).symm
      _ |>.Perm (List.range x.promises ++ [x.promises]) := h.promises.append_right _
  · simp only [Exchange.start, List.map_append, List.map_cons, List.map_nil]
    exact List.nodup_append_comm.mp (List.nodup_cons.mpr ⟨unused, h.distinct⟩)
  · have new : x.promises ∉ x.registered.map Prod.snd := by
      intro used
      obtain ⟨e, he, own⟩ := List.mem_map.mp used
      exact absurd (h.registered e he).1 (by rw [own]; exact Nat.lt_irrefl _)
    simp only [Exchange.start, List.map_append, List.map_cons, List.map_nil]
    exact List.nodup_append_comm.mp (List.nodup_cons.mpr ⟨new, h.owners⟩)
  · intro e he
    simp only [Exchange.start, List.mem_append, List.mem_singleton] at he ⊢
    rcases he with old | rfl
    · have := h.handedOut e old
      omega
    · dsimp only
      omega
  · intro e he
    simp only [Exchange.start, List.mem_append, List.mem_singleton] at he ⊢
    rw [entries] at he
    rcases List.mem_cons.mp he with rfl | old
    · exact Or.inr rfl
    · exact Or.inl (h.pending e old)
  · intro e he
    simp only [Exchange.start, waiting, List.mem_append, List.mem_singleton] at he ⊢
    rcases he with old | rfl
    · obtain ⟨made, either⟩ := h.registered e old
      exact ⟨Nat.lt_succ_of_lt made, either.imp_right (List.mem_cons_of_mem _)⟩
    · exact ⟨Nat.lt_succ_self _, Or.inr List.mem_cons_self⟩
  · have := h.started
    simp only [Exchange.start]
    omega
  · have counts := h.counted
    simp only [Exchange.start, size, entries, List.length_cons] at counts ⊢
    simp only [RpcClient.closed, registers.stats] at counts count ⊢
    omega

theorem Accounted.step {x : Exchange} (h : Accounted x) (event : Event) :
    Accounted (exchangeStep x event).1 := by
  cases event with
  | call method body timeoutMs now =>
    cases called : x.client.call x.promises method body timeoutMs now with
    | mk c result =>
      rw [exchangeStep, called]
      rcases RpcClient.call_cases h.inOrder called with ⟨r, rfl, refuses⟩ | ⟨id, wire, rfl, registers, _⟩
      · exact h.refuse refuses r
      · exact h.register registers wire
  | sendResult id sent => exact h.settle (RpcClient.removes_sendResult _ id sent)
  | response wireBytes => exact h.settle (RpcClient.removes_onResponse _ wireBytes)
  | sweep now => exact h.settle (RpcClient.removes_sweepTimeouts _ now)
  | cancel status => exact h.settle (RpcClient.removes_cancelAll _ status)

theorem accounted_run (events : List Event) : Accounted (run exchangeStep {} events) :=
  run_invariant Accounted (fun _ event h => h.step event) events accounted_start

/-- The promises of the calls are set at most once; a registered call is in the table exactly as
long as its promise is not set; no two calls have one id; a response sets the promise of the
call with its id, to what it carries; and the calls started are those counted as closed and
those in the table. -/
structure ResolvedOnce (x : Exchange) : Prop where
  once : (x.settled.map Prod.fst).Nodup
  leaves : ∀ id p, (id, p) ∈ x.registered →
    ((∃ deadlineMs, x.client.pending.lookup id = some { promise := p, deadlineMs }) ↔
      p ∉ x.settled.map Prod.fst)
  waits : ∀ p < x.promises, p ∉ x.settled.map Prod.fst → ∃ id, (id, p) ∈ x.registered
  distinct : (x.registered.map Prod.fst).Nodup
  answers : ∀ wireBytes p r, (p, r) ∈ (x.client.onResponse wireBytes).2 →
    ∃ resp, slRpcResponseUnpack wireBytes = some resp ∧ (resp.requestId, p) ∈ x.registered ∧
      r = RpcClient.reply resp
  counted : x.client.stats.callsStarted.toNat =
    x.client.stats.responsesMatched.toNat + x.client.stats.timeouts.toNat +
      x.client.stats.cancellations.toNat + x.client.stats.sendFailures.toNat +
      size x.client.pending

/-- A promise that is not set waits in the table, under an id it is registered with. -/
theorem Accounted.waits {x : Exchange} (h : Accounted x) {p : Promise} (made : p < x.promises)
    (unset : p ∉ x.settled.map Prod.fst) :
    ∃ id deadlineMs, (id, p) ∈ x.registered ∧
      x.client.pending.lookup id = some { promise := p, deadlineMs } := by
  have somewhere := h.promises.mem_iff.mpr (List.mem_range.mpr made)
  rcases List.mem_append.mp somewhere with set | waiting
  · exact absurd set unset
  · obtain ⟨⟨id, pend⟩, entry, rfl⟩ := List.mem_map.mp waiting
    exact ⟨id, pend.deadlineMs, h.pending _ entry, AList.mem_lookup_iff.mpr entry⟩

theorem Accounted.resolvedOnce {x : Exchange} (h : Accounted x) : ResolvedOnce x := by
  have nodup : (x.settled.map Prod.fst ++ x.client.waiting).Nodup :=
    h.promises.nodup_iff.mpr List.nodup_range
  refine ⟨(List.nodup_append.mp nodup).1, fun id p call => ⟨?_, fun unset => ?_⟩,
    fun p made unset => ?_, h.distinct, fun wireBytes p r set => ?_, h.counted⟩
  · rintro ⟨deadlineMs, found⟩ set
    have waiting : p ∈ x.client.waiting :=
      List.mem_map_of_mem (f := (·.2.promise)) (AList.mem_lookup_iff.mp found)
    exact (List.nodup_append.mp nodup).2.2 p set p waiting rfl
  · obtain ⟨id', deadlineMs, call', found⟩ := h.waits (h.registered _ call).1 unset
    obtain ⟨rfl, _⟩ := Prod.mk.inj (List.inj_on_of_nodup_map h.owners call call' rfl)
    exact ⟨deadlineMs, found⟩
  · obtain ⟨id, _, call, _⟩ := h.waits made unset
    exact ⟨id, call⟩
  · obtain ⟨resp, pend, read, found, rfl, rfl⟩ := RpcClient.onResponse_set set
    exact ⟨resp, read, h.pending ⟨resp.requestId, pend⟩ (AList.mem_lookup_iff.mp found), rfl⟩

/-- In every interleaving of calls, send results, responses with any bytes, sweeps at any time
and cancellations, a promise is set at most once, a response sets that of its own call, and a call
is in the table exactly as long as its promise is not set. -/
theorem calls_resolved_once (events : List Event) :
    ResolvedOnce (run exchangeStep {} events) :=
  (accounted_run events).resolvedOnce

end SecureLink.Guarantees.RpcResolution
