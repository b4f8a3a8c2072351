import SecureLink.Library.Runs
import SecureLink.Source.Rpc.RpcDispatcher

/-!
# Statistics of the dispatcher

A request leaves `handle` (src/rpc_dispatcher.cpp:45-99) in one of five ways. Four of them
count one response, as success or as error. The fifth is a handler that throws: the catch block
counts an error and falls through to the common accounting, which counts another one.
-/
namespace SecureLink.Guarantees.DispatcherStats
open Library.BigEndian Library.Runs Source.Rpc RpcDispatcher

/-- Calls of the dispatcher; handlers may be exchanged between any two requests. -/
inductive Call where
  | register (method : Bytes) (handler : RpcHandler)
  | unregister (method : Bytes)
  | handle (requestBytes : Bytes)

def step (d : RpcDispatcher) : Call → RpcDispatcher × Option Bytes
  | .register method handler => (d.registerMethod method handler, none)
  | .unregister method => (d.unregisterMethod method, none)
  | .handle requestBytes => ((d.handle requestBytes).1, some (d.handle requestBytes).2)

/-- The ways out of `handle`. -/
inductive Exit where
  | badRequest
  | notFound
  | threw
  | answered (status : SlRpcStatus)
  deriving DecidableEq

def exitOf (d : RpcDispatcher) (requestBytes : Bytes) : Exit :=
  (slRpcRequestUnpack requestBytes).elim .badRequest fun req =>
    (d.methods.lookup (cString req.method)).elim .notFound fun handler =>
      (handler (pointed req.body req.bodyLen)).elim .threw fun result => .answered result.status

/-- The exits of the requests of a run, in order. -/
def exits (d : RpcDispatcher) : List Call → List Exit
  | [] => []
  | .handle requestBytes :: rest => exitOf d requestBytes :: exits (d.handle requestBytes).1 rest
  | call :: rest => exits (step d call).1 rest

/-- What a balanced account looks like. -/
structure Balanced (s : DispatcherStats) : Prop where
  total : s.requestsTotal.toNat = s.responsesOk.toNat + s.responsesError.toNat
  errors : s.methodNotFound.toNat + s.handlerThrew.toNat ≤ s.responsesError.toNat

/-! ## What an exit counts -/

namespace Exit

def oks (e : Exit) : Nat := if e = .answered .ok then 1 else 0

def notFounds (e : Exit) : Nat := if e = .notFound then 1 else 0

def throws (e : Exit) : Nat := if e = .threw then 1 else 0

def errors (e : Exit) : Nat := if e = .threw then 2 else if e = .answered .ok then 0 else 1

/-- One request is one response, but for a handler that throws. -/
theorem one_response (e : Exit) : 1 + e.throws = e.oks + e.errors := by
  unfold throws oks errors
  by_cases threw : e = .threw
  · simp [threw]
  · by_cases ok : e = .answered .ok <;> simp [threw, ok]

theorem causes_le_errors (e : Exit) : e.notFounds + e.throws ≤ e.errors := by
  cases e <;> simp [notFounds, throws, errors]

end Exit

/-- The counters after a request, by its exit. -/
def counted (s : DispatcherStats) (e : Exit) : DispatcherStats where
  requestsTotal := s.requestsTotal + 1
  responsesOk := s.responsesOk + UInt64.ofNat e.oks
  responsesError := s.responsesError + UInt64.ofNat e.errors
  methodNotFound := s.methodNotFound + UInt64.ofNat e.notFounds
  handlerThrew := s.handlerThrew + UInt64.ofNat e.throws

theorem handle_counted (d : RpcDispatcher) (requestBytes : Bytes) :
    (d.handle requestBytes).1 = { d with stats := counted d.stats (exitOf d requestBytes) } := by
  unfold handle exitOf
  cases slRpcRequestUnpack requestBytes with
  | none => simp [counted, Exit.oks, Exit.errors, Exit.notFounds, Exit.throws]
  | some req =>
    simp only [Option.elim_some]
    cases d.methods.lookup (cString req.method) with
    | none => simp [counted, Exit.oks, Exit.errors, Exit.notFounds, Exit.throws]
    | some handler =>
      simp only [Option.elim_some]
      cases handler (pointed req.body req.bodyLen) with
      | none =>
        simp [counted, Exit.oks, Exit.errors, Exit.notFounds, Exit.throws, SlRpcStatus.internal,
          SlRpcStatus.ok, UInt64.add_assoc]
      | some result =>
        by_cases ok : result.status = .ok <;>
          simp [ok, counted, Exit.oks, Exit.errors, Exit.notFounds, Exit.throws]

/-! ## Runs -/

/-- A counter that every exit raises by its weight is raised by a run by the sum of the weights. -/
theorem run_counter (counter : DispatcherStats → UInt64) (weight : Exit → Nat)
    (counts : ∀ s e, counter (counted s e) = counter s + UInt64.ofNat (weight e))
    (calls : List Call) (d : RpcDispatcher) :
    counter (run step d calls).stats =
      counter d.stats + UInt64.ofNat ((exits d calls).map weight).sum := by
  induction calls generalizing d with
  | nil => simp [exits]
  | cons call rest ih =>
    cases call with
    | register method handler => exact ih _
    | unregister method => exact ih _
    | handle requestBytes =>
      rw [run_cons, ih, exits, List.map_cons, List.sum_cons, UInt64.ofNat_add, ← UInt64.add_assoc,
        ← counts]
      simp only [step, handle_counted]

theorem sum_responses (es : List Exit) :
    es.length + (es.map Exit.throws).sum = (es.map Exit.oks).sum + (es.map Exit.errors).sum := by
  induction es with
  | nil => rfl
  | cons e rest ih =>
    have here := e.one_response
    simp only [List.length_cons, List.map_cons, List.sum_cons]
    omega

theorem sum_causes (es : List Exit) :
    (es.map Exit.notFounds).sum + (es.map Exit.throws).sum ≤ (es.map Exit.errors).sum := by
  induction es with
  | nil => exact Nat.le_refl 0
  | cons e rest ih =>
    have here := e.causes_le_errors
    simp only [List.map_cons, List.sum_cons]
    omega

theorem sum_throws (es : List Exit) : (es.map Exit.throws).sum = es.count .threw := by
  induction es with
  | nil => rfl
  | cons e rest ih =>
    rw [List.map_cons, List.sum_cons, ih, List.count_cons, Nat.add_comm]
    simp [Exit.throws]

/-- As long as no counter wraps around, every request counts one response, and one more error for
every handler that threw. -/
theorem run_stats (methods : AList fun _ : Bytes => RpcHandler) (calls : List Call)
    (few : (exits { methods } calls).length + (exits { methods } calls).count .threw < 2 ^ 64) :
    (run step { methods } calls).stats.requestsTotal.toNat + (exits { methods } calls).count .threw =
      (run step { methods } calls).stats.responsesOk.toNat +
        (run step { methods } calls).stats.responsesError.toNat ∧
    (run step { methods } calls).stats.methodNotFound.toNat +
        (run step { methods } calls).stats.handlerThrew.toNat ≤
      (run step { methods } calls).stats.responsesError.toNat := by
  have responses := sum_responses (exits { methods } calls)
  have causes := sum_causes (exits { methods } calls)
  rw [sum_throws] at responses
  have value (counter : DispatcherStats → UInt64) (weight : Exit → Nat) (zero : counter {} = 0)
      (counts : ∀ s e, counter (counted s e) = counter s + UInt64.ofNat (weight e))
      (small : ((exits { methods } calls).map weight).sum < 2 ^ 64) :
      (counter (run step { methods } calls).stats).toNat =
        ((exits { methods } calls).map weight).sum := by
    rw [run_counter counter weight counts, zero, UInt64.zero_add, UInt64.toNat_ofNat']
    exact Nat.mod_eq_of_lt small
  have length : ((exits { methods } calls).map fun _ => 1).sum = (exits { methods } calls).length := by
    rw [List.map_const', List.sum_replicate_nat, Nat.mul_one]
  rw [value DispatcherStats.requestsTotal (fun _ => 1) rfl (fun _ _ => rfl) (by omega), length,
    value DispatcherStats.responsesOk Exit.oks rfl (fun _ _ => rfl) (by omega),
    value DispatcherStats.responsesError Exit.errors rfl (fun _ _ => rfl) (by omega),
    value DispatcherStats.methodNotFound Exit.notFounds rfl (fun _ _ => rfl) (by omega),
    value DispatcherStats.handlerThrew Exit.throws rfl (fun _ _ => rfl) (by omega)]
  exact ⟨responses, causes⟩

/-- The account of a run balances exactly if no handler threw. -/
theorem stats_balance_iff (methods : AList fun _ : Bytes => RpcHandler) (calls : List Call)
    (few : (exits { methods } calls).length + (exits { methods } calls).count .threw < 2 ^ 64) :
    Balanced (run step { methods } calls).stats ↔ .threw ∉ exits { methods } calls := by
  obtain ⟨total, errors⟩ := run_stats methods calls few
  rw [← List.count_eq_zero]
  constructor
  · intro balanced
    have balance := balanced.total
    omega
  · intro unthrown
    exact ⟨by omega, errors⟩

/-- Malformed, unknown, served. -/
theorem answered_requests_balance :
    Balanced (run step {} [.handle [], .handle (toyRequestBytes [0x61]),
      .register [0x61] (fun body => some { body }), .handle (toyRequestBytes [0x61])]).stats :=
  (stats_balance_iff ∅ _ (by decide)).mpr (by decide)

/-- One request whose handler throws is counted as two errors. -/
theorem thrown_request_counted_twice :
    (run step {} [.register [0x61] (fun _ => none), .handle (toyRequestBytes [0x61])]).stats.requestsTotal = 1 ∧
    (run step {} [.register [0x61] (fun _ => none), .handle (toyRequestBytes [0x61])]).stats.responsesError = 2 ∧
    ¬ Balanced (run step {} [.register [0x61] (fun _ => none), .handle (toyRequestBytes [0x61])]).stats :=
  ⟨by decide, by decide, fun balanced => absurd balanced.total (by decide)⟩

end SecureLink.Guarantees.DispatcherStats
