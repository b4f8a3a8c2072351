import SecureLink.Source.Rpc.RpcDispatcher

/-!
# Answers of the dispatcher

`handle` promises a response to every request. It keeps the promise exactly when the handler
returns a body that a response can carry; for a longer one `make_response` returns the empty
vector, and the caller hears nothing.
-/
namespace SecureLink.Guarantees.RpcAnswers
open Library.BigEndian Source.Rpc

/-- The bytes are a response with the given request id. -/
def Answers (out : Bytes) (requestId : UInt32) : Prop :=
  out ≠ [] ∧ ∃ resp, slRpcResponseUnpack out = some resp ∧ resp.requestId = requestId

/-- What the request's handler returns, if there is one and it does not throw, has a body whose
length is within the limit once it is cut to 32 bits. -/
def BodyFits (d : RpcDispatcher) (req : SlRpcRequest) : Prop :=
  ∀ handler, d.methods.lookup (cString req.method) = some handler →
    ∀ r, handler (pointed req.body req.bodyLen) = some r → r.body.length % 2 ^ 32 ≤ slRpcBodyMax

theorem bodyFits_iff (d : RpcDispatcher) (req : SlRpcRequest) :
    BodyFits d req ↔ (UInt32.ofNat (d.result req).body.length).toNat ≤ slRpcBodyMax := by
  rw [UInt32.toNat_ofNat']
  unfold BodyFits
  cases found : d.methods.lookup (cString req.method) with
  | none => simp [RpcDispatcher.result_unknown found]
  | some handler =>
    rw [RpcDispatcher.result_known found]
    cases returned : handler (pointed req.body req.bodyLen) <;> simp [returned]

theorem answers_makeResponse_iff (requestId : UInt32) (r : RpcResponse) :
    Answers (RpcDispatcher.makeResponse requestId r) requestId ↔
      (UInt32.ofNat r.body.length).toNat ≤ slRpcBodyMax := by
  by_cases fits : (UInt32.ofNat r.body.length).toNat ≤ slRpcBodyMax
  · have read := RpcDispatcher.makeResponse_short requestId fits
    refine iff_of_true ⟨fun empty => ?_, _, read, rfl⟩ fits
    rw [empty] at read
    cases read
  · have nothing := RpcDispatcher.makeResponse_long requestId (Nat.lt_of_not_le fits)
    exact iff_of_false (fun answered => answered.1 nothing) fits

/-- For every dispatcher, every request it accepts and every behaviour of its handlers: the
request is answered under its id exactly if the handler's body fits. -/
theorem request_answered_iff (d : RpcDispatcher) (requestBytes : Bytes) (req : SlRpcRequest)
    (accepted : slRpcRequestUnpack requestBytes = some req) :
    Answers (d.handle requestBytes).2 req.requestId ↔ BodyFits d req := by
  rw [d.handle_request accepted, answers_makeResponse_iff, bodyFits_iff]

/-- A handler for `a` whose body is one octet too long. -/
def toyDispatcher : RpcDispatcher :=
  RpcDispatcher.registerMethod {} [0x61] fun _ =>
    some { body := List.replicate (slRpcBodyMax + 1) 0 }

/-- The unknown method `b` is answered with `SL_RPC_NOT_FOUND`. -/
theorem unknown_method_answered :
    BodyFits toyDispatcher (toyRequest [0x62]) ∧
      Answers (toyDispatcher.handle (toyRequestBytes [0x62])).2 7 := by
  have fits : BodyFits toyDispatcher (toyRequest [0x62]) := by
    intro handler found
    have missing : toyDispatcher.methods.lookup (cString (toyRequest [0x62]).method) = none := rfl
    rw [missing] at found
    cases found
  exact ⟨fits, (request_answered_iff toyDispatcher (toyRequestBytes [0x62]) (toyRequest [0x62])
    (by decide)).mpr fits⟩

/-- The method `a` is not answered at all. -/
theorem oversized_body_unanswered :
    slRpcRequestUnpack (toyRequestBytes [0x61]) = some (toyRequest [0x61]) ∧
      (toyDispatcher.handle (toyRequestBytes [0x61])).2 = [] := by
  have accepted : slRpcRequestUnpack (toyRequestBytes [0x61]) = some (toyRequest [0x61]) := by decide
  refine ⟨accepted, ?_⟩
  rw [toyDispatcher.handle_request accepted]
  apply RpcDispatcher.makeResponse_long
  have returned : toyDispatcher.result (toyRequest [0x61]) =
      { body := List.replicate (slRpcBodyMax + 1) 0 } := rfl
  rw [returned, List.length_replicate]
  decide

end SecureLink.Guarantees.RpcAnswers
