import Mathlib.Data.List.AList
import Mathlib.Data.List.TakeWhile
import SecureLink.Source.Rpc.RpcMsg

/-!
# RPC dispatcher

src/rpc_dispatcher.cpp:7-99. A handler is the function it computes; `none` is a call of it that
throws, as the call of an empty `std::function` does.
-/
namespace SecureLink.Source.Rpc
open Library.BigEndian

structure RpcResponse where
  status : SlRpcStatus := .ok
  body : Bytes := []
deriving DecidableEq

abbrev RpcHandler := Bytes → Option RpcResponse

structure DispatcherStats where
  requestsTotal : UInt64 := 0
  responsesOk : UInt64 := 0
  responsesError : UInt64 := 0
  methodNotFound : UInt64 := 0
  handlerThrew : UInt64 := 0

structure RpcDispatcher where
  methods : AList fun _ : Bytes => RpcHandler := ∅
  stats : DispatcherStats := {}

/-- A character array read as a string ends at its first terminator. -/
def cString (array : Bytes) : Bytes := array.takeWhile (· != 0)

theorem cString_eq_self {array : Bytes} (h : (0 : UInt8) ∉ array) : cString array = array :=
  List.takeWhile_eq_self_iff.mpr fun c member => by
    simp only [bne_iff_ne, ne_eq]
    exact fun zero => h (zero ▸ member)

namespace RpcDispatcher

def registerMethod (d : RpcDispatcher) (method : Bytes) (handler : RpcHandler) : RpcDispatcher :=
  { d with methods := d.methods.insert method handler }

def unregisterMethod (d : RpcDispatcher) (method : Bytes) : RpcDispatcher :=
  { d with methods := d.methods.erase method }

/-- A response that cannot be packed is answered with nothing. -/
def makeResponse (reqId : UInt32) (r : RpcResponse) : Bytes :=
  let resp : SlRpcResponse :=
    { requestId := reqId
      status := r.status
      body := dataPointer r.body
      bodyLen := UInt32.ofNat r.body.length }
  (slRpcResponsePack resp (12 + r.body.length)).getD []

def handle (d : RpcDispatcher) (requestBytes : Bytes) : RpcDispatcher × Bytes :=
  let s := { d.stats with requestsTotal := d.stats.requestsTotal + 1 }
  match slRpcRequestUnpack requestBytes with
  | none =>
    ({ d with stats := { s with responsesError := s.responsesError + 1 } },
      makeResponse 0 { status := .badRequest })
  | some req =>
    match d.methods.lookup (cString req.method) with
    | none =>
      ({ d with stats :=
          { s with methodNotFound := s.methodNotFound + 1, responsesError := s.responsesError + 1 } },
        makeResponse req.requestId { status := .notFound })
    | some handler =>
      let thrown := handler (pointed req.body req.bodyLen)
      -- a thrown handler is counted as an error here, and once more with its response below
      let s := if thrown.isNone then
          { s with handlerThrew := s.handlerThrew + 1, responsesError := s.responsesError + 1 }
        else s
      let result := thrown.getD { status := .internal }
      let s := if result.status == .ok then { s with responsesOk := s.responsesOk + 1 }
        else { s with responsesError := s.responsesError + 1 }
      ({ d with stats := s }, makeResponse req.requestId result)

/-- What the dispatcher answers to a request: the response of the method's handler. -/
def result (d : RpcDispatcher) (req : SlRpcRequest) : RpcResponse :=
  match d.methods.lookup (cString req.method) with
  | none => { status := .notFound }
  | some handler => (handler (pointed req.body req.bodyLen)).getD { status := .internal }

theorem result_unknown {d : RpcDispatcher} {req : SlRpcRequest}
    (missing : d.methods.lookup (cString req.method) = none) :
    d.result req = { status := .notFound } := by
  simp only [result, missing]

theorem result_known {d : RpcDispatcher} {req : SlRpcRequest} {handler : RpcHandler}
    (found : d.methods.lookup (cString req.method) = some handler) :
    d.result req = (handler (pointed req.body req.bodyLen)).getD { status := .internal } := by
  simp only [result, found]

theorem handle_request (d : RpcDispatcher) {requestBytes : Bytes} {req : SlRpcRequest}
    (accepted : slRpcRequestUnpack requestBytes = some req) :
    (d.handle requestBytes).2 = makeResponse req.requestId (d.result req) := by
  simp only [handle, accepted, result]
  cases d.methods.lookup (cString req.method) <;> rfl

/-- The call of a handler that `handle` makes, with the name the handler was found under. -/
structure Invocation where
  name : Bytes
  handler : RpcHandler
  body : Bytes

def invocation (d : RpcDispatcher) (requestBytes : Bytes) : Option Invocation :=
  (slRpcRequestUnpack requestBytes).bind fun req =>
    (d.methods.lookup (cString req.method)).map fun handler =>
      { name := cString req.method, handler, body := pointed req.body req.bodyLen }

/-- The answer to a request is that of the handler called, or that there was none. -/
theorem handle_invocation (d : RpcDispatcher) {requestBytes : Bytes} {req : SlRpcRequest}
    (accepted : slRpcRequestUnpack requestBytes = some req) :
    (d.handle requestBytes).2 = makeResponse req.requestId
      ((d.invocation requestBytes).elim { status := .notFound }
        (fun call => (call.handler call.body).getD { status := .internal })) := by
  rw [d.handle_request accepted, invocation, accepted, Option.bind_some]
  cases found : d.methods.lookup (cString req.method) with
  | none => rw [result_unknown found]; rfl
  | some handler => rw [result_known found]; rfl

theorem handle_methods (d : RpcDispatcher) (requestBytes : Bytes) :
    (d.handle requestBytes).1.methods = d.methods := by
  unfold handle
  dsimp only
  split
  · rfl
  · split <;> rfl

/-- A body whose length field is too large is answered with nothing. -/
theorem makeResponse_long (reqId : UInt32) {r : RpcResponse}
    (long : slRpcBodyMax < (UInt32.ofNat r.body.length).toNat) : makeResponse reqId r = [] := by
  simp only [makeResponse, slRpcResponsePack]
  rw [if_pos long, Option.getD_none]

theorem makeResponse_short (reqId : UInt32) {r : RpcResponse}
    (short : (UInt32.ofNat r.body.length).toNat ≤ slRpcBodyMax) :
    slRpcResponseUnpack (makeResponse reqId r) = some
      { requestId := reqId
        status := ⟨r.status.code.toUInt8.toUInt32⟩
        body := if UInt32.ofNat r.body.length > 0 then
          some (r.body.take (UInt32.ofNat r.body.length).toNat) else none
        bodyLen := UInt32.ofNat r.body.length } := by
  have covered : (UInt32.ofNat r.body.length).toNat ≤ r.body.length := by
    rw [UInt32.toNat_ofNat']
    exact Nat.mod_le _ _
  have held : SlRpcResponse.Held ⟨reqId, r.status, dataPointer r.body, UInt32.ofNat r.body.length⟩ :=
    held_dataPointer covered
  have back := slRpcResponseUnpack_wire held short []
  rw [List.append_nil, Wire.received, ← pointed_eq, pointed_dataPointer] at back
  have room := Nat.add_le_add_left covered 12
  rw [← SlRpcResponse.length_wire held] at room
  rw [makeResponse, slRpcResponsePack_eq held, if_pos ⟨short, room⟩]
  exact back

end RpcDispatcher

end SecureLink.Source.Rpc
