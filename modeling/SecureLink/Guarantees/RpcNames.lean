import SecureLink.Source.Rpc.RpcDispatcher

/-!
# Handlers and the names of their methods

A request carries the length of its method name, but the table is searched for the C string in
front of the first NUL. Names with a NUL inside reach the handler of a shorter name, or none.
-/
namespace SecureLink.Guarantees.RpcNames
open Library.BigEndian Source.Rpc RpcDispatcher

/-- A handler is called exactly if the request names it in full, and then that one. -/
structure ByExactName (d : RpcDispatcher) (requestBytes : Bytes) (req : SlRpcRequest) : Prop where
  registered : (d.invocation requestBytes).isSome ↔ req.method ∈ d.methods
  own : ∀ call ∈ d.invocation requestBytes,
    call.name = req.method ∧ d.methods.lookup req.method = some call.handler ∧
      (d.handle requestBytes).2 =
        makeResponse req.requestId ((call.handler call.body).getD { status := .internal })
  unknown : req.method ∉ d.methods →
    (d.handle requestBytes).2 = makeResponse req.requestId { status := .notFound }

theorem cString_eq_iff (array : Bytes) : cString array = array ↔ (0 : UInt8) ∉ array := by
  refine ⟨fun same member => ?_, cString_eq_self⟩
  rw [← same] at member
  exact absurd (List.mem_takeWhile_imp member) (by decide)

section
variable {d : RpcDispatcher} {requestBytes : Bytes} {req : SlRpcRequest}
  (accepted : slRpcRequestUnpack requestBytes = some req)
include accepted

theorem invocation_isSome :
    (d.invocation requestBytes).isSome ↔ cString req.method ∈ d.methods := by
  rw [invocation, accepted, Option.bind_some, Option.isSome_map, AList.lookup_isSome]

theorem invocation_some {call : Invocation} (called : d.invocation requestBytes = some call) :
    call.name = cString req.method ∧ d.methods.lookup (cString req.method) = some call.handler := by
  rw [invocation, accepted, Option.bind_some, Option.map_eq_some_iff] at called
  obtain ⟨handler, found, rfl⟩ := called
  exact ⟨rfl, found⟩

/-- A request that decodes is dispatched by its exact name, exactly if the name has no zero octet, or
neither the name nor the part before the zero is registered. -/
theorem by_exact_name_iff :
    ByExactName d requestBytes req ↔
      (0 : UInt8) ∉ req.method ∨ (cString req.method ∉ d.methods ∧ req.method ∉ d.methods) := by
  have answer := d.handle_invocation accepted
  constructor
  · intro exactly
    by_cases plain : (0 : UInt8) ∉ req.method
    · exact .inl plain
    · -- the name found is not the name asked for, so nothing may have been found
      have uncalled : d.invocation requestBytes = none := by
        cases called : d.invocation requestBytes with
        | none => rfl
        | some call =>
          have name := (exactly.own call called).1
          rw [(invocation_some accepted called).1, cString_eq_iff] at name
          exact absurd name plain
      have missing : ¬ (d.invocation requestBytes).isSome := by simp [uncalled]
      exact .inr ⟨fun found => missing ((invocation_isSome accepted).mpr found),
        fun found => missing (exactly.registered.mpr found)⟩
  · intro cond
    have same : cString req.method ∈ d.methods ↔ req.method ∈ d.methods := by
      rcases cond with plain | absent
      · rw [cString_eq_self plain]
      · exact iff_of_false absent.1 absent.2
    refine ⟨(invocation_isSome accepted).trans same, ?_, ?_⟩
    · intro call called
      obtain ⟨name, found⟩ := invocation_some accepted called
      have known : cString req.method ∈ d.methods := AList.lookup_isSome.mp (by rw [found]; rfl)
      have plain : cString req.method = req.method :=
        cString_eq_self (cond.resolve_right fun absent => absent.1 known)
      rw [plain] at name found
      exact ⟨name, found, by rw [answer, called, Option.elim_some]⟩
    · intro missing
      have uncalled : d.invocation requestBytes = none := by
        rw [← Option.not_isSome_iff_eq_none, invocation_isSome accepted, same]
        exact missing
      rw [answer, uncalled, Option.elim_none]

end

/-- A table with the method `a`. -/
def toyTable : RpcDispatcher := registerMethod {} [0x61] fun body => some { body }

theorem plain_name_reaches_handler :
    ByExactName toyTable (toyRequestBytes [0x61]) (toyRequest [0x61]) ∧
      (toyTable.invocation (toyRequestBytes [0x61])).isSome := by
  have accepted : slRpcRequestUnpack (toyRequestBytes [0x61]) = some (toyRequest [0x61]) := by decide
  exact ⟨(by_exact_name_iff accepted).mpr (.inl (by decide)), rfl⟩

/-- The name `a`, NUL, `b` is not in the table, and reaches the handler of `a`. -/
theorem embedded_nul_reaches_handler :
    slRpcRequestUnpack (toyRequestBytes [0x61, 0, 0x62]) = some (toyRequest [0x61, 0, 0x62]) ∧
      [0x61, 0, 0x62] ∉ toyTable.methods ∧
      (toyTable.invocation (toyRequestBytes [0x61, 0, 0x62])).map Invocation.name = some [0x61] ∧
      (toyTable.handle (toyRequestBytes [0x61, 0, 0x62])).2 = makeResponse 7 { status := .ok } := by
  refine ⟨by decide, ?_, rfl, rfl⟩
  intro member
  rw [← AList.lookup_isSome] at member
  cases member

end SecureLink.Guarantees.RpcNames
