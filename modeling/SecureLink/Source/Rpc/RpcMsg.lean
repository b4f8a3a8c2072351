import SecureLink.Source.PubSub.Topic
import SecureLink.Source.Wire.Fields

/-!
# RPC messages

src/sl_rpc_msg.c:20-103, src/sl_rpc_method.c:6-22 and src/sl_rpc_id.c:3-21. A body pointer is `none`
for `NULL`; a request's method is what its array holds in front of the terminator.
-/
namespace SecureLink.Source.Rpc
open Library.BigEndian Wire
open PubSub (isalnum)

def slRpcMethodMax : Nat := 128
def slRpcBodyMax : Nat := 16 * 1024

def slRpcRequest : UInt8 := 1
def slRpcResponse : UInt8 := 2

/-- The enumeration `sl_rpc_status_t`. The decoder casts any octet to it, so a value need not be
one of the named ones. -/
structure SlRpcStatus where
  code : UInt32
deriving DecidableEq

namespace SlRpcStatus

def ok : SlRpcStatus := ⟨0⟩
def badRequest : SlRpcStatus := ⟨1⟩
def notFound : SlRpcStatus := ⟨2⟩
def notPermitted : SlRpcStatus := ⟨3⟩
def internal : SlRpcStatus := ⟨4⟩
def rateLimited : SlRpcStatus := ⟨5⟩
def unavailable : SlRpcStatus := ⟨6⟩

/-- One of the named values. -/
def Valid (s : SlRpcStatus) : Prop :=
  s ∈ [ok, badRequest, notFound, notPermitted, internal, rateLimited, unavailable]

instance (s : SlRpcStatus) : Decidable s.Valid :=
  inferInstanceAs (Decidable
    (s ∈ [ok, badRequest, notFound, notPermitted, internal, rateLimited, unavailable]))

theorem Valid.small {s : SlRpcStatus} (h : s.Valid) : s.code.toNat < 256 := by
  have bounded : ∀ t ∈ [ok, badRequest, notFound, notPermitted, internal, rateLimited, unavailable],
      t.code.toNat < 256 := by decide
  exact bounded s h

end SlRpcStatus

structure SlRpcRequest where
  requestId : UInt32
  method : Bytes
  methodLen : UInt16
  body : Option Bytes
  bodyLen : UInt32
deriving DecidableEq

structure SlRpcResponse where
  requestId : UInt32
  status : SlRpcStatus
  body : Option Bytes
  bodyLen : UInt32
deriving DecidableEq

/-- `v.empty() ? nullptr : v.data()`. -/
def dataPointer (v : Bytes) : Option Bytes := if v.isEmpty then none else some v

/-- The `len` octets behind a pointer. -/
def pointed (p : Option Bytes) (len : UInt32) : Bytes := (p.getD []).take len.toNat

theorem pointed_dataPointer (v : Bytes) (len : UInt32) :
    pointed (dataPointer v) len = v.take len.toNat := by
  cases v <;> rfl

def slRpcRequestPack (r : SlRpcRequest) (outCap : Nat) : Option Bytes :=
  if r.methodLen == 0 || r.methodLen.toNat > slRpcMethodMax then none
  else if r.bodyLen.toNat > slRpcBodyMax then none
  else if r.bodyLen > 0 && r.body.isNone then none
  else if outCap < 1 + 1 + 4 + 2 + r.methodLen.toNat + 4 + r.bodyLen.toNat then none
  else some ([slRpcRequest, 0] ++ packU32 r.requestId ++ packU16 r.methodLen ++
    r.method.take r.methodLen.toNat ++ packU32 r.bodyLen ++ pointed r.body r.bodyLen)

def slRpcRequestUnpack (bytes : Bytes) : Option SlRpcRequest :=
  if bytes.length < 12 then none
  else if bytes.getD 0 0 != slRpcRequest then none
  else
    let methodLen := unpackU16 (bytes.drop 6)
    if methodLen == 0 || methodLen.toNat > slRpcMethodMax then none
    else if bytes.length < 8 + methodLen.toNat + 4 then none
    else
      let bodyLen := unpackU32 (bytes.drop (8 + methodLen.toNat))
      if bodyLen.toNat > slRpcBodyMax then none
      else if bytes.length < 8 + methodLen.toNat + 4 + bodyLen.toNat then none
      else some
        { requestId := unpackU32 (bytes.drop 2)
          method := (bytes.drop 8).take methodLen.toNat
          methodLen
          body := if bodyLen > 0 then
            some ((bytes.drop (8 + methodLen.toNat + 4)).take bodyLen.toNat) else none
          bodyLen }

/-- The same with every access checked: `none` is one behind the end of the input, or a body that
reaches behind it. -/
def slRpcRequestUnpackWithin (bytes : Bytes) : Option (Option SlRpcRequest) :=
  if bytes.length < 12 then pure none
  else do
    let type ← byteAt bytes 0
    if type != slRpcRequest then pure none
    else do
      let requestId ← u32At bytes 2
      let methodLen ← u16At bytes 6
      if methodLen == 0 || methodLen.toNat > slRpcMethodMax then pure none
      else if bytes.length < 8 + methodLen.toNat + 4 then pure none
      else do
        let method ← rangeAt bytes 8 methodLen.toNat
        let bodyLen ← u32At bytes (8 + methodLen.toNat)
        if bodyLen.toNat > slRpcBodyMax then pure none
        else if bytes.length < 8 + methodLen.toNat + 4 + bodyLen.toNat then pure none
        else do
          let body ← pointerAt bytes (8 + methodLen.toNat + 4) bodyLen.toNat
          pure (some { requestId, method, methodLen, body, bodyLen })

def slRpcResponsePack (r : SlRpcResponse) (outCap : Nat) : Option Bytes :=
  if r.bodyLen.toNat > slRpcBodyMax then none
  else if r.bodyLen > 0 && r.body.isNone then none
  else if outCap < 1 + 1 + 4 + 2 + 4 + r.bodyLen.toNat then none
  else some ([slRpcResponse, r.status.code.toUInt8] ++ packU32 r.requestId ++ packU16 0 ++
    packU32 r.bodyLen ++ pointed r.body r.bodyLen)

def slRpcResponseUnpack (bytes : Bytes) : Option SlRpcResponse :=
  if bytes.length < 12 then none
  else if bytes.getD 0 0 != slRpcResponse then none
  else if unpackU16 (bytes.drop 6) != 0 then none
  else
    let bodyLen := unpackU32 (bytes.drop 8)
    if bodyLen.toNat > slRpcBodyMax then none
    else if bytes.length < 12 + bodyLen.toNat then none
    else some
      { requestId := unpackU32 (bytes.drop 2)
        status := ⟨(bytes.getD 1 0).toUInt32⟩
        body := if bodyLen > 0 then some ((bytes.drop 12).take bodyLen.toNat) else none
        bodyLen }

/-- The same with every access checked. -/
def slRpcResponseUnpackWithin (bytes : Bytes) : Option (Option SlRpcResponse) :=
  if bytes.length < 12 then pure none
  else do
    let type ← byteAt bytes 0
    if type != slRpcResponse then pure none
    else do
      let status ← byteAt bytes 1
      let requestId ← u32At bytes 2
      let reserved ← u16At bytes 6
      if reserved != 0 then pure none
      else do
        let bodyLen ← u32At bytes 8
        if bodyLen.toNat > slRpcBodyMax then pure none
        else if bytes.length < 12 + bodyLen.toNat then pure none
        else do
          let body ← pointerAt bytes 12 bodyLen.toNat
          pure (some { requestId, status := ⟨status.toUInt32⟩, body, bodyLen })

/-- No access is behind the end of the input. -/
theorem slRpcRequestUnpackWithin_eq (bytes : Bytes) :
    slRpcRequestUnpackWithin bytes = some (slRpcRequestUnpack bytes) := by
  unfold slRpcRequestUnpackWithin slRpcRequestUnpack
  split
  next => rfl
  next long =>
    rw [byteAt_eq (by omega), u32At_eq (by omega), u16At_eq (by omega)]
    simp only [Option.bind_eq_bind, Option.bind_some]
    split
    next => rfl
    next =>
      split
      next => rfl
      next =>
        split
        next => rfl
        next held =>
          rw [rangeAt_eq (by omega), u32At_eq (by omega)]
          simp only [Option.bind_some]
          split
          next => rfl
          next =>
            split
            next => rfl
            next whole =>
              rw [pointerAt_eq (Nat.not_lt.mp whole)]
              rfl

theorem slRpcResponseUnpackWithin_eq (bytes : Bytes) :
    slRpcResponseUnpackWithin bytes = some (slRpcResponseUnpack bytes) := by
  unfold slRpcResponseUnpackWithin slRpcResponseUnpack
  split
  next => rfl
  next long =>
    rw [byteAt_eq (by omega), byteAt_eq (by omega), u32At_eq (by omega), u16At_eq (by omega),
      u32At_eq (by omega)]
    simp only [Option.bind_eq_bind, Option.bind_some]
    split
    next => rfl
    next =>
      split
      next => rfl
      next =>
        split
        next => rfl
        next =>
          split
          next => rfl
          next whole =>
            rw [pointerAt_eq (Nat.not_lt.mp whole)]
            rfl

/-! ## What is packed -/

theorem pointed_eq (p : Option Bytes) (len : UInt32) : pointed p len = octets p len.toNat := rfl

theorem length_pointed {p : Option Bytes} {len : UInt32} (held : len.toNat ≤ (p.getD []).length) :
    (pointed p len).length = len.toNat :=
  length_octets held

/-- A body that is held is not `NULL` unless it is empty. -/
theorem body_not_null {p : Option Bytes} {len : UInt32} (held : len.toNat ≤ (p.getD []).length) :
    ¬ (decide (len > 0) && p.isNone) = true :=
  null_unchecked held fun positive => UInt32.lt_iff_toNat_lt.mp (of_decide_eq_true positive)

theorem received_dataPointer (v : Bytes) : received (dataPointer v) v.length = dataPointer v := by
  cases v with
  | nil => rfl
  | cons c rest =>
    have pointer : dataPointer (c :: rest) = some (c :: rest) := rfl
    rw [received, if_pos (show (c :: rest).length > 0 from Nat.succ_pos _), pointer, octets,
      Option.getD_some, List.take_length]

theorem held_dataPointer {v : Bytes} {len : UInt32} (held : len.toNat ≤ v.length) :
    len.toNat ≤ ((dataPointer v).getD []).length := by
  cases v <;> exact held

namespace SlRpcRequest
variable {r : SlRpcRequest}

/-- The array and the pointer hold as many octets as the lengths say. -/
def Held (r : SlRpcRequest) : Prop :=
  r.methodLen.toNat ≤ r.method.length ∧ r.bodyLen.toNat ≤ (r.body.getD []).length

/-- The lengths are within the limits. -/
def Fits (r : SlRpcRequest) : Prop :=
  0 < r.methodLen.toNat ∧ r.methodLen.toNat ≤ slRpcMethodMax ∧ r.bodyLen.toNat ≤ slRpcBodyMax

instance (r : SlRpcRequest) : Decidable r.Fits := inferInstanceAs (Decidable (_ ∧ _ ∧ _))

def wire (r : SlRpcRequest) : Bytes :=
  slRpcRequest :: 0 :: (packU32 r.requestId ++ (packU16 r.methodLen ++
    (r.method.take r.methodLen.toNat ++ (packU32 r.bodyLen ++ pointed r.body r.bodyLen))))

theorem length_wire (held : r.Held) :
    r.wire.length = 8 + r.methodLen.toNat + 4 + r.bodyLen.toNat := by
  simp only [wire, List.length_cons, List.length_append, length_packU32, length_packU16,
    List.length_take, Nat.min_eq_left held.1, length_pointed held.2]
  omega

end SlRpcRequest

/-- The wire, unless a limit is exceeded or it does not fit. -/
theorem slRpcRequestPack_eq {r : SlRpcRequest} (held : r.Held) (outCap : Nat) :
    slRpcRequestPack r outCap = if r.Fits ∧ r.wire.length ≤ outCap then some r.wire else none := by
  rw [slRpcRequestPack, if_neg (body_not_null held.2), r.length_wire held]
  split
  next bad =>
    rw [Bool.or_eq_true, beq_iff_eq, decide_eq_true_eq] at bad
    refine (if_neg fun ok => ?_).symm
    rcases bad with zero | long
    · exact absurd ok.1.1 (by rw [zero]; decide)
    · exact Nat.not_lt.mpr ok.1.2.1 long
  next named =>
    rw [Bool.or_eq_true, beq_iff_eq, decide_eq_true_eq, not_or] at named
    split
    next long => exact (if_neg fun ok => Nat.not_lt.mpr ok.1.2.2 long).symm
    next short =>
      have fits : r.Fits :=
        ⟨Nat.pos_of_ne_zero fun zero => named.1 (UInt16.toNat_inj.mp zero), Nat.le_of_not_lt named.2,
          Nat.le_of_not_lt short⟩
      split
      next small => exact (if_neg fun ok => absurd ok.2 (by omega)).symm
      next room =>
        rw [if_pos ⟨fits, by omega⟩]
        simp only [SlRpcRequest.wire, List.append_assoc, List.cons_append, List.nil_append]

/-- A request comes back from its wire, whatever follows it. -/
theorem slRpcRequestUnpack_wire {r : SlRpcRequest} (held : r.Held) (fits : r.Fits) (rest : Bytes) :
    slRpcRequestUnpack (r.wire ++ rest) = some { r with
      method := r.method.take r.methodLen.toNat
      body := received r.body r.bodyLen.toNat } := by
  have size : (r.wire ++ rest).length = 8 + r.methodLen.toNat + 4 + r.bodyLen.toNat + rest.length := by
    rw [List.length_append, r.length_wire held]
  have layout : r.wire ++ rest = slRpcRequest :: 0 :: (packU32 r.requestId ++ (packU16 r.methodLen ++
      (r.method.take r.methodLen.toNat ++ (packU32 r.bodyLen ++ (pointed r.body r.bodyLen ++ rest))))) := by
    simp only [SlRpcRequest.wire, List.cons_append, List.append_assoc]
  generalize r.wire ++ rest = bytes at size layout
  have atId : unpackU32 (bytes.drop 2) = r.requestId := by rw [layout]; exact unpackU32_pack _ _
  have atMethodLen : unpackU16 (bytes.drop 6) = r.methodLen := by rw [layout]; exact unpackU16_pack _ _
  have atMethod : bytes.drop 8 = r.method.take r.methodLen.toNat ++
      (packU32 r.bodyLen ++ (pointed r.body r.bodyLen ++ rest)) := by rw [layout]; rfl
  have methodLen : (r.method.take r.methodLen.toNat).length = r.methodLen.toNat := by
    rw [List.length_take, Nat.min_eq_left held.1]
  have atBodyLen : bytes.drop (8 + r.methodLen.toNat) =
      packU32 r.bodyLen ++ (pointed r.body r.bodyLen ++ rest) := by
    rw [← List.drop_drop, atMethod, List.drop_left' methodLen]
  have atBody : bytes.drop (8 + r.methodLen.toNat + 4) = pointed r.body r.bodyLen ++ rest := by
    rw [← List.drop_drop, atBodyLen, List.drop_left' (length_packU32 _)]
  have named : ¬ (r.methodLen == 0 || decide (r.methodLen.toNat > slRpcMethodMax)) = true := by
    rw [Bool.or_eq_true, beq_iff_eq, decide_eq_true_eq, not_or]
    exact ⟨fun zero => absurd fits.1 (by rw [zero]; decide), Nat.not_lt.mpr fits.2.1⟩
  have first : bytes.getD 0 0 = slRpcRequest := by rw [layout]; rfl
  simp only [slRpcRequestUnpack, first, atId, atMethodLen, atBodyLen, atMethod, atBody, unpackU32_pack]
  rw [if_neg (by omega), if_neg (by decide), if_neg named, if_neg (by omega),
    if_neg (Nat.not_lt.mpr fits.2.2), if_neg (by omega), List.take_left' methodLen,
    List.take_left' (length_pointed held.2)]
  rfl

namespace SlRpcResponse
variable {r : SlRpcResponse}

/-- The pointer holds as many octets as the length says. -/
def Held (r : SlRpcResponse) : Prop := r.bodyLen.toNat ≤ (r.body.getD []).length

def Fits (r : SlRpcResponse) : Prop := r.bodyLen.toNat ≤ slRpcBodyMax

instance (r : SlRpcResponse) : Decidable r.Fits := inferInstanceAs (Decidable (_ ≤ _))

def wire (r : SlRpcResponse) : Bytes :=
  slRpcResponse :: r.status.code.toUInt8 :: (packU32 r.requestId ++ (packU16 0 ++
    (packU32 r.bodyLen ++ pointed r.body r.bodyLen)))

theorem length_wire (held : r.Held) : r.wire.length = 12 + r.bodyLen.toNat := by
  simp only [wire, List.length_cons, List.length_append, length_packU32, length_packU16,
    length_pointed held]
  omega

end SlRpcResponse

theorem slRpcResponsePack_eq {r : SlRpcResponse} (held : r.Held) (outCap : Nat) :
    slRpcResponsePack r outCap = if r.Fits ∧ r.wire.length ≤ outCap then some r.wire else none := by
  rw [slRpcResponsePack, if_neg (body_not_null held), r.length_wire held]
  split
  next long => exact (if_neg fun ok => Nat.not_lt.mpr ok.1 long).symm
  next short =>
    split
    next small => exact (if_neg fun ok => absurd ok.2 (by omega)).symm
    next room =>
      rw [if_pos ⟨Nat.le_of_not_lt short, by omega⟩]
      simp only [SlRpcResponse.wire, List.append_assoc, List.cons_append, List.nil_append]

/-- A response comes back from its wire, whatever follows it, with the low octet of its status. -/
theorem slRpcResponseUnpack_wire {r : SlRpcResponse} (held : r.Held) (fits : r.Fits) (rest : Bytes) :
    slRpcResponseUnpack (r.wire ++ rest) = some { r with
      status := ⟨r.status.code.toUInt8.toUInt32⟩
      body := received r.body r.bodyLen.toNat } := by
  have size : (r.wire ++ rest).length = 12 + r.bodyLen.toNat + rest.length := by
    rw [List.length_append, r.length_wire held]
  have layout : r.wire ++ rest = slRpcResponse :: r.status.code.toUInt8 :: (packU32 r.requestId ++
      (packU16 0 ++ (packU32 r.bodyLen ++ (pointed r.body r.bodyLen ++ rest)))) := by
    simp only [SlRpcResponse.wire, List.cons_append, List.append_assoc]
  generalize r.wire ++ rest = bytes at size layout
  have atId : unpackU32 (bytes.drop 2) = r.requestId := by rw [layout]; exact unpackU32_pack _ _
  have atZero : unpackU16 (bytes.drop 6) = 0 := by rw [layout]; exact unpackU16_pack _ _
  have atBodyLen : unpackU32 (bytes.drop 8) = r.bodyLen := by rw [layout]; exact unpackU32_pack _ _
  have atBody : bytes.drop 12 = pointed r.body r.bodyLen ++ rest := by rw [layout]; rfl
  have first : bytes.getD 0 0 = slRpcResponse := by rw [layout]; rfl
  have second : bytes.getD 1 0 = r.status.code.toUInt8 := by rw [layout]; rfl
  simp only [slRpcResponseUnpack, first, second, atId, atZero, atBodyLen, atBody]
  rw [if_neg (by omega), if_neg (by decide), if_neg (by decide), if_neg (Nat.not_lt.mpr fits),
    if_neg (by omega), List.take_left' (length_pointed held)]
  rfl

/-- The loop over the characters with `segment_len`. -/
def methodLoop : Bytes → Nat → Bool
  | [], segmentLen => segmentLen > 0
  | c :: rest, segmentLen =>
    if c == 0x2E then
      if segmentLen == 0 then false else methodLoop rest 0
    else if !(isalnum c || c == 0x5F) then false
    else methodLoop rest (segmentLen + 1)

def slRpcMethodIsValid (method : Bytes) : Bool :=
  if method.length == 0 || method.length > slRpcMethodMax then false
  else if method.head? == some 0x2E || method.getLast? == some 0x2E then false
  else methodLoop method 0

structure SlRpcIdAlloc where
  next : UInt32 := 1
  allocated : UInt32 := 0
  exhausted : Bool := false

def slRpcIdReserved : UInt32 := 0

def slRpcIdNext (a : SlRpcIdAlloc) : UInt32 × SlRpcIdAlloc :=
  if a.exhausted then (slRpcIdReserved, a)
  else if a.next == 0xFFFFFFFF then
    (a.next, { a with exhausted := true, allocated := a.allocated + 1 })
  else (a.next, { a with next := a.next + 1, allocated := a.allocated + 1 })

/-- Ids are handed out in order from 1. -/
def SlRpcIdAlloc.InOrder (a : SlRpcIdAlloc) : Prop :=
  if a.exhausted then a.allocated.toNat + 1 = 2 ^ 32 else a.next.toNat = a.allocated.toNat + 1

/-- The allocator is used up, or the id is the next in order. -/
theorem slRpcIdNext_cases {a : SlRpcIdAlloc} (h : a.InOrder) :
    slRpcIdNext a = (slRpcIdReserved, a) ∨
    (slRpcIdNext a).1 ≠ slRpcIdReserved ∧ (slRpcIdNext a).2.InOrder ∧
      (slRpcIdNext a).1.toNat = a.allocated.toNat + 1 ∧
      (slRpcIdNext a).2.allocated.toNat = a.allocated.toNat + 1 := by
  by_cases used : a.exhausted = true
  · exact Or.inl (by simp [slRpcIdNext, used])
  · rw [SlRpcIdAlloc.InOrder, if_neg used] at h
    have bound := a.next.toNat_lt
    have count : (a.allocated + 1).toNat = a.allocated.toNat + 1 := by
      rw [UInt32.toNat_add]
      exact Nat.mod_eq_of_lt (by simp; omega)
    have nonzero : a.next ≠ slRpcIdReserved := by
      intro zero
      rw [zero] at h
      simp [slRpcIdReserved] at h
    right
    by_cases last : a.next = 0xFFFFFFFF
    · have full : a.allocated.toNat + 1 = 2 ^ 32 - 1 := by
        rw [← h, last]
        rfl
      simp only [slRpcIdNext, used, last, beq_self_eq_true, if_true, Bool.false_eq_true, if_false]
      refine ⟨by decide, ?_, by rw [full]; rfl, count⟩
      simp only [SlRpcIdAlloc.InOrder, if_true, count]
      omega
    · have room : a.next.toNat ≠ 2 ^ 32 - 1 := fun top => last (UInt32.toNat_inj.mp top)
      have step : (a.next + 1).toNat = a.next.toNat + 1 := by
        rw [UInt32.toNat_add]
        exact Nat.mod_eq_of_lt (by simp; omega)
      simp only [slRpcIdNext, used, beq_iff_eq, last, Bool.false_eq_true, if_false]
      refine ⟨nonzero, ?_, h, count⟩
      simp only [SlRpcIdAlloc.InOrder, Bool.false_eq_true, if_false, count, step, h]

/-- A valid method has no terminator inside. -/
theorem methodLoop_no_nul {method : Bytes} {segmentLen : Nat}
    (valid : methodLoop method segmentLen = true) : (0 : UInt8) ∉ method := by
  induction method generalizing segmentLen with
  | nil => exact List.not_mem_nil
  | cons c rest ih =>
    rw [methodLoop] at valid
    split_ifs at valid with dot empty other
    · simp only [List.mem_cons, not_or]
      exact ⟨fun zero => absurd dot (by rw [← zero]; decide), ih valid⟩
    · simp only [List.mem_cons, not_or]
      exact ⟨fun zero => other (by rw [← zero]; rfl), ih valid⟩

theorem slRpcMethodIsValid_spec {method : Bytes} (valid : slRpcMethodIsValid method = true) :
    0 < method.length ∧ method.length ≤ slRpcMethodMax ∧ (0 : UInt8) ∉ method := by
  unfold slRpcMethodIsValid at valid
  split_ifs at valid with long
  simp only [Bool.or_eq_true, beq_iff_eq, decide_eq_true_eq, not_or] at long
  exact ⟨by omega, by omega, methodLoop_no_nul valid⟩

/-! ## A request that can be evaluated -/

def toyRequest (method : Bytes) : SlRpcRequest where
  requestId := 7
  method
  methodLen := UInt16.ofNat method.length
  body := none
  bodyLen := 0

def toyRequestBytes (method : Bytes) : Bytes := (slRpcRequestPack (toyRequest method) 64).getD []

end SecureLink.Source.Rpc
