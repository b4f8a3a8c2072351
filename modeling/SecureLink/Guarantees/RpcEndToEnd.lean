import SecureLink.Guarantees.RpcResolution
import SecureLink.Source.Rpc.RpcDispatcher

/-!
# Calls end to end

A client whose send function hands requests to a dispatcher. Requests are served in any
order, and the responses are delivered in any order and any number of times. The promise of a
call is then set to the answer of the call's own method to the call's own body.
-/
namespace SecureLink.Guarantees.RpcEndToEnd
open Library.BigEndian Library.Runs Source.Rpc RpcResolution

/-- A registered call, with the request that goes to the send function. -/
structure CallRecord where
  promise : Promise
  id : UInt32
  method : Bytes
  body : Bytes
  wire : Bytes

/-- The responses carry the promise of the call they were produced for. -/
structure Net where
  dispatcher : RpcDispatcher
  exchange : Exchange := {}
  calls : List CallRecord := []
  responses : List (Promise × Bytes) := []
  delivered : List Promise := []

inductive NetEvent where
  | call (method body : Bytes) (timeoutMs : UInt32) (now : UInt64)
  | serve (k : Nat)
  | deliver (k : Nat)

/-- The record of a call, if it was registered. -/
def recorded (p : Promise) (method body : Bytes) : CallResult → List CallRecord
  | .answered _ => []
  | .sending id wire => [{ promise := p, id, method, body, wire }]

def netStep (n : Net) : NetEvent → Net × Unit
  | .call method body timeoutMs now =>
    let called := n.exchange.client.call n.exchange.promises method body timeoutMs now
    ({ n with
        exchange := n.exchange.start called
        calls := n.calls ++ recorded n.exchange.promises method body called.2 }, ())
  | .serve k =>
    match n.calls[k]? with
    | none => (n, ())
    | some c =>
      let handled := n.dispatcher.handle c.wire
      ({ n with
          dispatcher := handled.1
          exchange := (exchangeStep n.exchange (.sendResult c.id true)).1
          responses := n.responses ++ [(c.promise, handled.2)] }, ())
  | .deliver k =>
    match n.responses[k]? with
    | none => (n, ())
    | some (p, wireBytes) =>
      ({ n with
          exchange := (exchangeStep n.exchange (.response wireBytes)).1
          delivered := n.delivered ++ [p] }, ())

abbrev Methods := AList fun _ : Bytes => RpcHandler

/-- The handlers return a valid status and a body within the limit. -/
def Serves (methods : Methods) : Prop :=
  ∀ method handler body r, methods.lookup method = some handler → handler body = some r →
    r.status.Valid ∧ r.body.length ≤ slRpcBodyMax

/-- What the handler registered under a method returns for a body. -/
def ownAnswer (methods : Methods) (method body : Bytes) : RpcReply :=
  match methods.lookup method with
  | none => { status := .notFound }
  | some handler =>
    match handler body with
    | none => { status := .internal }
    | some r => { status := r.status, body := r.body }

/-- The status octet and the body of a response within the limits read back as they were. -/
theorem reply_makeResponse (id : UInt32) {r : RpcResponse} (valid : r.status.Valid)
    (fits : r.body.length ≤ slRpcBodyMax) :
    ∃ resp, slRpcResponseUnpack (RpcDispatcher.makeResponse id r) = some resp ∧
      resp.requestId = id ∧ RpcClient.reply resp = { status := r.status, body := r.body } := by
  have length : (UInt32.ofNat r.body.length).toNat = r.body.length :=
    UInt32.toNat_ofNat_of_lt' (Nat.lt_of_le_of_lt fits (by decide))
  have octet : r.status.code.toUInt8.toUInt32 = r.status.code := by
    apply UInt32.toNat_inj.mp
    simpa using valid.small
  refine ⟨_, RpcDispatcher.makeResponse_short id (by rw [length]; exact fits), rfl, ?_⟩
  have whole : pointed (if UInt32.ofNat r.body.length > 0 then
      some (r.body.take (UInt32.ofNat r.body.length).toNat) else none)
      (UInt32.ofNat r.body.length) = r.body := by
    rw [length, List.take_length, pointed, length]
    split_ifs with nonempty
    · exact List.take_length
    · have zero : r.body.length = 0 := by
        rw [gt_iff_lt, UInt32.lt_iff_toNat_lt, length] at nonempty
        exact Nat.eq_zero_of_not_pos nonempty
      rw [List.length_eq_zero_iff.mp zero]
      rfl
  simp only [RpcClient.reply, octet, whole]

/-- A served request is answered under its id with the method's own answer. -/
theorem served {d : RpcDispatcher} (serves : Serves d.methods) {c : CallRecord}
    (valid : slRpcMethodIsValid c.method = true) (fits : c.body.length ≤ slRpcBodyMax)
    (packed : slRpcRequestPack (RpcClient.request c.id c.method c.body)
      (12 + c.method.length + c.body.length) = some c.wire) :
    ∃ resp, slRpcResponseUnpack (d.handle c.wire).2 = some resp ∧ resp.requestId = c.id ∧
      RpcClient.reply resp = ownAnswer d.methods c.method c.body := by
  obtain ⟨named, short, noNul⟩ := slRpcMethodIsValid_spec valid
  obtain ⟨wire, packed', unpacked⟩ := RpcClient.slRpcRequestUnpack_request c.id named short fits
  obtain rfl : c.wire = wire := Option.some.inj (packed.symm.trans packed')
  rw [RpcClient.request] at unpacked
  rw [d.handle_request unpacked]
  have body : pointed (dataPointer c.body) (UInt32.ofNat c.body.length) = c.body := by
    rw [pointed_dataPointer,
      UInt32.toNat_ofNat_of_lt' (Nat.lt_of_le_of_lt fits (by decide)), List.take_length]
  have string := cString_eq_self noNul
  unfold ownAnswer
  cases found : d.methods.lookup c.method with
  | none =>
    rw [← string] at found
    rw [RpcDispatcher.result_unknown found]
    exact reply_makeResponse c.id (r := { status := .notFound }) (by decide) (by decide)
  | some handler =>
    have known := found
    rw [← string] at known
    rw [RpcDispatcher.result_known known, body]
    dsimp only
    cases returned : handler c.body with
    | none => exact reply_makeResponse c.id (r := { status := .internal }) (by decide) (by decide)
    | some r =>
      obtain ⟨status, length⟩ := serves _ _ _ _ found returned
      exact reply_makeResponse c.id status length

/-- Calls are registered under their ids, responses answer the call they were produced for, and
what is set is the call's own answer. -/
structure Matched (methods : Methods) (n : Net) : Prop where
  accounted : Accounted n.exchange
  table : n.dispatcher.methods = methods
  calls : ∀ c ∈ n.calls, (c.id, c.promise) ∈ n.exchange.registered ∧
    slRpcMethodIsValid c.method = true ∧ c.body.length ≤ slRpcBodyMax ∧
    slRpcRequestPack (RpcClient.request c.id c.method c.body)
      (12 + c.method.length + c.body.length) = some c.wire
  owners : ∀ c ∈ n.calls, ∀ c' ∈ n.calls, c.promise = c'.promise → c = c'
  responses : ∀ e ∈ n.responses, ∃ c ∈ n.calls, c.promise = e.1 ∧
    ∃ resp, slRpcResponseUnpack e.2 = some resp ∧ resp.requestId = c.id ∧
      RpcClient.reply resp = ownAnswer methods c.method c.body
  settled : ∀ c ∈ n.calls, ∀ r, (c.promise, r) ∈ n.exchange.settled →
    r = ownAnswer methods c.method c.body
  delivered : ∀ p ∈ n.delivered, p ∈ n.exchange.settled.map Prod.fst

theorem matched_start (d : RpcDispatcher) : Matched d.methods { dispatcher := d } where
  accounted := accounted_start
  table := rfl
  calls := by simp
  owners := by simp
  responses := by simp
  settled := by simp
  delivered := by simp

section Steps

variable {methods : Methods} {n : Net}

/-- Promises of recorded calls were made before. -/
theorem Matched.made (h : Matched methods n) {c : CallRecord} (member : c ∈ n.calls) :
    c.promise < n.exchange.promises :=
  (h.accounted.registered _ (h.calls c member).1).1

theorem Matched.call (h : Matched methods n) (method body : Bytes) (timeoutMs : UInt32)
    (now : UInt64) : Matched methods (netStep n (.call method body timeoutMs now)).1 := by
  have accounted := h.accounted.step (.call method body timeoutMs now)
  cases called : n.exchange.client.call n.exchange.promises method body timeoutMs now with
  | mk client result =>
    simp only [exchangeStep, called] at accounted
    simp only [netStep, called]
    rcases RpcClient.call_cases h.accounted.inOrder called with
      ⟨r, rfl, _⟩ | ⟨id, wire, rfl, _, valid, fits, packed⟩
    · refine ⟨accounted, h.table, ?_, ?_, ?_, ?_, ?_⟩
      · simpa only [recorded, List.append_nil, Exchange.start] using h.calls
      · simpa only [recorded, List.append_nil] using h.owners
      · simpa only [recorded, List.append_nil] using h.responses
      · simp only [recorded, List.append_nil, Exchange.start, List.mem_append, List.mem_singleton]
        rintro c member r' (old | new)
        · exact h.settled c member r' old
        · have own : c.promise = n.exchange.promises := congrArg Prod.fst new
          exact absurd (h.made member) (by rw [own]; exact Nat.lt_irrefl _)
      · intro p hp
        simp only [Exchange.start, List.map_append, List.mem_append]
        exact Or.inl (h.delivered p hp)
    · have either : ∀ c, c ∈ n.calls ++ recorded n.exchange.promises method body (.sending id wire) →
          c ∈ n.calls ∨ c = { promise := n.exchange.promises, id, method, body, wire } := by
        intro c member
        simpa only [recorded, List.mem_append, List.mem_singleton] using member
      refine ⟨accounted, h.table, ?_, ?_, ?_, ?_, h.delivered⟩
      · intro c member
        simp only [Exchange.start, List.mem_append, List.mem_singleton]
        rcases either c member with old | rfl
        · obtain ⟨registered, rest⟩ := h.calls c old
          exact ⟨Or.inl registered, rest⟩
        · exact ⟨Or.inr rfl, valid, fits, packed⟩
      · intro c member c' member' same
        rcases either c member with old | rfl <;> rcases either c' member' with old' | rfl
        · exact h.owners c old c' old' same
        · exact absurd (h.made old) (by rw [same]; exact Nat.lt_irrefl _)
        · exact absurd (h.made old') (by rw [← same]; exact Nat.lt_irrefl _)
        · rfl
      · intro e he
        obtain ⟨c, member, rest⟩ := h.responses e he
        exact ⟨c, List.mem_append_left _ member, rest⟩
      · intro c member r set
        rcases either c member with old | rfl
        · exact h.settled c old r set
        · -- the new promise has not been set
          have made : n.exchange.promises ∈ List.range n.exchange.promises :=
            h.accounted.promises.mem_iff.mp (List.mem_append_left _ (List.mem_map_of_mem set))
          exact absurd (List.mem_range.mp made) (Nat.lt_irrefl _)

theorem Matched.serve (h : Matched methods n) (serves : Serves methods) (k : Nat) :
    Matched methods (netStep n (.serve k)).1 := by
  cases found : n.calls[k]? with
  | none => simpa only [netStep, found] using h
  | some c =>
    have member := List.mem_of_getElem? found
    obtain ⟨_, valid, fits, packed⟩ := h.calls c member
    have accounted := h.accounted.step (.sendResult c.id true)
    simp only [netStep, found]
    refine ⟨accounted, ?_, h.calls, h.owners, ?_, ?_, ?_⟩
    · rw [RpcDispatcher.handle_methods, h.table]
    · intro e he
      rcases List.mem_append.mp he with old | new
      · exact h.responses e old
      · obtain rfl := List.mem_singleton.mp new
        refine ⟨c, member, rfl, ?_⟩
        rw [← h.table] at serves ⊢
        exact served serves valid fits packed
    · intro c' member' r set
      exact h.settled c' member' r (by simpa [exchangeStep, Exchange.settle, RpcClient.sendResult]
        using set)
    · intro p hp
      simpa [exchangeStep, Exchange.settle, RpcClient.sendResult] using h.delivered p hp

theorem Matched.deliver (h : Matched methods n) (k : Nat) :
    Matched methods (netStep n (.deliver k)).1 := by
  cases found : n.responses[k]? with
  | none => simpa only [netStep, found] using h
  | some e =>
    obtain ⟨p, wireBytes⟩ := e
    obtain ⟨c, member, own, resp, read, id, answer⟩ :=
      h.responses _ (List.mem_of_getElem? found)
    obtain ⟨registered, _⟩ := h.calls c member
    have accounted := h.accounted.step (.response wireBytes)
    have once := h.accounted.resolvedOnce
    simp only [netStep, found]
    -- the promise set by the response, if any, is the one it was produced for
    have set : ∀ q r, (q, r) ∈ (n.exchange.client.onResponse wireBytes).2 →
        q = c.promise ∧ r = ownAnswer methods c.method c.body := by
      intro q r hq
      obtain ⟨resp', read', call, value⟩ := once.answers wireBytes q r hq
      obtain rfl : resp = resp' := Option.some.inj (read.symm.trans read')
      rw [id] at call
      have same := List.inj_on_of_nodup_map once.distinct call registered rfl
      exact ⟨congrArg Prod.snd same, value.trans answer⟩
    refine ⟨accounted, h.table, h.calls, h.owners, h.responses, ?_, ?_⟩
    · intro c' member' r settled
      rcases List.mem_append.mp settled with old | new
      · exact h.settled c' member' r old
      · obtain ⟨same, value⟩ := set _ r new
        rw [h.owners c' member' c member same]
        exact value
    · intro q hq
      simp only [exchangeStep, Exchange.settle, List.map_append, List.mem_append]
      rcases List.mem_append.mp hq with old | new
      · exact Or.inl (h.delivered q old)
      · obtain rfl : q = c.promise := (List.mem_singleton.mp new).trans own.symm
        by_cases before : c.promise ∈ n.exchange.settled.map Prod.fst
        · exact Or.inl before
        · obtain ⟨deadlineMs, waiting⟩ := (once.leaves _ _ registered).mpr before
          rw [← id] at waiting
          rw [RpcClient.onResponse_waiting read waiting]
          exact Or.inr List.mem_cons_self

theorem Matched.step (h : Matched methods n) (serves : Serves methods) (event : NetEvent) :
    Matched methods (netStep n event).1 := by
  cases event with
  | call method body timeoutMs now => exact h.call method body timeoutMs now
  | serve k => exact h.serve serves k
  | deliver k => exact h.deliver k

end Steps

/-- In every run, the promise of a call whose response was delivered holds the call's own answer
and nothing else. -/
theorem callers_get_own_answers (d : RpcDispatcher) (serves : Serves d.methods)
    (events : List NetEvent) :
    ∀ c ∈ (run netStep { dispatcher := d } events).calls,
      c.promise ∈ (run netStep { dispatcher := d } events).delivered →
      ∀ r, (c.promise, r) ∈ (run netStep { dispatcher := d } events).exchange.settled ↔
        r = ownAnswer d.methods c.method c.body := by
  have matched : Matched d.methods (run netStep { dispatcher := d } events) :=
    run_invariant (Matched d.methods) (fun _ event h => h.step serves event) events (matched_start d)
  intro c member delivered r
  refine ⟨matched.settled c member r, ?_⟩
  rintro rfl
  obtain ⟨⟨p, r⟩, set, own⟩ := List.mem_map.mp (matched.delivered _ delivered)
  obtain rfl : p = c.promise := own
  rw [← matched.settled c member r set]
  exact set

/-- The method `a` returns the first four octets of its body. -/
def toyEcho : RpcDispatcher :=
  RpcDispatcher.registerMethod {} [0x61] fun body => some { body := body.take 4 }

theorem toyEcho_serves : Serves toyEcho.methods := by
  intro method handler body r found returned
  by_cases known : method = [0x61]
  · subst known
    obtain rfl : (fun body : Bytes => some { body := body.take 4 }) = handler :=
      Option.some.inj ((AList.lookup_insert _).symm.trans found)
    obtain rfl : { body := body.take 4 } = r := Option.some.inj returned
    refine ⟨show SlRpcStatus.ok.Valid by decide, ?_⟩
    rw [List.length_take]
    exact Nat.le_trans (Nat.min_le_left _ _) (by decide)
  · have missing : toyEcho.methods.lookup method = none :=
      (AList.lookup_insert_ne known).trans (AList.lookup_empty _)
    rw [missing] at found
    cases found

/-- Two calls, the second of an unknown method; they are served in reverse order, and one of the
responses is delivered twice. -/
def toyCalls : List NetEvent :=
  [.call [0x61] [1, 2] 0 0, .call [0x62] [3] 5000 10, .serve 1, .serve 0,
    .deliver 0, .deliver 1, .deliver 0]

theorem toy_callers_get_own_answers :
    (run netStep { dispatcher := toyEcho } toyCalls).delivered = [1, 0, 1] ∧
    ∀ c ∈ (run netStep { dispatcher := toyEcho } toyCalls).calls,
      c.promise ∈ (run netStep { dispatcher := toyEcho } toyCalls).delivered →
      ∀ r, (c.promise, r) ∈ (run netStep { dispatcher := toyEcho } toyCalls).exchange.settled ↔
        r = ownAnswer toyEcho.methods c.method c.body :=
  ⟨by decide +kernel, callers_get_own_answers toyEcho toyEcho_serves toyCalls⟩

end SecureLink.Guarantees.RpcEndToEnd
