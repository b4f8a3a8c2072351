import SecureLink.Guarantees.RecordStream
import SecureLink.Source.Sessions.SessionManager

/-!
# Session tickets are unforgeable and expire

A server is a manager with the AEAD calls made so far. The AEAD may depend on them, and an ideal one
opens exactly those at every moment: a ticket that is still to be issued does not open. Ticket keys,
ticket bytes, IVs and the order of the calls are arbitrary.
-/
namespace SecureLink.Guarantees.TicketResumption
open Library.BigEndian Library.Runs RecordStream Source.Record Source.Sessions

structure Server where
  manager : SessionManager
  sealed : List Sealed := []

section Runs
variable (aead : List Sealed → Aead) (cfg : SessionManagerConfig)

def serverStep (s : Server) (call : ManagerCall) : Server × Answer :=
  let next := managerStep (aead s.sealed) s.manager call
  ({ manager := next.1, sealed := s.sealed ++ next.2.2 }, next.2.1)

/-- The server after some calls. -/
def server (calls : List ManagerCall) : Server := run (serverStep aead) { manager := { cfg } } calls

/-- One of the calls issued these bytes under this key, at this time for a session registered
then. -/
def Issued (calls : List ManagerCall) (stk : SessionTicketKey) (bytes : Bytes) (time : Nat)
    (secret : ResumptionSecret) (session : Session) : Prop :=
  ∃ first id iv rest, calls = first ++ .issueTicket time id stk secret iv :: rest ∧
    (server aead cfg first).manager.sessions.lookup id = some session ∧
    (serverStep aead (server aead cfg first) (.issueTicket time id stk secret iv)).2 = .issued bytes ∧
    bytes ≠ []

end Runs

/-- The readings of `std::time` are below 2^32. -/
def InTime : ManagerCall → Prop
  | .issueTicket time _ _ _ _ => time < 2 ^ 32
  | .consumeTicket time _ _ => time < 2 ^ 32
  | _ => True

variable {aead : List Sealed → Aead} {cfg : SessionManagerConfig} {calls : List ManagerCall}

theorem server_cfg (calls : List ManagerCall) : (server aead cfg calls).manager.cfg = cfg := by
  apply run_invariant (fun s : Server => s.manager.cfg = cfg) _ calls rfl
  intro s call same
  exact (managerStep_cfg _ _ call).trans same

theorem wire_ne_nil (wire : TicketWire) : wire.1 ≠ [] := by
  intro empty
  have length := wire.2
  rw [empty] at length
  exact absurd length (by decide)

/-- Only `issue_ticket` makes AEAD calls, one for the ticket it returns. -/
theorem mem_managerStep_sealed {A : Aead} {m : SessionManager} {call : ManagerCall} {sealed : Sealed} :
    sealed ∈ (managerStep A m call).2.2 ↔
      ∃ time id stk secret iv session, ∃ wire : TicketWire,
        call = .issueTicket time id stk secret iv ∧ m.sessions.lookup id = some session ∧
        (m.issueTicket A time id stk secret iv).1 = wire.1 ∧
        sealed = ticketCall stk.bytes wire (SessionManager.ticketBody m.cfg time session secret) := by
  cases call with
  | issueTicket time id stk secret iv =>
    rcases SessionManager.issueTicket_cases A m time id stk secret iv with
      failed | ⟨session, wire, present, issued⟩
    · simp only [managerStep, failed, List.not_mem_nil, false_iff]
      intro claimed
      obtain ⟨_, _, _, _, _, _, wire, same, _, returned, _⟩ := claimed
      cases same
      rw [failed] at returned
      exact wire_ne_nil wire returned.symm
    · simp only [managerStep, issued, List.mem_singleton]
      constructor
      · intro same
        exact ⟨time, id, stk, secret, iv, session, wire, rfl, present, by rw [issued], same⟩
      · intro claimed
        obtain ⟨_, _, _, _, _, session', wire', same, present', returned, sealing⟩ := claimed
        cases same
        rw [present, Option.some.injEq] at present'
        rw [issued] at returned
        rw [sealing, present', Subtype.ext returned]
  | _ => simp [managerStep]

/-- The AEAD calls made are those of the tickets issued. -/
theorem mem_sealed_iff {sealed : Sealed} : sealed ∈ (server aead cfg calls).sealed ↔
    ∃ stk time secret session, ∃ wire : TicketWire,
      Issued aead cfg calls stk wire.1 time secret session ∧
      sealed = ticketCall stk.bytes wire (SessionManager.ticketBody cfg time session secret) := by
  have puts : sealed ∈ (server aead cfg calls).sealed ↔ sealed ∈ [] ∨
      ∃ first call rest, calls = first ++ call :: rest ∧
        sealed ∈ (managerStep (aead (server aead cfg first).sealed)
          (server aead cfg first).manager call).2.2 :=
    mem_log_run Server.sealed (fun s call => (managerStep (aead s.sealed) s.manager call).2.2)
      (fun _ _ => rfl)
  simp only [puts, List.not_mem_nil, false_or, mem_managerStep_sealed, server_cfg]
  constructor
  · intro put
    obtain ⟨first, call, rest, split, time, id, stk, secret, iv, session, wire, issue, present,
      returned, same⟩ := put
    rw [issue] at split
    exact ⟨stk, time, secret, session, wire, ⟨first, id, iv, rest, split, present,
      congrArg Answer.issued returned, wire_ne_nil wire⟩, same⟩
  · intro issue
    obtain ⟨stk, time, secret, session, wire, issued, same⟩ := issue
    obtain ⟨first, id, iv, rest, split, present, answer, _⟩ := issued
    exact ⟨first, _, rest, split, time, id, stk, secret, iv, session, wire, rfl, present,
      Answer.issued.inj answer, same⟩

/-- What is issued is as long as a ticket. -/
theorem Issued.wire {stk : SessionTicketKey} {bytes : Bytes} {time : Nat} {secret : ResumptionSecret}
    {session : Session} (h : Issued aead cfg calls stk bytes time secret session) :
    ∃ wire : TicketWire, wire.1 = bytes := by
  obtain ⟨first, id, iv, _, _, _, answer, returned⟩ := h
  have same := Answer.issued.inj answer
  rcases SessionManager.issueTicket_cases (aead (server aead cfg first).sealed)
    (server aead cfg first).manager time id stk secret iv with failed | ⟨_, wire, _, issued⟩
  · rw [failed] at same
    exact absurd same.symm returned
  · rw [issued] at same
    exact ⟨wire, same⟩

theorem Issued.inTime {stk : SessionTicketKey} {bytes : Bytes} {time : Nat} {secret : ResumptionSecret}
    {session : Session} (h : Issued aead cfg calls stk bytes time secret session)
    (inTime : ∀ call ∈ calls, InTime call) : time < 2 ^ 32 := by
  obtain ⟨first, id, iv, rest, split, _⟩ := h
  exact inTime (.issueTicket time id stk secret iv) (by simp [split])

/-- A key, a ticket and a body are fixed by the call that seals the one in the other. -/
theorem ticketCall_inj {stk stk' : SessionTicketKey} {wire wire' : TicketWire} {pt : Bytes}
    {body : SlTicketBody}
    (same : (⟨stk.bytes.1, wire.iv, wire.iv, pt, wire.ct, wire.tag⟩ : Sealed) =
      ticketCall stk'.bytes wire' body) : stk = stk' ∧ wire = wire' ∧ pt = (packBody body).1 := by
  obtain ⟨key, iv, _, plain, ct, tag⟩ := Sealed.mk.inj same
  refine ⟨?_, Subtype.ext ?_, plain⟩
  · cases stk
    cases stk'
    exact congrArg SessionTicketKey.mk (Subtype.ext key)
  · rw [wire.parts, wire'.parts, iv, ct, tag]

/-- An ideal AEAD opens the tickets issued so far, to the body they were issued with. -/
theorem opened_iff (ideal : IdealOn (aead (server aead cfg calls).sealed) (server aead cfg calls).sealed)
    {stk : SessionTicketKey} {wire : TicketWire} {body : SlTicketBody} :
    slTicketOpen (aead (server aead cfg calls).sealed) stk.bytes wire = some body ↔
      ∃ time secret session, Issued aead cfg calls stk wire.1 time secret session ∧
        body = SessionManager.ticketBody cfg time session secret := by
  rw [slTicketOpen_some_iff]
  constructor
  · intro opening
    obtain ⟨pt, opened, unpacked⟩ := opening
    have logged := (ideal _ _ _ _ _ _).mp opened
    obtain ⟨stk', time, secret, session, wire', issued, same⟩ := mem_sealed_iff.mp logged
    obtain ⟨rfl, rfl, plain⟩ := ticketCall_inj same
    refine ⟨time, secret, session, issued, ?_⟩
    rw [← unpacked, Subtype.ext plain, unpackBody_packBody]
  · intro issue
    obtain ⟨time, secret, session, issued, same⟩ := issue
    have logged : ticketCall stk.bytes wire (SessionManager.ticketBody cfg time session secret) ∈
        (server aead cfg calls).sealed :=
      mem_sealed_iff.mpr ⟨stk, time, secret, session, wire, issued, rfl⟩
    refine ⟨packBody _, (ideal _ _ _ _ _ _).mpr logged, ?_⟩
    rw [same, unpackBody_packBody]

def toyTicketKey : SessionTicketKey := ⟨toyRecordKey⟩

def toySecret : ResumptionSecret := ⟨⟨List.replicate 32 9, by decide⟩⟩

def toyIdentity : FixedBytes 32 := ⟨List.replicate 32 5, by decide⟩

/-- A ticket for a session that is closed after it. -/
def toySessionCalls : List ManagerCall :=
  [.registerSession 0 [] toyIdentity, .issueTicket 1000 1 toyTicketKey toySecret (some toyStaticIv),
    .closeSession 1]

def toyTicketBody : SlTicketBody := ⟨1000, 21600, toySecret.bytes, toyIdentity⟩

def toyTicket : Bytes := toyStaticIv.1 ++ (packBody toyTicketBody).1 ++ List.replicate 16 0

end SecureLink.Guarantees.TicketResumption
