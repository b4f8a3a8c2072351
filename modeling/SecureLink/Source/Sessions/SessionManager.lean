import SecureLink.Library.Table
import SecureLink.Source.Sessions.SessionTicket

/-!
# Session manager

src/session_manager.cpp:9-124, each locked section as one step. A reading of the steady clock is its
count of nanoseconds, one of `std::time` its count of seconds; both are arguments, and so is the IV
of a ticket. `issue_ticket` also returns the AEAD calls it made.
-/
namespace SecureLink.Source.Sessions
open Library.BigEndian Library.Table Record

structure SessionStats where
  bytesSent : UInt64 := 0
  bytesReceived : UInt64 := 0
  recordsSent : UInt64 := 0
  recordsReceived : UInt64 := 0
  rekeysLocal : UInt32 := 0
  rekeysPeer : UInt32 := 0
  deriving DecidableEq, Repr

structure Session where
  id : UInt64 := 0
  peerLabel : Bytes
  peerIdentity : FixedBytes 32
  openedAt : Int
  lastActivity : Int
  stats : SessionStats := {}
  authenticated : Bool := false
  deriving DecidableEq, Repr

structure SessionManagerConfig where
  rekeyAfterBytes : UInt64 := (1 : UInt64) <<< 30
  rekeyAfterSeconds : UInt32 := 3600
  ticketLifetimeSeconds : UInt32 := 6 * 3600
  idleTimeoutSeconds : UInt32 := 600
  deriving DecidableEq, Repr

/-- The key that encrypts a ticket. -/
structure SessionTicketKey where
  bytes : FixedBytes slAeadKeyLen
  deriving DecidableEq, Repr

/-- The secret inside a ticket. -/
structure ResumptionSecret where
  bytes : FixedBytes 32
  deriving DecidableEq, Repr

structure SessionManager where
  cfg : SessionManagerConfig
  sessions : AList (fun _ : UInt64 => Session) := ∅
  nextId : UInt64 := 1

namespace SessionManager

/-- `duration_cast` to seconds. -/
def seconds (elapsed : Int) : Int := elapsed.tdiv 1000000000

def registerSession (m : SessionManager) (now : Int) (peerLabel : Bytes)
    (peerIdentity : FixedBytes 32) : SessionManager × UInt64 :=
  let s : Session :=
    { id := m.nextId, peerLabel, peerIdentity, openedAt := now, lastActivity := now
      authenticated := true }
  -- `emplace` leaves an entry that is already there
  let sessions := if (m.sessions.lookup s.id).isSome then m.sessions else m.sessions.insert s.id s
  ({ m with sessions, nextId := m.nextId + 1 }, s.id)

/-- A session after a call of `record_traffic`. -/
def recorded (s : Session) (now : Int) (bytesSent bytesReceived : UInt64) : Session :=
  let stats := { s.stats with
    bytesSent := s.stats.bytesSent + bytesSent
    bytesReceived := s.stats.bytesReceived + bytesReceived
    recordsSent := if bytesSent > 0 then s.stats.recordsSent + 1 else s.stats.recordsSent
    recordsReceived :=
      if bytesReceived > 0 then s.stats.recordsReceived + 1 else s.stats.recordsReceived }
  { s with stats, lastActivity := now }

def recordTraffic (m : SessionManager) (now : Int) (id bytesSent bytesReceived : UInt64) :
    SessionManager × Bool :=
  match m.sessions.lookup id with
  | none => (m, false)
  | some s =>
    let s := recorded s now bytesSent bytesReceived
    let total := s.stats.bytesSent + s.stats.bytesReceived
    let ageS := seconds (s.lastActivity - s.openedAt)
    ({ m with sessions := m.sessions.insert id s },
      total ≥ m.cfg.rekeyAfterBytes || ageS ≥ m.cfg.rekeyAfterSeconds.toNat)

/-- The statistics of a session changed, where there is the session. -/
def modifyStats (m : SessionManager) (id : UInt64) (f : SessionStats → SessionStats) :
    SessionManager :=
  match m.sessions.lookup id with
  | none => m
  | some s => { m with sessions := m.sessions.insert id { s with stats := f s.stats } }

def noteRekeyLocal (m : SessionManager) (id : UInt64) : SessionManager :=
  m.modifyStats id fun stats => { stats with rekeysLocal := stats.rekeysLocal + 1 }

def noteRekeyPeer (m : SessionManager) (id : UInt64) : SessionManager :=
  m.modifyStats id fun stats => { stats with rekeysPeer := stats.rekeysPeer + 1 }

/-- The body of a ticket for a session. -/
def ticketBody (cfg : SessionManagerConfig) (time : Nat) (session : Session)
    (secret : ResumptionSecret) : SlTicketBody where
  issuedAtS := UInt32.ofNat time
  lifetimeS := cfg.ticketLifetimeSeconds
  resumptionSecret := secret.bytes
  peerIdentityPub := session.peerIdentity

def issueTicket (A : Aead) (m : SessionManager) (time : Nat) (id : UInt64) (stk : SessionTicketKey)
    (secret : ResumptionSecret) (iv : Option (FixedBytes slTicketIvLen)) : Bytes × List Sealed :=
  match m.sessions.lookup id with
  | none => ([], [])
  | some session =>
    match slTicketSeal A stk.bytes (ticketBody m.cfg time session secret) iv with
    | none => ([], [])
    | some (wire, call) => (wire.1, [call])

def consumeTicket (A : Aead) (time : Nat) (stk : SessionTicketKey) (ticketBytes : Bytes) :
    Option SlTicketBody :=
  if size : ticketBytes.length = slTicketTotalLen then
    match slTicketOpen A stk.bytes ⟨ticketBytes, size⟩ with
    | none => none
    | some body => if !slTicketIsFresh body (UInt32.ofNat time) then none else some body
  else none

def closeSession (m : SessionManager) (id : UInt64) : SessionManager :=
  { m with sessions := m.sessions.erase id }

def sweep (m : SessionManager) (now : Int) : SessionManager × Nat :=
  let left := keep
    (fun _ s => !decide (seconds (now - s.lastActivity) ≥ m.cfg.idleTimeoutSeconds.toNat)) m.sessions
  ({ m with sessions := left }, size m.sessions - size left)

/-- Everything a successful issue did. -/
theorem issueTicket_cases (A : Aead) (m : SessionManager) (time : Nat) (id : UInt64)
    (stk : SessionTicketKey) (secret : ResumptionSecret) (iv : Option (FixedBytes slTicketIvLen)) :
    m.issueTicket A time id stk secret iv = ([], []) ∨
    ∃ session, ∃ wire : TicketWire, m.sessions.lookup id = some session ∧
      m.issueTicket A time id stk secret iv =
        (wire.1, [ticketCall stk.bytes wire (ticketBody m.cfg time session secret)]) := by
  unfold issueTicket
  split
  · exact Or.inl rfl
  next session present =>
    split
    · exact Or.inl rfl
    next wire call issued =>
      refine Or.inr ⟨session, wire, present, ?_⟩
      rw [slTicketSeal_some issued]

/-- Everything a successful use of a ticket checked. -/
theorem consumeTicket_some_iff {A : Aead} {time : Nat} {stk : SessionTicketKey} {ticketBytes : Bytes}
    {body : SlTicketBody} :
    consumeTicket A time stk ticketBytes = some body ↔ ∃ wire : TicketWire, wire.1 = ticketBytes ∧
      slTicketOpen A stk.bytes wire = some body ∧
      slTicketIsFresh body (UInt32.ofNat time) = true := by
  unfold consumeTicket
  constructor
  · intro h
    split at h
    next size =>
      split at h
      · cases h
      next opened =>
        split at h
        · cases h
        next isFresh =>
          cases h
          exact ⟨⟨ticketBytes, size⟩, rfl, opened, by simpa using isFresh⟩
    · cases h
  · rintro ⟨⟨bytes, size⟩, rfl, opened, isFresh⟩
    rw [dif_pos size]
    simp only [opened, isFresh, Bool.not_true, Bool.false_eq_true, if_false]

end SessionManager

/-- A call with the readings it gets. `note_rekey_*` reads no clock; its reading is the time it is
made at. -/
inductive ManagerCall where
  | registerSession (now : Int) (peerLabel : Bytes) (peerIdentity : FixedBytes 32)
  | recordTraffic (now : Int) (id bytesSent bytesReceived : UInt64)
  | noteRekeyLocal (now : Int) (id : UInt64)
  | noteRekeyPeer (now : Int) (id : UInt64)
  | issueTicket (time : Nat) (id : UInt64) (stk : SessionTicketKey) (secret : ResumptionSecret)
      (iv : Option (FixedBytes slTicketIvLen))
  | consumeTicket (time : Nat) (stk : SessionTicketKey) (ticketBytes : Bytes)
  | closeSession (id : UInt64)
  | sweep (now : Int)

inductive Answer where
  | registered (id : UInt64)
  | advised (rekey : Bool)
  | issued (wire : Bytes)
  | consumed (body : Option SlTicketBody)
  | swept (removed : Nat)
  | done
  deriving DecidableEq

/-- The manager and the answer after a call, and the AEAD calls made by it. -/
def managerStep (A : Aead) (m : SessionManager) : ManagerCall → SessionManager × Answer × List Sealed
  | .registerSession now peerLabel peerIdentity =>
    let next := m.registerSession now peerLabel peerIdentity
    (next.1, .registered next.2, [])
  | .recordTraffic now id bytesSent bytesReceived =>
    let next := m.recordTraffic now id bytesSent bytesReceived
    (next.1, .advised next.2, [])
  | .noteRekeyLocal _ id => (m.noteRekeyLocal id, .done, [])
  | .noteRekeyPeer _ id => (m.noteRekeyPeer id, .done, [])
  | .issueTicket time id stk secret iv =>
    let issued := m.issueTicket A time id stk secret iv
    (m, .issued issued.1, issued.2)
  | .consumeTicket time stk ticketBytes =>
    (m, .consumed (SessionManager.consumeTicket A time stk ticketBytes), [])
  | .closeSession id => (m.closeSession id, .done, [])
  | .sweep now =>
    let next := m.sweep now
    (next.1, .swept next.2, [])

theorem managerStep_cfg (A : Aead) (m : SessionManager) (call : ManagerCall) :
    (managerStep A m call).1.cfg = m.cfg := by
  have stats : ∀ id f, (m.modifyStats id f).cfg = m.cfg := by
    intro id f
    unfold SessionManager.modifyStats
    split <;> rfl
  cases call with
  | recordTraffic now id bytesSent bytesReceived =>
    simp only [managerStep, SessionManager.recordTraffic]
    split <;> rfl
  | noteRekeyLocal now id => exact stats id _
  | noteRekeyPeer now id => exact stats id _
  | _ => rfl

end SecureLink.Source.Sessions
