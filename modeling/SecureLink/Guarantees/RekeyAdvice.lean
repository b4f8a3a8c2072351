import SecureLink.Guarantees.RecordStream
import SecureLink.Source.Sessions.SessionManager

/-!
# Rekey advice

Whether the advice of `record_traffic` is relative to the last rekey. Beside the manager stands what
the calls say of every session: when it was registered and the bytes since, and the same from its
last rekey on. The source keeps the first two only, as `note_rekey_*` does no more than count. So
the advice is right as long as a session over a limit since its registration is so since its last
rekey as well.
-/
namespace SecureLink.Guarantees.RekeyAdvice
open Library.BigEndian Library.Runs Library.Table RecordStream Source.Record Source.Sessions

structure Usage where
  registeredAt : Int
  bytes : Nat
  rekeyedAt : Int
  bytesSince : Nat

/-- The manager, the usage of every session and the last reading of the steady clock. -/
structure Watched where
  manager : SessionManager
  usage : UInt64 → Usage
  clock : Int

def fresh (cfg : SessionManagerConfig) (start : Int) : Watched where
  manager := { cfg }
  usage := fun _ => ⟨start, 0, start, 0⟩
  clock := start

def Usage.record (u : Usage) (bytes : Nat) : Usage :=
  { u with bytes := u.bytes + bytes, bytesSince := u.bytesSince + bytes }

def Usage.rekey (u : Usage) (now : Int) : Usage := { u with rekeyedAt := now, bytesSince := 0 }

/-- The usage after a call. A new session gets the next id, where it is free. -/
def usageAfter (s : Watched) : ManagerCall → UInt64 → Usage
  | .registerSession now _ _ =>
    if (s.manager.sessions.lookup s.manager.nextId).isSome then s.usage
    else Function.update s.usage s.manager.nextId ⟨now, 0, now, 0⟩
  | .recordTraffic _ id bytesSent bytesReceived =>
    Function.update s.usage id ((s.usage id).record (bytesSent.toNat + bytesReceived.toNat))
  | .noteRekeyLocal now id => Function.update s.usage id ((s.usage id).rekey now)
  | .noteRekeyPeer now id => Function.update s.usage id ((s.usage id).rekey now)
  | _ => s.usage

/-- The reading of the steady clock at a call. -/
def steadyAt (clock : Int) : ManagerCall → Int
  | .registerSession now _ _ => now
  | .recordTraffic now _ _ _ => now
  | .noteRekeyLocal now _ => now
  | .noteRekeyPeer now _ => now
  | .sweep now => now
  | _ => clock

def watchStep (A : Aead) (s : Watched) (call : ManagerCall) : Watched × Answer :=
  let next := managerStep A s.manager call
  ({ manager := next.1, usage := usageAfter s call, clock := steadyAt s.clock call }, next.2.1)

/-- A limit reached. -/
def Due (cfg : SessionManagerConfig) (bytes : Nat) (elapsed : Int) : Prop :=
  cfg.rekeyAfterBytes.toNat ≤ bytes ∨ (cfg.rekeyAfterSeconds.toNat : Int) * 1000000000 ≤ elapsed

instance (cfg : SessionManagerConfig) (bytes : Nat) (elapsed : Int) :
    Decidable (Due cfg bytes elapsed) :=
  inferInstanceAs (Decidable (_ ∨ _))

/-- What holds at a record for a registered session, of its time, the session and the bytes. -/
def AtRecord (s : Watched) (holds : Int → UInt64 → UInt64 → UInt64 → Prop) : ManagerCall → Prop
  | .recordTraffic now id bytesSent bytesReceived =>
    (s.manager.sessions.lookup id).isSome → holds now id bytesSent bytesReceived
  | _ => True

instance (s : Watched) (holds : Int → UInt64 → UInt64 → UInt64 → Prop)
    [∀ now id bytesSent bytesReceived, Decidable (holds now id bytesSent bytesReceived)] :
    ∀ call, Decidable (AtRecord s holds call)
  | .registerSession _ _ _ => inferInstanceAs (Decidable True)
  | .recordTraffic _ _ _ _ => inferInstanceAs (Decidable (_ → _))
  | .noteRekeyLocal _ _ => inferInstanceAs (Decidable True)
  | .noteRekeyPeer _ _ => inferInstanceAs (Decidable True)
  | .issueTicket _ _ _ _ _ => inferInstanceAs (Decidable True)
  | .consumeTicket _ _ _ => inferInstanceAs (Decidable True)
  | .closeSession _ => inferInstanceAs (Decidable True)
  | .sweep _ => inferInstanceAs (Decidable True)

/-- The clock does not go back, and the bytes of a session stay below 2^64. -/
def InRange (s : Watched) (call : ManagerCall) : Prop :=
  s.clock ≤ steadyAt s.clock call ∧
  AtRecord s (fun _ id bytesSent bytesReceived =>
    (s.usage id).bytes + (bytesSent.toNat + bytesReceived.toNat) < 2 ^ 64) call

instance (s : Watched) (call : ManagerCall) : Decidable (InRange s call) :=
  inferInstanceAs (Decidable (_ ∧ AtRecord s _ call))

/-- A rekey is advised exactly if a limit is reached since the last one. -/
def RightlyAdvised (s : Watched) (call : ManagerCall) : Prop :=
  AtRecord s (fun now id bytesSent bytesReceived =>
    ((s.manager.recordTraffic now id bytesSent bytesReceived).2 = true ↔
      Due s.manager.cfg ((s.usage id).bytesSince + (bytesSent.toNat + bytesReceived.toNat))
        (now - (s.usage id).rekeyedAt))) call

instance (s : Watched) (call : ManagerCall) : Decidable (RightlyAdvised s call) :=
  inferInstanceAs (Decidable (AtRecord s _ call))

/-- A session over a limit since its registration is over one since its last rekey. -/
def StillDue (s : Watched) (call : ManagerCall) : Prop :=
  AtRecord s (fun now id bytesSent bytesReceived =>
    Due s.manager.cfg ((s.usage id).bytes + (bytesSent.toNat + bytesReceived.toNat))
      (now - (s.usage id).registeredAt) →
    Due s.manager.cfg ((s.usage id).bytesSince + (bytesSent.toNat + bytesReceived.toNat))
      (now - (s.usage id).rekeyedAt)) call

instance (s : Watched) (call : ManagerCall) : Decidable (StillDue s call) :=
  inferInstanceAs (Decidable (AtRecord s _ call))

/-- What the source keeps of a session is its usage since the registration. -/
structure Keeps (clock : Int) (session : Session) (u : Usage) : Prop where
  opened : session.openedAt = u.registeredAt
  total : session.stats.bytesSent.toNat + session.stats.bytesReceived.toNat = u.bytes
  less : u.bytesSince ≤ u.bytes
  since : u.registeredAt ≤ u.rekeyedAt
  past : u.rekeyedAt ≤ clock

def Tracked (s : Watched) : Prop :=
  ∀ id session, s.manager.sessions.lookup id = some session → Keeps s.clock session (s.usage id)

variable {clock now : Int} {session : Session} {u : Usage}

theorem Keeps.later (h : Keeps clock session u) (forward : clock ≤ now) : Keeps now session u :=
  { h with past := Int.le_trans h.past forward }

theorem Keeps.recorded (h : Keeps clock session u) (forward : clock ≤ now)
    {bytesSent bytesReceived : UInt64}
    (short : u.bytes + (bytesSent.toNat + bytesReceived.toNat) < 2 ^ 64) :
    Keeps now (SessionManager.recorded session now bytesSent bytesReceived)
      (u.record (bytesSent.toNat + bytesReceived.toNat)) := by
  have total := h.total
  refine ⟨h.opened, ?_, Nat.add_le_add_right h.less _, h.since, Int.le_trans h.past forward⟩
  simp only [SessionManager.recorded, Usage.record]
  rw [UInt64.toNat_add, UInt64.toNat_add, Nat.mod_eq_of_lt (by omega), Nat.mod_eq_of_lt (by omega)]
  omega

theorem Keeps.rekeyed (h : Keeps clock session u) (forward : clock ≤ now)
    {f : SessionStats → SessionStats}
    (same : (f session.stats).bytesSent = session.stats.bytesSent ∧
      (f session.stats).bytesReceived = session.stats.bytesReceived) :
    Keeps now { session with stats := f session.stats } (u.rekey now) := by
  refine ⟨h.opened, ?_, Nat.zero_le _, Int.le_trans h.since (Int.le_trans h.past forward),
    Int.le_refl _⟩
  simp only [same.1, same.2]
  exact h.total

section Update
variable {s : Watched} (h : Tracked s) (forward : s.clock ≤ now) {id : UInt64}
include h forward

/-- A session and its usage are replaced while the clock goes on. -/
theorem Tracked.update {m : SessionManager}
    (sessions : m.sessions = s.manager.sessions.insert id session) (kept : Keeps now session u) :
    Tracked ⟨m, Function.update s.usage id u, now⟩ := by
  intro other found lookup
  simp only [sessions, Function.update_apply] at lookup ⊢
  split
  next same =>
    rw [same, AList.lookup_insert, Option.some.injEq] at lookup
    exact lookup ▸ kept
  next different =>
    rw [AList.lookup_insert_ne different] at lookup
    exact (h other found lookup).later forward

/-- The same where there is the session; the usage of one that is not there does not matter. -/
theorem Tracked.modify {m : SessionManager} {f : Session → Session}
    (sessions : m.sessions = ((s.manager.sessions.lookup id).map fun session =>
      s.manager.sessions.insert id (f session)).getD s.manager.sessions)
    (kept : ∀ session ∈ s.manager.sessions.lookup id, Keeps now (f session) u) :
    Tracked ⟨m, Function.update s.usage id u, now⟩ := by
  cases present : s.manager.sessions.lookup id with
  | none =>
    intro other found lookup
    simp only [sessions, present, Option.map_none, Option.getD_none] at lookup ⊢
    rw [Function.update_of_ne]
    · exact (h other found lookup).later forward
    · rintro rfl
      rw [present] at lookup
      cases lookup
  | some session =>
    rw [present] at sessions
    exact h.update forward sessions (kept session present)

/-- Both kinds of rekey. -/
theorem Tracked.rekeyed (id : UInt64) {f : SessionStats → SessionStats}
    (same : ∀ stats, (f stats).bytesSent = stats.bytesSent ∧
      (f stats).bytesReceived = stats.bytesReceived) :
    Tracked { manager := s.manager.modifyStats id f
              usage := Function.update s.usage id ((s.usage id).rekey now), clock := now } := by
  refine h.modify (f := fun session => { session with stats := f session.stats }) forward ?_ ?_
  · unfold SessionManager.modifyStats
    cases s.manager.sessions.lookup id <;> rfl
  · exact fun session present => (h id session present).rekeyed forward (same _)

end Update

theorem Tracked.step {A : Aead} {s : Watched} {call : ManagerCall} (h : Tracked s)
    (inRange : InRange s call) : Tracked (watchStep A s call).1 := by
  obtain ⟨forward, short⟩ := inRange
  cases call with
  | registerSession now peerLabel peerIdentity =>
    simp only [watchStep, managerStep, SessionManager.registerSession, usageAfter]
    split
    next => exact fun other found lookup => (h other found lookup).later forward
    next => exact h.update forward rfl ⟨rfl, rfl, Nat.le_refl _, Int.le_refl _, Int.le_refl _⟩
  | recordTraffic now id bytesSent bytesReceived =>
    refine h.modify (f := fun session => SessionManager.recorded session now bytesSent bytesReceived)
      forward ?_ ?_
    · simp only [managerStep, SessionManager.recordTraffic]
      cases s.manager.sessions.lookup id <;> rfl
    · exact fun session present =>
        (h id session present).recorded forward (short (by rw [Option.mem_def.mp present]; rfl))
  | noteRekeyLocal now id => exact h.rekeyed forward id (fun _ => ⟨rfl, rfl⟩)
  | noteRekeyPeer now id => exact h.rekeyed forward id (fun _ => ⟨rfl, rfl⟩)
  | issueTicket time id stk secret iv => exact h
  | consumeTicket time stk ticketBytes => exact h
  | closeSession id =>
    intro other found lookup
    by_cases same : other = id
    · subst same
      simp [watchStep, managerStep, SessionManager.closeSession] at lookup
    · apply h other found
      simpa [watchStep, managerStep, SessionManager.closeSession, AList.lookup_erase_ne same]
        using lookup
  | sweep now =>
    intro other found lookup
    simp only [watchStep, managerStep, SessionManager.sweep, lookup_keep] at lookup
    exact (h other found (Option.filter_eq_some_iff.mp lookup).1).later forward

/-- The answer is about the time since the registration. -/
theorem recordTraffic_answer {m : SessionManager} {id bytesSent bytesReceived : UInt64}
    (present : m.sessions.lookup id = some session) (kept : Keeps clock session u)
    (forward : clock ≤ now) (short : u.bytes + (bytesSent.toNat + bytesReceived.toNat) < 2 ^ 64) :
    (m.recordTraffic now id bytesSent bytesReceived).2 = true ↔
      Due m.cfg (u.bytes + (bytesSent.toNat + bytesReceived.toNat)) (now - u.registeredAt) := by
  have after := kept.recorded forward short
  have total := after.total
  have bytes : ((SessionManager.recorded session now bytesSent bytesReceived).stats.bytesSent +
      (SessionManager.recorded session now bytesSent bytesReceived).stats.bytesReceived).toNat =
      u.bytes + (bytesSent.toNat + bytesReceived.toNat) := by
    rw [UInt64.toNat_add, total]
    exact Nat.mod_eq_of_lt short
  have elapsed : 0 ≤ now - u.registeredAt := by
    have since := kept.since
    have past := kept.past
    omega
  simp only [SessionManager.recordTraffic, present, Bool.or_eq_true, decide_eq_true_eq, ge_iff_le,
    UInt64.le_iff_toNat_le, bytes]
  apply or_congr Iff.rfl
  rw [SessionManager.seconds, after.opened]
  change (m.cfg.rekeyAfterSeconds.toNat : Int) ≤ Int.tdiv (now - u.registeredAt) 1000000000 ↔ _
  rw [Int.tdiv_eq_ediv_of_nonneg elapsed]
  omega

/-- Since its last rekey a session has used no more than since its registration. -/
theorem due_of_since {cfg : SessionManagerConfig} {bytes : Nat} (kept : Keeps clock session u)
    (due : Due cfg (u.bytesSince + bytes) (now - u.rekeyedAt)) :
    Due cfg (u.bytes + bytes) (now - u.registeredAt) := by
  have less := kept.less
  have since := kept.since
  unfold Due at due ⊢
  omega

/-- At every call of `record_traffic` the advice is about the last rekey exactly if the limits that
are reached since the registration are reached since the last rekey. -/
theorem advised_iff {s : Watched} {call : ManagerCall} (h : Tracked s) (inRange : InRange s call) :
    RightlyAdvised s call ↔ StillDue s call := by
  cases call with
  | recordTraffic now id bytesSent bytesReceived =>
    apply forall_congr'
    intro registered
    obtain ⟨session, present⟩ := Option.isSome_iff_exists.mp registered
    have kept := h id session present
    have forward : s.clock ≤ now := inRange.1
    have answer := recordTraffic_answer present kept forward (inRange.2 registered)
    constructor
    · intro right due
      exact right.mp (answer.mpr due)
    · intro still
      exact ⟨fun advised => still (answer.mp advised), fun due => answer.mpr (due_of_since kept due)⟩
  | _ => exact Iff.rfl

/-- Over every run of the calls of a manager, with bytes in range and a clock that does not go
back, every advice is right exactly if at every record the limits reached since the registration
are reached since the last rekey. -/
theorem rekey_advice_iff (A : Aead) (cfg : SessionManagerConfig) (start : Int)
    (calls : List ManagerCall) (inRange : AllSteps (watchStep A) InRange (fresh cfg start) calls) :
    AllSteps (watchStep A) RightlyAdvised (fresh cfg start) calls ↔
      AllSteps (watchStep A) StillDue (fresh cfg start) calls := by
  apply AllSteps.congr Tracked (fun s call h steps => h.step steps)
    (fun s call h steps => advised_iff h steps) _ inRange
  intro id session lookup
  exact absurd lookup (by simp [fresh])

def toyPeer : FixedBytes 32 := ⟨List.replicate 32 7, by decide⟩

/-- A limit of 100 bytes, and a rekey when it is reached. -/
def toyTraffic : List ManagerCall :=
  [.registerSession 0 [] toyPeer, .recordTraffic 1 1 60 0, .recordTraffic 2 1 0 40,
    .noteRekeyLocal 3 1]

/-- Up to the rekey, and with the next 100 bytes in one record, every advice is right. -/
theorem rekey_advice_toy :
    AllSteps (watchStep (toyAead [])) RightlyAdvised (fresh { rekeyAfterBytes := 100 } 0)
      (toyTraffic ++ [.recordTraffic 4 1 100 0]) :=
  (rekey_advice_iff (toyAead []) { rekeyAfterBytes := 100 } 0
    (toyTraffic ++ [.recordTraffic 4 1 100 0]) (by decide +kernel)).mpr (by decide +kernel)

/-- One byte after the rekey another one is advised. -/
theorem advised_after_rekey :
    let s := run (watchStep (toyAead [])) (fresh { rekeyAfterBytes := 100 } 0) toyTraffic
    (s.manager.recordTraffic 4 1 1 0).2 = true ∧ (s.usage 1).bytesSince = 0 ∧
      (s.usage 1).rekeyedAt = 3 ∧ ¬ RightlyAdvised s (.recordTraffic 4 1 1 0) := by
  decide +kernel

end SecureLink.Guarantees.RekeyAdvice
