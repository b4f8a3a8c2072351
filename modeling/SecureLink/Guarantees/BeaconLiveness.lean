import SecureLink.Guarantees.BeaconAcceptance

/-!
# Liveness of clients

`reap_stale` reads the clock before it takes the lock. A beacon that is accepted in between
carries a later time than the scan's, the unsigned difference wraps around, and the client
is marked as dead right after it was heard. A client is never marked early exactly if no
scan meets such a client, or meets it when its time has run out anyway.
-/
namespace SecureLink.Guarantees.BeaconLiveness
open Library.BigEndian Library.Runs Source.Record Source.Beacon Source.Beacon.BeaconServer
open RecordStream BeaconAcceptance

variable {ρ : Type*}

/-- The server, its monotonic clock, what each `reap_stale` under way has read, and, to state
the property, when the last beacon of each client was accepted. -/
structure Liveness (ρ : Type*) where
  server : BeaconServer
  clock : UInt64
  reading : ρ → Option UInt64 := fun _ => none
  acceptedAt : UInt64 → Option UInt64 := fun _ => none

/-- The atomic steps: `on_beacon`, and the two steps of a call of `reap_stale`. -/
inductive LivenessStep (ρ : Type*) where
  | beacon (wire : Bytes) (nowWall : UInt64)
  | readClock (caller : ρ)
  | scan (caller : ρ)

/-- A step and what the clock shows when it is taken. -/
structure Timed (ρ : Type*) where
  now : UInt64
  op : LivenessStep ρ

def liveStep [DecidableEq ρ] (A : Aead) (s : Liveness ρ) (i : Timed ρ) : Liveness ρ × Unit :=
  match i.op with
  | .beacon wire nowWall =>
    let result := s.server.onBeacon A wire nowWall i.now
    ({ s with
       server := result.1
       clock := i.now
       acceptedAt :=
         if result.2 = .accepted then
           Function.update s.acceptedAt (slBeaconUnpackHeader wire).clientId (some i.now)
         else s.acceptedAt }, ())
  | .readClock caller =>
    ({ s with clock := i.now, reading := Function.update s.reading caller (some i.now) }, ())
  | .scan caller =>
    match s.reading caller with
    | none => ({ s with clock := i.now }, ())
    | some reading =>
      ({ s with
         server := (s.server.reapScan reading).1
         clock := i.now
         reading := Function.update s.reading caller none }, ())

/-- The clock does not go back. -/
def Forward (s : Liveness ρ) (i : Timed ρ) : Prop := s.clock ≤ i.now

instance (s : Liveness ρ) (i : Timed ρ) : Decidable (Forward s i) :=
  inferInstanceAs (Decidable (s.clock ≤ i.now))

/-- The step marks a client as dead. -/
def Reaps (s s' : BeaconServer) (id : UInt64) : Prop :=
  ∃ cs cs', s.clients.lookup id = some cs ∧ cs.alive = true ∧
    s'.clients.lookup id = some cs' ∧ cs'.alive = false

/-- Whichever client the step marks as dead has not been heard for longer than the timeout. -/
def Timely [DecidableEq ρ] (A : Aead) (s : Liveness ρ) (i : Timed ρ) : Prop :=
  ∀ id, Reaps s.server (liveStep A s i).1.server id →
    ∃ last, s.acceptedAt id = some last ∧
      s.server.cfg.livenessTimeoutMs.toNat < i.now.toNat - last.toNat

/-- A client that was heard after the scan's reading of the clock is silent for longer than
the timeout at the scan, or the reading is so much older that the wrapped difference stays
within the timeout. -/
def Undisturbed (s : Liveness ρ) (i : Timed ρ) : Prop :=
  ∀ caller reading, i.op = .scan caller → s.reading caller = some reading →
    ∀ id cs, s.server.clients.lookup id = some cs → cs.alive = true → reading < cs.lastSeenMonoMs →
      s.server.cfg.livenessTimeoutMs.toNat < i.now.toNat - cs.lastSeenMonoMs.toNat ∨
      2 ^ 64 ≤ cs.lastSeenMonoMs.toNat - reading.toNat + s.server.cfg.livenessTimeoutMs.toNat

theorem undisturbed_scan {s : Liveness ρ} {caller : ρ} {reading : UInt64}
    (read : s.reading caller = some reading) (now : UInt64) :
    Undisturbed s { now, op := .scan caller } ↔
      ∀ e ∈ s.server.clients.entries, e.2.alive = true → reading < e.2.lastSeenMonoMs →
        s.server.cfg.livenessTimeoutMs.toNat < now.toNat - e.2.lastSeenMonoMs.toNat ∨
        2 ^ 64 ≤ e.2.lastSeenMonoMs.toNat - reading.toNat + s.server.cfg.livenessTimeoutMs.toNat := by
  constructor
  · intro all e member
    exact all caller reading rfl read e.1 e.2 (AList.mem_lookup_iff.mpr member)
  · intro all caller' reading' same read' id cs found
    cases same
    cases read.symm.trans read'
    exact all ⟨id, cs⟩ (AList.mem_lookup_iff.mp found)

instance (s : Liveness ρ) : ∀ i : Timed ρ, Decidable (Undisturbed s i)
  | { now, op := .scan caller } =>
    match read : s.reading caller with
    | some _ => decidable_of_iff' _ (undisturbed_scan read now)
    | none => .isTrue fun _ _ same found => by
        cases same
        cases read.symm.trans found
  | { op := .beacon _ _, .. } => .isTrue fun _ _ same => nomatch same
  | { op := .readClock _, .. } => .isTrue fun _ _ same => nomatch same

/-- Living clients were heard when their record says, and nothing is ahead of the clock. -/
structure InStep (s : Liveness ρ) : Prop where
  heard : ∀ id cs, s.server.clients.lookup id = some cs → cs.alive = true →
    s.acceptedAt id = some cs.lastSeenMonoMs ∧ cs.lastSeenMonoMs ≤ s.clock
  read : ∀ caller reading, s.reading caller = some reading → reading ≤ s.clock

theorem inStep_new (cfg : BeaconServerConfig) (clock : UInt64) :
    InStep ({ server := { cfg }, clock } : Liveness ρ) where
  heard id cs found := by
    rw [AList.lookup_empty] at found
    cases found
  read caller reading h := by cases h

variable [DecidableEq ρ] {A : Aead}

theorem InStep.step {s : Liveness ρ} (h : InStep s) {i : Timed ρ} (forward : Forward s i) :
    InStep (liveStep A s i).1 := by
  obtain ⟨now, op⟩ := i
  cases op with
  | beacon wire nowWall =>
    refine ⟨fun id cs found alive => ?_,
      fun caller reading read => UInt64.le_trans (h.read caller reading read) forward⟩
    simp only [liveStep] at found ⊢
    rcases s.server.onBeacon_alive A wire nowWall now alive found with
      ⟨ok, here, seen⟩ | ⟨other, before, known, aliveBefore, seen⟩
    · rw [if_pos ok, here, Function.update_self, seen]
      exact ⟨rfl, UInt64.le_refl now⟩
    · obtain ⟨accepted, le⟩ := h.heard id before known aliveBefore
      rw [seen] at accepted le
      refine ⟨?_, UInt64.le_trans le forward⟩
      split
      next ok => rw [Function.update_of_ne (fun here => other ⟨ok, here⟩), accepted]
      next => exact accepted
  | readClock caller =>
    refine ⟨fun id cs found alive => ?_, fun caller' reading read => ?_⟩
    · obtain ⟨accepted, le⟩ := h.heard id cs found alive
      exact ⟨accepted, UInt64.le_trans le forward⟩
    · simp only [liveStep, Function.update_apply] at read ⊢
      split at read
      · cases read
        exact UInt64.le_refl now
      · exact UInt64.le_trans (h.read caller' reading read) forward
  | scan caller =>
    simp only [liveStep]
    cases reading : s.reading caller with
    | none =>
      refine ⟨fun id cs found alive => ?_,
        fun caller reading read => UInt64.le_trans (h.read caller reading read) forward⟩
      obtain ⟨accepted, le⟩ := h.heard id cs found alive
      exact ⟨accepted, UInt64.le_trans le forward⟩
    | some reading =>
      refine ⟨fun id cs found alive => ?_, fun caller' reading' read => ?_⟩
      · simp only [lookup_reapScan, Option.map_eq_some_iff] at found
        obtain ⟨before, known, rfl⟩ := found
        split at alive
        · cases alive
        · obtain ⟨accepted, le⟩ := h.heard id before known alive
          rw [if_neg (by assumption)]
          exact ⟨accepted, UInt64.le_trans le forward⟩
      · simp only [Function.update_apply] at read
        split at read
        · cases read
        · exact UInt64.le_trans (h.read caller' reading' read) forward

/-- When the scan's test succeeds: a long silence, or a reading from before the beacon. -/
theorem stale_iff {cfg : BeaconServerConfig} {now : UInt64} {cs : ClientState} (alive : cs.alive = true) :
    stale cfg now cs = true ↔
      (cs.lastSeenMonoMs ≤ now ∧
        cfg.livenessTimeoutMs.toNat < now.toNat - cs.lastSeenMonoMs.toNat) ∨
      (now < cs.lastSeenMonoMs ∧
        cs.lastSeenMonoMs.toNat - now.toNat + cfg.livenessTimeoutMs.toNat < 2 ^ 64) := by
  have nowBound := now.toNat_lt
  have seenBound := cs.lastSeenMonoMs.toNat_lt
  simp only [stale, alive, Bool.true_and, decide_eq_true_eq, gt_iff_lt, UInt64.lt_iff_toNat_lt,
    UInt64.le_iff_toNat_le, UInt64.toNat_sub, UInt32.toNat_toUInt64]
  omega

theorem reaps_scan {s : Liveness ρ} {now reading : UInt64} {caller : ρ}
    (read : s.reading caller = some reading) (id : UInt64) :
    Reaps s.server (liveStep A s { now, op := .scan caller }).1.server id ↔
      ∃ cs, s.server.clients.lookup id = some cs ∧ cs.alive = true ∧
        stale s.server.cfg reading cs = true := by
  simp only [Reaps, liveStep, read, lookup_reapScan]
  constructor
  · rintro ⟨cs, cs', known, alive, found, dead⟩
    rw [known, Option.map_some, Option.some.injEq] at found
    refine ⟨cs, known, alive, ?_⟩
    by_contra fresh
    rw [if_neg fresh] at found
    rw [found, dead] at alive
    cases alive
  · rintro ⟨cs, known, alive, test⟩
    exact ⟨cs, { cs with alive := false }, known, alive, by rw [known, Option.map_some, if_pos test],
      rfl⟩

/-- A step marks clients in time exactly if its scan is undisturbed. -/
theorem timely_iff_undisturbed {s : Liveness ρ} (h : InStep s) {i : Timed ρ} (forward : Forward s i) :
    Timely A s i ↔ Undisturbed s i := by
  obtain ⟨now, op⟩ := i
  cases op with
  | beacon wire nowWall =>
    refine iff_of_true (fun id => ?_) (fun _ _ scan => by cases scan)
    rintro ⟨cs, cs', known, alive, found, dead⟩
    rw [s.server.onBeacon_keeps_alive A wire nowWall now known alive found] at dead
    cases dead
  | readClock caller =>
    refine iff_of_true (fun id => ?_) (fun _ _ scan => by cases scan)
    rintro ⟨cs, cs', known, alive, found, dead⟩
    simp only [liveStep, known] at found
    cases found
    rw [alive] at dead
    cases dead
  | scan caller =>
    cases read : s.reading caller with
    | none =>
      refine iff_of_true (fun id => ?_) (fun _ _ scan reading => ?_)
      · rintro ⟨cs, cs', known, alive, found, dead⟩
        simp only [liveStep, read, known] at found
        cases found
        rw [alive] at dead
        cases dead
      · cases scan
        rw [read] at reading
        cases reading
    | some reading =>
      have behind : reading.toNat ≤ now.toNat :=
        UInt64.le_iff_toNat_le.mp (UInt64.le_trans (h.read caller reading read) forward)
      unfold Timely Undisturbed
      simp only [reaps_scan read]
      constructor
      · intro timely caller' reading' scan read' id cs known alive ahead
        cases scan
        rw [read] at read'
        cases read'
        by_cases wrapped : cs.lastSeenMonoMs.toNat - reading.toNat +
            s.server.cfg.livenessTimeoutMs.toNat < 2 ^ 64
        · obtain ⟨last, accepted, late⟩ :=
            timely id ⟨cs, known, alive, (stale_iff alive).mpr (Or.inr ⟨ahead, wrapped⟩)⟩
          rw [(h.heard id cs known alive).1] at accepted
          cases accepted
          exact Or.inl late
        · exact Or.inr (Nat.not_lt.mp wrapped)
      · rintro undisturbed id ⟨cs, known, alive, test⟩
        refine ⟨cs.lastSeenMonoMs, (h.heard id cs known alive).1, ?_⟩
        rcases (stale_iff alive).mp test with ⟨_, silent⟩ | ⟨ahead, wrapped⟩
        · omega
        · rcases undisturbed caller reading rfl read id cs known alive ahead with late | far
          · exact late
          · exact absurd wrapped (Nat.not_lt.mpr far)

/-- Over every interleaving of beacons and scans, with a clock that never goes back: no client
is marked as dead before its timeout exactly if every scan is undisturbed. -/
theorem clients_reaped_in_time_iff (A : Aead) (cfg : BeaconServerConfig) (clock : UInt64)
    (steps : List (Timed ρ))
    (forward : AllSteps (liveStep A) Forward { server := { cfg }, clock } steps) :
    AllSteps (liveStep A) (Timely A) { server := { cfg }, clock } steps ↔
      AllSteps (liveStep A) Undisturbed { server := { cfg }, clock } steps :=
  forward.congr InStep (fun _ _ h => h.step) (fun _ _ h => timely_iff_undisturbed h)
    (inStep_new cfg clock)

def toyLiveness : Liveness Unit where
  server := { cfg := toyServerConfig }
  clock := 90

def toyLiveAead : Aead := toyAead (toySealed.map Prod.snd)

/-- A beacon at 101 and a scan much later; the scan reads the clock when it starts. -/
def toyQuietSteps : List (Timed Unit) :=
  (toySealed.map fun sent => { now := 101, op := .beacon sent.1 5200 }) ++
    [{ now := 20000, op := .readClock () }, { now := 20001, op := .scan () }]

theorem clients_reaped_in_time_toy :
    ((run (liveStep toyLiveAead) toyLiveness toyQuietSteps).server.clients.lookup 100).map
      (·.alive) = some false ∧
    AllSteps (liveStep toyLiveAead) (Timely toyLiveAead) toyLiveness toyQuietSteps :=
  ⟨by decide +kernel, (clients_reaped_in_time_iff toyLiveAead toyServerConfig 90 toyQuietSteps
    (by decide +kernel)).mpr (by decide +kernel)⟩

/-- The clock is read at 100, a beacon accepted at 101. -/
def toyRacingSteps : List (Timed Unit) :=
  { now := 100, op := .readClock () } ::
    toySealed.map fun sent => { now := 101, op := .beacon sent.1 5200 }

/-- The scan at 102 marks the client as dead, one millisecond after it was heard. -/
theorem client_reaped_at_once :
    AllSteps (liveStep toyLiveAead) Forward toyLiveness
      (toyRacingSteps ++ [{ now := 102, op := .scan () }]) ∧
    (run (liveStep toyLiveAead) toyLiveness toyRacingSteps).acceptedAt 100 = some 101 ∧
    ¬ AllSteps (liveStep toyLiveAead) (Timely toyLiveAead) toyLiveness
      (toyRacingSteps ++ [{ now := 102, op := .scan () }]) := by
  have heard : (run (liveStep toyLiveAead) toyLiveness toyRacingSteps).acceptedAt 100 = some 101 := by
    decide +kernel
  refine ⟨by decide +kernel, heard, fun timely => ?_⟩
  have living : ((run (liveStep toyLiveAead) toyLiveness toyRacingSteps).server.clients.lookup
      100).map (·.alive) = some true := by decide +kernel
  have marked : ((liveStep toyLiveAead (run (liveStep toyLiveAead) toyLiveness toyRacingSteps)
      { now := 102, op := .scan () }).1.server.clients.lookup 100).map (·.alive) = some false := by
    decide +kernel
  have timeout : (run (liveStep toyLiveAead) toyLiveness
      toyRacingSteps).server.cfg.livenessTimeoutMs.toNat = 15000 := by decide +kernel
  obtain ⟨cs, known, alive⟩ := Option.map_eq_some_iff.mp living
  obtain ⟨cs', found, dead⟩ := Option.map_eq_some_iff.mp marked
  obtain ⟨last, accepted, late⟩ :=
    (allSteps_append.mp timely).2.1 100 ⟨cs, cs', known, alive, found, dead⟩
  rw [heard] at accepted
  cases accepted
  rw [timeout] at late
  exact absurd late (by decide)

end SecureLink.Guarantees.BeaconLiveness
