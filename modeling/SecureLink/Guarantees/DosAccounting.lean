import SecureLink.Guarantees.DosCaps

/-!
# Counters of the connection guard and live connections

The guard is told the address of a connection, not which connection it is. Beside it run
the connections themselves: a connection is admitted, promoted at most once and closed
once, and a sweep abandons the half-open ones of an address. The counters agree with the
connections exactly as long as no abandoned connection is promoted, no half-open one is
closed while its address has an established one, and no abandoned one is closed while its
address has any other that counts.
-/
namespace SecureLink.Guarantees.DosAccounting
open Library.BigEndian Library.Runs Source.Limits DosCaps

inductive Phase where
  | halfOpen | swept | established | closed
  deriving DecidableEq, Repr

structure Connection where
  ip : Bytes
  phase : Phase
  deriving DecidableEq, Repr

/-- The guard and every connection it has admitted. -/
structure World where
  guard : SlDosGuard
  connections : List Connection

/-- What happens to connections; a connection is named by its place in the list. -/
inductive Event where
  | admission (nowMs : UInt64) (peerIp : Bytes)
  | promote (c : Nat)
  | close (c : Nat)
  | sweep (nowMs : UInt64)

/-- A connection the sweep abandons. -/
def abandon (g : SlDosGuard) (nowMs : UInt64) (c : Connection) : Connection :=
  if c.phase = .halfOpen ∧ Abandoned g nowMs c.ip then { c with phase := .swept } else c

/-- An event that is none for the connection, such as a second promotion, is no call. -/
def lifeStep (w : World) : Event → World × Unit
  | .admission nowMs peerIp =>
    let result := w.guard.slDosGuardAdmit nowMs peerIp
    ({ guard := result.1
       connections := if result.2 then w.connections ++ [⟨peerIp, .halfOpen⟩] else w.connections },
      ())
  | .promote c =>
    match w.connections[c]? with
    | none => (w, ())
    | some conn =>
      if conn.phase = .halfOpen ∨ conn.phase = .swept then
        ({ guard := w.guard.slDosGuardPromote conn.ip
           connections := w.connections.set c ⟨conn.ip, .established⟩ }, ())
      else (w, ())
  | .close c =>
    match w.connections[c]? with
    | none => (w, ())
    | some conn =>
      if conn.phase = .closed then (w, ())
      else
        ({ guard := w.guard.slDosGuardRelease conn.ip
           connections := w.connections.set c ⟨conn.ip, .closed⟩ }, ())
  | .sweep nowMs =>
    ({ guard := (w.guard.slDosGuardSweep nowMs).1
       connections := w.connections.map (abandon w.guard nowMs) }, ())

/-- The connections of an address in a phase. -/
def live (w : World) (ip : Bytes) (phase : Phase) : Nat := w.connections.count ⟨ip, phase⟩

/-- The counters of the guard are the numbers of connections. -/
def Accounted (w : World) : Prop :=
  ∀ ip, establishedOf w.guard ip = live w ip .established ∧
    halfOpenOf w.guard ip = live w ip .halfOpen

/-- The guard can tell which connection the event is about. -/
def Unambiguous (w : World) : Event → Prop
  | .admission _ _ => True
  | .promote c => ∀ conn ∈ w.connections[c]?, conn.phase ≠ .swept
  | .close c => ∀ conn ∈ w.connections[c]?,
    (conn.phase = .halfOpen → live w conn.ip .established = 0) ∧
    (conn.phase = .swept → live w conn.ip .established = 0 ∧ live w conn.ip .halfOpen = 0)
  | .sweep _ => True

instance : ∀ w event, Decidable (Unambiguous w event)
  | _, .admission _ _ => inferInstanceAs (Decidable True)
  | _, .promote _ => inferInstanceAs (Decidable (∀ _ ∈ _, _))
  | _, .close _ => inferInstanceAs (Decidable (∀ _ ∈ _, _))
  | _, .sweep _ => inferInstanceAs (Decidable True)

theorem lifeStep_counted {w : World} (h : Counted w.guard) (event : Event) :
    Counted (lifeStep w event).1.guard := by
  have calls : ∀ call, Counted (dosStep w.guard call).1 := by
    intro call
    obtain ⟨_, _, effect⟩ := counted_step h call
    exact effect.counted
  cases event with
  | admission nowMs peerIp => exact calls (.admission nowMs peerIp)
  | promote c =>
    simp only [lifeStep]
    split
    next => exact h
    next conn _ =>
      split
      next => exact calls (.promote conn.ip)
      next => exact h
  | close c =>
    simp only [lifeStep]
    split
    next => exact h
    next conn _ =>
      split
      next => exact h
      next => exact calls (.release conn.ip)
  | sweep nowMs => exact calls (.sweep nowMs)

section Moved
variable {w : World} {c : Nat} {ip : Bytes} {phase : Phase}
  (here : w.connections[c]? = some ⟨ip, phase⟩)
include here

/-- A connection leaves one phase and enters another. -/
theorem count_set (next : Phase) (ip' : Bytes) (phase' : Phase) :
    (w.connections.set c ⟨ip, next⟩).count ⟨ip', phase'⟩ +
        (if ip = ip' ∧ phase = phase' then 1 else 0) =
      live w ip' phase' + (if ip = ip' ∧ next = phase' then 1 else 0) := by
  obtain ⟨inside, same⟩ := List.getElem?_eq_some_iff.mp here
  have member : (⟨ip, phase⟩ : Connection) ∈ w.connections := List.mem_of_getElem? here
  have counted : ip = ip' ∧ phase = phase' → 0 < live w ip' phase' := by
    rintro ⟨rfl, rfl⟩
    exact List.count_pos_iff.mpr member
  rw [List.count_set inside, same, live]
  simp only [beq_iff_eq, Connection.mk.injEq]
  rw [live] at counted
  split
  next matched =>
    have := counted matched
    omega
  next => omega

theorem live_pos : 0 < live w ip phase := List.count_pos_iff.mpr (List.mem_of_getElem? here)

/-- Only the address of the connection has to be looked at when it moves on. -/
theorem accounted_moved {next : Phase} (acc : Accounted w) {guard : SlDosGuard} (half est : Nat)
    (halfOpen : ∀ ip', halfOpenOf guard ip' = Function.update (halfOpenOf w.guard) ip half ip')
    (established : ∀ ip', establishedOf guard ip' =
      Function.update (establishedOf w.guard) ip est ip') :
    Accounted ⟨guard, w.connections.set c ⟨ip, next⟩⟩ ↔
      est + (if phase = .established then 1 else 0) =
          live w ip .established + (if next = .established then 1 else 0) ∧
        half + (if phase = .halfOpen then 1 else 0) =
          live w ip .halfOpen + (if next = .halfOpen then 1 else 0) := by
  have moved := count_set here next
  constructor
  · intro after
    have atIp := after ip
    rw [halfOpen, established, Function.update_self, Function.update_self] at atIp
    have first := moved ip .established
    have second := moved ip .halfOpen
    simp only [true_and] at first second
    rw [atIp.1, atIp.2]
    exact ⟨first, second⟩
  · intro ⟨first, second⟩ ip'
    rw [halfOpen, established]
    by_cases same : ip' = ip
    · have first' := moved ip' .established
      have second' := moved ip' .halfOpen
      subst same
      rw [Function.update_self, Function.update_self]
      simp only [true_and] at first' second'
      simp only [live] at first second first' second' ⊢
      omega
    · have other : ip ≠ ip' := fun eq => same eq.symm
      have first' := moved ip' .established
      have second' := moved ip' .halfOpen
      rw [Function.update_of_ne same, Function.update_of_ne same]
      simp only [other, false_and, if_false, Nat.add_zero] at first' second'
      exact ⟨(acc ip').1.trans first'.symm, (acc ip').2.trans second'.symm⟩

end Moved

theorem live_concat (w : World) (guard : SlDosGuard) (ip ip' : Bytes) (phase : Phase) :
    live ⟨guard, w.connections ++ [⟨ip, .halfOpen⟩]⟩ ip' phase =
      live w ip' phase + if ip = ip' ∧ .halfOpen = phase then 1 else 0 := by
  rw [live, List.count_append, List.count_singleton, live]
  simp only [beq_iff_eq, Connection.mk.injEq]

theorem accounted_admission {w : World} (h : Counted w.guard) (acc : Accounted w) (nowMs : UInt64)
    (peerIp : Bytes) : Accounted (lifeStep w (.admission nowMs peerIp)).1 := by
  intro ip
  simp only [lifeStep]
  rcases admit_effect h nowMs peerIp with ⟨admitted, _, effect⟩ | ⟨refused, _, effect⟩
  · rw [effect.established, effect.halfOpen, admitted, if_pos rfl, live_concat, live_concat]
    refine ⟨by simpa using (acc ip).1, ?_⟩
    by_cases same : ip = peerIp
    · subst same
      simpa using (acc ip).2
    · have other : peerIp ≠ ip := fun eq => same eq.symm
      simpa [Function.update_of_ne same, other] using (acc ip).2
  · rw [effect.established, effect.halfOpen, refused, if_neg (by decide)]
    exact acc ip

theorem abandon_eq_established {g : SlDosGuard} {nowMs : UInt64} {c : Connection} {ip : Bytes} :
    abandon g nowMs c = ⟨ip, .established⟩ ↔ c = ⟨ip, .established⟩ := by
  obtain ⟨ip', phase⟩ := c
  unfold abandon
  split
  next gone =>
    obtain rfl : phase = .halfOpen := gone.1
    simp
  next => rfl

theorem abandon_eq_halfOpen {g : SlDosGuard} {nowMs : UInt64} {c : Connection} {ip : Bytes} :
    abandon g nowMs c = ⟨ip, .halfOpen⟩ ↔ c = ⟨ip, .halfOpen⟩ ∧ ¬ Abandoned g nowMs ip := by
  obtain ⟨ip', phase⟩ := c
  unfold abandon
  split
  next gone =>
    refine iff_of_false (by simp) ?_
    rintro ⟨same, kept⟩
    cases same
    exact kept gone.2
  next kept =>
    refine ⟨fun same => ⟨same, fun gone => ?_⟩, fun h => h.1⟩
    cases same
    exact kept ⟨rfl, gone⟩

/-- The sweep takes the half-open connections of the abandoned addresses and no others. -/
theorem count_abandon (g : SlDosGuard) (nowMs : UInt64) (connections : List Connection) (ip : Bytes) :
    (connections.map (abandon g nowMs)).count ⟨ip, .established⟩ =
        connections.count ⟨ip, .established⟩ ∧
      (connections.map (abandon g nowMs)).count ⟨ip, .halfOpen⟩ =
        if Abandoned g nowMs ip then 0 else connections.count ⟨ip, .halfOpen⟩ := by
  induction connections with
  | nil => simp
  | cons c rest ih =>
    simp only [List.map_cons, List.count_cons, ih.1, ih.2, beq_iff_eq, abandon_eq_established,
      abandon_eq_halfOpen]
    by_cases gone : Abandoned g nowMs ip <;> simp [gone]

theorem accounted_sweep {w : World} (h : Counted w.guard) (acc : Accounted w) (nowMs : UInt64) :
    Accounted (lifeStep w (.sweep nowMs)).1 := by
  intro ip
  have effect := (sweep_effect h nowMs).1
  have counts := count_abandon w.guard nowMs w.connections ip
  simp only [lifeStep, live, effect.established, effect.halfOpen, counts.1, counts.2]
  refine ⟨(acc ip).1, ?_⟩
  split
  next => rfl
  next => exact (acc ip).2

/-- From accounted counters a promotion leads to accounted ones exactly if the connection was not
abandoned. -/
theorem accounted_promote {w : World} (h : Counted w.guard) (acc : Accounted w) (c : Nat) :
    Accounted (lifeStep w (.promote c)).1 ↔ Unambiguous w (.promote c) := by
  simp only [lifeStep, Unambiguous]
  cases here : w.connections[c]? with
  | none => exact iff_of_true acc (by simp)
  | some conn =>
    obtain ⟨ip, phase⟩ := conn
    have half := (acc ip).2
    have est := (acc ip).1
    have present := live_pos here
    simp only [Option.mem_some_iff, forall_eq']
    cases phase with
    | halfOpen =>
      have positive : 0 < halfOpenOf w.guard ip := by omega
      have effect := promote_effect h positive
      simp only [true_or, if_true]
      rw [accounted_moved here acc _ _ effect.halfOpen effect.established]
      simp
      omega
    | swept =>
      simp only [or_true, if_true]
      rcases Nat.eq_zero_or_pos (halfOpenOf w.guard ip) with idle | positive
      · rw [promote_idle idle, accounted_moved here acc (halfOpenOf w.guard ip)
          (establishedOf w.guard ip) (by simp) (by simp)]
        simp
        omega
      · have effect := promote_effect h positive
        rw [accounted_moved here acc _ _ effect.halfOpen effect.established]
        simp
        omega
    | established => exact iff_of_true acc (by simp)
    | closed => exact iff_of_true acc (by simp)

/-- The same for a close: what the guard takes off is what the connection was counted under. -/
theorem accounted_close {w : World} (h : Counted w.guard) (acc : Accounted w) (c : Nat) :
    Accounted (lifeStep w (.close c)).1 ↔ Unambiguous w (.close c) := by
  simp only [lifeStep, Unambiguous]
  cases here : w.connections[c]? with
  | none => exact iff_of_true acc (by simp)
  | some conn =>
    obtain ⟨ip, phase⟩ := conn
    have half := (acc ip).2
    have est := (acc ip).1
    have present := live_pos here
    simp only [Option.mem_some_iff, forall_eq']
    by_cases closed : phase = .closed
    · rw [if_pos closed]
      exact iff_of_true acc (by simp [closed])
    · rw [if_neg closed]
      rcases Nat.eq_zero_or_pos (establishedOf w.guard ip) with noEstablished | positive
      · rcases Nat.eq_zero_or_pos (halfOpenOf w.guard ip) with noHalfOpen | positive
        · rw [release_idle noEstablished noHalfOpen, accounted_moved here acc (halfOpenOf w.guard ip)
            (establishedOf w.guard ip) (by simp) (by simp)]
          cases phase <;> simp at closed present ⊢ <;> omega
        · have effect := release_halfOpen h noEstablished positive
          rw [accounted_moved here acc _ (establishedOf w.guard ip) effect.halfOpen
            (by simpa using effect.established)]
          cases phase <;> simp at closed present ⊢ <;> omega
      · have effect := release_established h positive
        rw [accounted_moved here acc (halfOpenOf w.guard ip) _
          (by simpa using effect.halfOpen) effect.established]
        cases phase <;> simp at closed present ⊢ <;> omega

/-- For connections of any addresses, promoted at most once and closed once, interleaved in any
way with each other and with sweeps: the counters agree with the connections after every event
exactly if every event was unambiguous for the guard. -/
theorem counters_match_connections_iff (maxPerIp maxGlobal timeout : UInt32) (g : SlDosGuard)
    (created : slDosGuardNew maxPerIp maxGlobal timeout = some g) (events : List Event) :
    AllSteps lifeStep (fun w event => Accounted (lifeStep w event).1) ⟨g, []⟩ events ↔
      AllSteps lifeStep Unambiguous ⟨g, []⟩ events := by
  have start := (counted_new created).1
  have empty : Accounted ⟨g, []⟩ := by
    intro ip
    unfold slDosGuardNew at created
    split at created
    next => cases created
    next =>
      cases created
      exact ⟨rfl, rfl⟩
  have any : AllSteps lifeStep (fun _ _ => True) ⟨g, []⟩ events := .of_forall (fun _ _ => trivial) _
  refine any.safe_iff (fun w => Counted w.guard) Accounted
    (fun w event h _ => lifeStep_counted h event) ?_ start empty
  intro w event h _ acc
  cases event with
  | admission nowMs peerIp => exact iff_of_true (accounted_admission h acc nowMs peerIp) trivial
  | promote c => exact accounted_promote h acc c
  | close c => exact accounted_close h acc c
  | sweep nowMs => exact iff_of_true (accounted_sweep h acc nowMs) trivial

theorem counters_match_connections_toy :
    AllSteps lifeStep (fun w event => Accounted (lifeStep w event).1) ⟨toyGuard, []⟩
      [.admission 5 (ascii "10.0.0.1"), .admission 7 (ascii "10.0.0.2"), .promote 0, .close 1,
        .close 0] :=
  (counters_match_connections_iff 2 3 1000 toyGuard rfl _).mpr (by decide +kernel)

/-- Two connections of one address, one of them promoted: when the other one is closed the guard
takes the established one off and counts the closed one as half-open. -/
theorem established_forgotten :
    let w := run lifeStep ⟨toyGuard, []⟩
      [.admission 5 (ascii "10.0.0.1"), .admission 6 (ascii "10.0.0.1"), .promote 0, .close 1]
    live w (ascii "10.0.0.1") .established = 1 ∧ establishedOf w.guard (ascii "10.0.0.1") = 0 ∧
    live w (ascii "10.0.0.1") .halfOpen = 0 ∧ halfOpenOf w.guard (ascii "10.0.0.1") = 1 := by
  decide +kernel

end SecureLink.Guarantees.DosAccounting
