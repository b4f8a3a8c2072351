import SecureLink.Guarantees.DosCaps

/-!
# What the sweep of half-open connections removes

Of the half-open connections of an address the guard keeps their number and one time: when the
first of them was admitted after the address had none (src/sl_dos_guard.c:91). Beside it run the
connections themselves. The sweep goes by the one time and takes all of the address or none. So
it is exact as long as every address that had a connection expire since then has only expired
ones left; a later one, or what is left behind a promoted one, is taken too early.
-/
namespace SecureLink.Guarantees.SweepPrecision
open Library Library.BigEndian Library.Runs Source.Limits Source.Limits.SlDosGuard DosCaps

structure HalfOpen where
  ip : Bytes
  admittedMs : UInt64
  deriving DecidableEq, Repr

inductive GuardCall where
  | admission (nowMs : UInt64) (peerIp : Bytes)
  | promote (peerIp : Bytes)
  | release (peerIp : Bytes)

/-- The guard, the connections that are half-open in the order of their admission, the addresses
of the established ones, for every address the admissions since it last had no half-open
connection, and the latest reading of the clock. -/
structure Watch where
  guard : SlDosGuard
  halfOpen : List HalfOpen := []
  established : List Bytes := []
  period : Bytes → List UInt64 := fun _ => []
  clock : UInt64 := 0

namespace Watch

/-- The addresses of the half-open connections. -/
def waiting (w : Watch) : List Bytes := w.halfOpen.map HalfOpen.ip

/-- The connection becomes half-open. -/
def admitted (w : Watch) (nowMs : UInt64) (ip : Bytes) : Watch :=
  { w with
    halfOpen := w.halfOpen ++ [⟨ip, nowMs⟩]
    period := Function.update w.period ip
      (if ip ∈ w.waiting then w.period ip ++ [nowMs] else [nowMs]) }

/-- The oldest half-open connection of the address is established. -/
def promoted (w : Watch) (ip : Bytes) : Watch :=
  { w with
    halfOpen := w.halfOpen.eraseP (fun c => c.ip == ip)
    established := if ip ∈ w.waiting then ip :: w.established else w.established }

theorem waiting_admitted (w : Watch) (nowMs : UInt64) (ip : Bytes) :
    (w.admitted nowMs ip).waiting = w.waiting ++ [ip] :=
  List.map_append

theorem waiting_promoted (w : Watch) (ip : Bytes) : (w.promoted ip).waiting = w.waiting.erase ip := by
  rw [List.erase_eq_eraseP, waiting, waiting, List.eraseP_map]
  simp only [promoted, Function.comp_def, BEq.comm]

end Watch

def watchStep (w : Watch) : GuardCall → Watch × Unit
  | .admission nowMs peerIp =>
    let result := w.guard.slDosGuardAdmit nowMs peerIp
    let after := if result.2 then w.admitted nowMs peerIp else w
    ({ after with guard := result.1, clock := nowMs }, ())
  | .promote peerIp => ({ w.promoted peerIp with guard := w.guard.slDosGuardPromote peerIp }, ())
  | .release peerIp =>
    ({ w with
       guard := w.guard.slDosGuardRelease peerIp
       established := w.established.erase peerIp }, ())

/-- The clock does not go back, and only established connections are released. -/
def Proper (w : Watch) : GuardCall → Prop
  | .admission nowMs _ => w.clock ≤ nowMs
  | .promote _ => True
  | .release peerIp => peerIp ∈ w.established

instance : ∀ w call, Decidable (Proper w call)
  | _, .admission _ _ => inferInstanceAs (Decidable (_ ≤ _))
  | _, .promote _ => inferInstanceAs (Decidable True)
  | _, .release _ => inferInstanceAs (Decidable (_ ∈ _))

/-- Admitted more than the timeout before. -/
def Expired (timeout : UInt32) (nowMs admittedMs : UInt64) : Prop :=
  timeout.toNat < nowMs.toNat - admittedMs.toNat

instance (timeout : UInt32) (nowMs admittedMs : UInt64) :
    Decidable (Expired timeout nowMs admittedMs) :=
  inferInstanceAs (Decidable (_ < _))

/-- The addresses of the connections that have expired. -/
def expired (timeout : UInt32) (w : Watch) (nowMs : UInt64) : List Bytes :=
  (w.halfOpen.filter (fun c => Expired timeout nowMs c.admittedMs)).map HalfOpen.ip

/-- The sweep takes from the count of every address exactly the expired ones, and returns their
number. -/
def Precise (timeout : UInt32) (w : Watch) (nowMs : UInt64) : Prop :=
  (∀ ip, halfOpenOf (w.guard.slDosGuardSweep nowMs).1 ip + (expired timeout w nowMs).count ip =
    halfOpenOf w.guard ip) ∧
  (w.guard.slDosGuardSweep nowMs).2 = (expired timeout w nowMs).length

/-- An address of which some connection of the period has expired has no other half-open ones. -/
def Uniform (timeout : UInt32) (w : Watch) (nowMs : UInt64) : Prop :=
  ∀ c ∈ w.halfOpen, ∀ t ∈ w.period c.ip, Expired timeout nowMs t →
    Expired timeout nowMs c.admittedMs

instance (timeout : UInt32) (w : Watch) (nowMs : UInt64) : Decidable (Uniform timeout w nowMs) :=
  have (c : HalfOpen) : Decidable (∀ t ∈ w.period c.ip, Expired timeout nowMs t →
      Expired timeout nowMs c.admittedMs) := List.decidableBAll _ _
  List.decidableBAll _ w.halfOpen

/-! ## The time the guard keeps -/

/-- The recorded time, while the address has half-open connections. -/
def oldestOf (g : SlDosGuard) (ip : Bytes) : Option UInt64 :=
  (g.entry ip).bind fun e => if e.halfOpen = 0 then none else some e.oldestHalfOpenMs

section Oldest
variable {g : SlDosGuard} {ip : Bytes}

theorem oldestOf_eq_some {t : UInt64} :
    oldestOf g ip = some t ↔
      ∃ e, g.entry ip = some e ∧ e.halfOpen ≠ 0 ∧ e.oldestHalfOpenMs = t := by
  simp only [oldestOf, Option.bind_eq_some_iff, Option.ite_none_left_eq_some, Option.some.injEq]

theorem oldestOf_none_iff : oldestOf g ip = none ↔ halfOpenOf g ip = 0 := by
  unfold oldestOf halfOpenOf
  cases g.entry ip with
  | none => simp
  | some e =>
    simp only [Option.bind_some, Option.elim_some, ite_eq_left_iff, reduceCtorEq, imp_false, not_not]
    exact UInt32.toNat_inj.symm

theorem abandoned_iff {nowMs : UInt64} :
    Abandoned g nowMs ip ↔
      ∃ t, oldestOf g ip = some t ∧ nowMs - t > g.halfOpenTimeoutMs.toUInt64 := by
  unfold Abandoned oldestOf
  cases g.entry ip with
  | none => simp
  | some e => simp [stale]

theorem oldestOf_create (g : SlDosGuard) (ip ip' : Bytes) : oldestOf (g.create ip) ip' = oldestOf g ip' := by
  rw [oldestOf, entry_create]
  split
  next same =>
    rw [same, oldestOf]
    cases g.entry ip with
    | none => rfl
    | some e => rfl
  next => rfl

/-- A change that does not open connections keeps the recorded times. -/
theorem oldestOf_book {f : IpEntry → IpEntry} (keeps : ∀ e, (f e).ip = e.ip)
    (times : ∀ e, (f e).oldestHalfOpenMs = e.oldestHalfOpenMs)
    (opens : ∀ e, g.entry ip = some e → (f e).halfOpen ≠ 0 → e.halfOpen ≠ 0) (gh ge : UInt32)
    {ip' : Bytes} {t : UInt64} (recorded : oldestOf (g.book ip f gh ge) ip' = some t) :
    oldestOf g ip' = some t := by
  obtain ⟨e', found, some_open, time⟩ := oldestOf_eq_some.mp recorded
  rw [entry_book keeps] at found
  split at found
  next same =>
    obtain ⟨e, there, rfl⟩ := Option.map_eq_some_iff.mp found
    rw [same]
    exact oldestOf_eq_some.mpr ⟨e, there, opens e there some_open, (times e).symm.trans time⟩
  next => exact oldestOf_eq_some.mpr ⟨e', found, some_open, time⟩

theorem oldestOf_promote {ip' : Bytes} {t : UInt64}
    (recorded : oldestOf (g.slDosGuardPromote ip) ip' = some t) : oldestOf g ip' = some t := by
  unfold slDosGuardPromote at recorded
  split at recorded
  next => exact recorded
  next e found =>
    split at recorded
    next => exact recorded
    next some_open =>
      refine oldestOf_book (f := SlDosGuard.promoted) (fun _ => rfl) (fun _ => rfl) ?_ _ _ recorded
      intro e' found' _
      rw [found] at found'
      cases found'
      exact some_open

theorem oldestOf_release {ip' : Bytes} {t : UInt64}
    (recorded : oldestOf (g.slDosGuardRelease ip) ip' = some t) : oldestOf g ip' = some t := by
  unfold slDosGuardRelease at recorded
  split at recorded
  next => exact recorded
  next e found =>
    split_ifs at recorded with est some_open
    · exact oldestOf_book (f := establishedReleased) (fun _ => rfl) (fun _ => rfl) (fun _ _ h => h) _ _
        recorded
    · refine oldestOf_book (f := halfOpenReleased) (fun _ => rfl) (fun _ => rfl) ?_ _ _ recorded
      intro e' found' _ zero
      rw [found] at found'
      cases found'
      rw [zero] at some_open
      exact absurd some_open (by decide)
    · exact recorded

theorem entry_created (g : SlDosGuard) (ip : Bytes) :
    (g.create ip).entry ip = some ((g.entry ip).getD { ip }) := by
  rw [entry_create, if_pos rfl]

theorem oldestOf_refused {nowMs : UInt64} (refused : (g.slDosGuardAdmit nowMs ip).2 = false)
    (ip' : Bytes) : oldestOf (g.slDosGuardAdmit nowMs ip).1 ip' = oldestOf g ip' := by
  unfold slDosGuardAdmit at refused ⊢
  simp only [entry_created] at refused ⊢
  split_ifs at refused ⊢
  · rfl
  · exact oldestOf_create g ip ip'

/-- The first connection of an address sets the time. -/
theorem oldestOf_admitted (h : Counted g) {nowMs : UInt64}
    (admitted : (g.slDosGuardAdmit nowMs ip).2 = true) (ip' : Bytes) :
    oldestOf (g.slDosGuardAdmit nowMs ip).1 ip' =
      if ip' = ip then some ((oldestOf g ip).getD nowMs) else oldestOf g ip' := by
  have counts : halfOpenOf (g.slDosGuardAdmit nowMs ip).1 ip ≠ 0 := by
    rcases admit_effect h nowMs ip with ⟨_, _, effect⟩ | ⟨refused, _⟩
    · rw [effect.halfOpen, Function.update_self]
      omega
    · rw [refused] at admitted
      cases admitted
  have found := entry_created g ip
  have before := oldestOf_create g ip ip
  unfold slDosGuardAdmit at admitted counts ⊢
  simp only [found] at admitted counts ⊢
  generalize (g.entry ip).getD { ip } = e at found admitted counts
  split_ifs at admitted counts ⊢ with full atCap same
  · -- the address itself
    subst same
    have entry : ((g.create ip').book ip' (opened nowMs) ((g.create ip').globalHalfOpen + 1)
        (g.create ip').globalEstablished).entry ip' = some (opened nowMs e) := by
      rw [entry_book (f := opened nowMs) (fun _ => rfl), if_pos rfl, found, Option.map_some]
    have some_open : (opened nowMs e).halfOpen ≠ 0 := by
      rw [halfOpenOf_eq entry] at counts
      exact fun zero => counts (by rw [zero]; rfl)
    rw [← before]
    rw [oldestOf, entry, Option.bind_some, if_neg some_open, oldestOf, found, Option.bind_some, opened]
    split
    next => rfl
    next => rfl
  · have entry : ((g.create ip).book ip (opened nowMs) ((g.create ip).globalHalfOpen + 1)
        (g.create ip).globalEstablished).entry ip' = (g.create ip).entry ip' := by
      rw [entry_book (f := opened nowMs) (fun _ => rfl), if_neg same]
    rw [← oldestOf_create g ip ip', oldestOf, entry, oldestOf]

end Oldest

/-! ## Guard and connections -/

/-- The counters are the numbers of connections, and the time recorded for an address is the
earliest of its period, of which its half-open connections are. -/
structure Tracks (timeout : UInt32) (w : Watch) : Prop where
  counted : Counted w.guard
  timeout : w.guard.halfOpenTimeoutMs = timeout
  halfOpen : ∀ ip, halfOpenOf w.guard ip = w.waiting.count ip
  established : ∀ ip, establishedOf w.guard ip = w.established.count ip
  earliest : ∀ ip t, oldestOf w.guard ip = some t → t ∈ w.period ip ∧ ∀ t' ∈ w.period ip, t ≤ t'
  inPeriod : ∀ c ∈ w.halfOpen, c.admittedMs ∈ w.period c.ip
  past : ∀ ip, ∀ t ∈ w.period ip, t ≤ w.clock

section Counts
variable {counts : Bytes → Nat} {l : List Bytes} (h : ∀ ip, counts ip = l.count ip)
include h

theorem update_succ_count (ip ip' : Bytes) :
    Function.update counts ip (counts ip + 1) ip' = (ip :: l).count ip' := by
  rw [List.count_cons, Function.update_apply, h, h]
  by_cases same : ip' = ip
  · rw [same, if_pos rfl, if_pos (beq_self_eq_true ip)]
  · rw [if_neg same, if_neg (fun eq => same (beq_iff_eq.mp eq).symm), Nat.add_zero]

theorem update_pred_count (ip ip' : Bytes) :
    Function.update counts ip (counts ip - 1) ip' = (l.erase ip).count ip' := by
  rw [List.count_erase, Function.update_apply, h, h]
  by_cases same : ip' = ip
  · rw [same, if_pos rfl, if_pos (beq_self_eq_true ip)]
  · rw [if_neg same, if_neg (fun eq => same (beq_iff_eq.mp eq).symm), Nat.sub_zero]

end Counts

theorem timeout_admission (g : SlDosGuard) (nowMs : UInt64) (ip : Bytes) :
    (g.slDosGuardAdmit nowMs ip).1.halfOpenTimeoutMs = g.halfOpenTimeoutMs := by
  unfold slDosGuardAdmit
  split_ifs
  · rfl
  · dsimp only
    split
    next => rfl
    next => split_ifs <;> rfl

theorem timeout_promote (g : SlDosGuard) (ip : Bytes) :
    (g.slDosGuardPromote ip).halfOpenTimeoutMs = g.halfOpenTimeoutMs := by
  unfold slDosGuardPromote
  split
  next => rfl
  next => split_ifs <;> rfl

theorem timeout_release (g : SlDosGuard) (ip : Bytes) :
    (g.slDosGuardRelease ip).halfOpenTimeoutMs = g.halfOpenTimeoutMs := by
  unfold slDosGuardRelease
  split
  next => rfl
  next => split_ifs <;> rfl

section Steps
variable {timeout : UInt32} {w : Watch} (h : Tracks timeout w)
include h

theorem Tracks.waiting_iff {ip : Bytes} : ip ∈ w.waiting ↔ oldestOf w.guard ip ≠ none := by
  rw [ne_eq, oldestOf_none_iff, h.halfOpen, ← List.count_pos_iff, Nat.pos_iff_ne_zero]

/-- The clock moves on and the guard refuses. -/
theorem Tracks.refused {nowMs : UInt64} {ip : Bytes} (later : w.clock ≤ nowMs)
    (refused : (w.guard.slDosGuardAdmit nowMs ip).2 = false) :
    Tracks timeout { w with guard := (w.guard.slDosGuardAdmit nowMs ip).1, clock := nowMs } := by
  rcases admit_effect h.counted nowMs ip with ⟨admitted, _⟩ | ⟨_, _, effect⟩
  · rw [refused] at admitted
    cases admitted
  · exact {
      counted := effect.counted
      timeout := (timeout_admission _ _ _).trans h.timeout
      halfOpen := fun ip' => (effect.halfOpen ip').trans (h.halfOpen ip')
      established := fun ip' => (effect.established ip').trans (h.established ip')
      earliest := fun ip' t recorded => h.earliest ip' t (oldestOf_refused refused ip' ▸ recorded)
      inPeriod := h.inPeriod
      past := fun ip' t member => UInt64.le_trans (h.past ip' t member) later }

theorem Tracks.admitted {nowMs : UInt64} {ip : Bytes} (later : w.clock ≤ nowMs)
    (admitted : (w.guard.slDosGuardAdmit nowMs ip).2 = true) :
    Tracks timeout { w.admitted nowMs ip with
      guard := (w.guard.slDosGuardAdmit nowMs ip).1, clock := nowMs } := by
  rcases admit_effect h.counted nowMs ip with ⟨_, _, effect⟩ | ⟨refused, _⟩
  · refine {
      counted := effect.counted
      timeout := (timeout_admission _ _ _).trans h.timeout
      halfOpen := ?_
      established := fun ip' => (effect.established ip').trans (h.established ip')
      earliest := ?_
      inPeriod := ?_
      past := ?_ }
    · intro ip'
      change halfOpenOf _ ip' = (w.admitted nowMs ip).waiting.count ip'
      rw [effect.halfOpen, update_succ_count h.halfOpen, w.waiting_admitted]
      exact ((List.perm_append_singleton ip w.waiting).count_eq ip').symm
    · intro ip' t recorded
      simp only at recorded
      rw [oldestOf_admitted h.counted admitted] at recorded
      simp only [Watch.admitted]
      split at recorded
      next same =>
        rw [same, Function.update_self]
        cases before : oldestOf w.guard ip with
        | none =>
          -- a period begins
          have absent : ip ∉ w.waiting := fun member => h.waiting_iff.mp member before
          rw [before] at recorded
          cases recorded
          simp [absent]
        | some oldest =>
          have present : ip ∈ w.waiting := h.waiting_iff.mpr (by simp [before])
          rw [before] at recorded
          cases recorded
          obtain ⟨member, least⟩ := h.earliest ip oldest before
          rw [if_pos present]
          refine ⟨List.mem_append_left _ member, ?_⟩
          intro t' member'
          rcases List.mem_append.mp member' with old | new
          · exact least t' old
          · rw [List.mem_singleton.mp new]
            exact UInt64.le_trans (h.past ip oldest member) later
      next other =>
        rw [Function.update_of_ne other]
        exact h.earliest ip' t recorded
    · intro c member
      simp only [Watch.admitted] at member ⊢
      rcases List.mem_append.mp member with old | new
      · have inside := h.inPeriod c old
        by_cases same : c.ip = ip
        · have present : ip ∈ w.waiting := List.mem_map.mpr ⟨c, old, same⟩
          rw [same, Function.update_self, if_pos present]
          rw [same] at inside
          exact List.mem_append_left _ inside
        · rw [Function.update_of_ne same]
          exact inside
      · rw [List.mem_singleton.mp new, Function.update_self]
        split <;> simp
    · intro ip' t member
      simp only [Watch.admitted] at member ⊢
      by_cases same : ip' = ip
      · rw [same, Function.update_self] at member
        split at member
        next =>
          rcases List.mem_append.mp member with old | new
          · exact UInt64.le_trans (h.past ip t old) later
          · rw [List.mem_singleton.mp new]
            exact UInt64.le_refl _
        next =>
          rw [List.mem_singleton.mp member]
          exact UInt64.le_refl _
      · rw [Function.update_of_ne same] at member
        exact UInt64.le_trans (h.past ip' t member) later
  · rw [refused] at admitted
    cases admitted

theorem Tracks.promoted (ip : Bytes) :
    Tracks timeout { w.promoted ip with guard := w.guard.slDosGuardPromote ip } := by
  have fewer := List.eraseP_subset (l := w.halfOpen) (p := fun c => c.ip == ip)
  obtain ⟨counted, halfOpen, established⟩ : Counted (w.guard.slDosGuardPromote ip) ∧
      (∀ ip', halfOpenOf (w.guard.slDosGuardPromote ip) ip' = (w.promoted ip).waiting.count ip') ∧
      ∀ ip', establishedOf (w.guard.slDosGuardPromote ip) ip' = (w.promoted ip).established.count ip' := by
    rw [w.waiting_promoted]
    simp only [Watch.promoted]
    rcases Nat.eq_zero_or_pos (halfOpenOf w.guard ip) with idle | positive
    · have absent : ip ∉ w.waiting := by
        rw [← List.count_eq_zero, ← h.halfOpen]
        exact idle
      rw [promote_idle idle, List.erase_of_not_mem absent, if_neg absent]
      exact ⟨h.counted, h.halfOpen, h.established⟩
    · have present : ip ∈ w.waiting := by
        rw [← List.count_pos_iff, ← h.halfOpen]
        exact positive
      have effect := promote_effect h.counted positive
      rw [if_pos present]
      exact ⟨effect.counted,
        fun ip' => (effect.halfOpen ip').trans (update_pred_count h.halfOpen ip ip'),
        fun ip' => (effect.established ip').trans (update_succ_count h.established ip ip')⟩
  exact {
    counted, halfOpen, established
    timeout := (timeout_promote _ _).trans h.timeout
    earliest := fun ip' t recorded => h.earliest ip' t (oldestOf_promote recorded)
    inPeriod := fun c member => h.inPeriod c (fewer member)
    past := h.past }

theorem Tracks.released {ip : Bytes} (member : ip ∈ w.established) :
    Tracks timeout { w with
      guard := w.guard.slDosGuardRelease ip, established := w.established.erase ip } := by
  have positive : 0 < establishedOf w.guard ip := by
    rw [h.established]
    exact List.count_pos_iff.mpr member
  have effect := release_established h.counted positive
  refine {
    counted := effect.counted
    timeout := (timeout_release _ _).trans h.timeout
    halfOpen := fun ip' => (effect.halfOpen ip').trans (h.halfOpen ip')
    established := ?_
    earliest := fun ip' t recorded => h.earliest ip' t (oldestOf_release recorded)
    inPeriod := h.inPeriod
    past := h.past }
  intro ip'
  simp only [effect.established]
  exact update_pred_count h.established ip ip'

theorem Tracks.step {call : GuardCall} (proper : Proper w call) :
    Tracks timeout (watchStep w call).1 := by
  cases call with
  | admission nowMs ip =>
    cases answer : (w.guard.slDosGuardAdmit nowMs ip).2 with
    | false =>
      simp only [watchStep, answer, Bool.false_eq_true, if_false]
      exact h.refused proper answer
    | true =>
      simp only [watchStep, answer, if_true]
      exact h.admitted proper answer
  | promote ip => exact h.promoted ip
  | release ip => exact h.released proper

end Steps

theorem tracks_new {maxPerIp maxGlobal timeout : UInt32} {g : SlDosGuard}
    (created : slDosGuardNew maxPerIp maxGlobal timeout = some g) : Tracks timeout { guard := g } := by
  have counted := (counted_new created).1
  unfold slDosGuardNew at created
  split at created
  next => cases created
  next =>
    cases created
    exact {
      counted := counted
      timeout := rfl
      halfOpen := fun _ => rfl
      established := fun _ => rfl
      earliest := fun _ _ recorded => absurd recorded (by simp [oldestOf, entry, findEntry, Chains.find])
      inPeriod := fun _ member => absurd member List.not_mem_nil
      past := fun _ _ member => absurd member List.not_mem_nil }

/-! ## The sweep -/

section Sweep
variable {timeout : UInt32} {w : Watch} (h : Tracks timeout w) {nowMs : UInt64}
  (later : w.clock ≤ nowMs)
include h later

/-- An address is swept exactly if something of its period has expired. -/
theorem Tracks.abandoned_iff {ip : Bytes} :
    Abandoned w.guard nowMs ip ↔
      ip ∈ w.waiting ∧ ∃ t ∈ w.period ip, Expired timeout nowMs t := by
  have expiry : ∀ t ≤ w.clock, (nowMs - t > w.guard.halfOpenTimeoutMs.toUInt64 ↔
      Expired timeout nowMs t) := by
    intro t past
    rw [h.timeout, gt_iff_lt, UInt64.lt_iff_toNat_lt, UInt32.toNat_toUInt64,
      UInt64.toNat_sub_of_le _ _ (UInt64.le_trans past later), Expired]
  rw [SweepPrecision.abandoned_iff, h.waiting_iff]
  constructor
  · intro ⟨t, recorded, stale⟩
    have member := (h.earliest ip t recorded).1
    exact ⟨by simp [recorded], t, member, (expiry t (h.past ip t member)).mp stale⟩
  · intro ⟨some_open, t', member', gone⟩
    obtain ⟨t, recorded⟩ := Option.ne_none_iff_exists'.mp some_open
    obtain ⟨member, least⟩ := h.earliest ip t recorded
    refine ⟨t, recorded, (expiry t (h.past ip t member)).mpr ?_⟩
    -- the earliest of the period has expired if any has
    have order := UInt64.le_iff_toNat_le.mp (least t' member')
    unfold Expired at gone ⊢
    omega

end Sweep

/-- The addresses of the connections that have not expired. -/
def unexpired (timeout : UInt32) (w : Watch) (nowMs : UInt64) : List Bytes :=
  (w.halfOpen.filter (fun c => !decide (Expired timeout nowMs c.admittedMs))).map HalfOpen.ip

theorem count_waiting (timeout : UInt32) (w : Watch) (nowMs : UInt64) (ip : Bytes) :
    w.waiting.count ip = (expired timeout w nowMs).count ip + (unexpired timeout w nowMs).count ip := by
  have split := List.filter_append_perm (fun c => decide (Expired timeout nowMs c.admittedMs)) w.halfOpen
  have counts := (split.map HalfOpen.ip).count_eq ip
  rw [List.map_append, List.count_append] at counts
  exact counts.symm

theorem uniform_iff {timeout : UInt32} {w : Watch} (h : Tracks timeout w) {nowMs : UInt64}
    (later : w.clock ≤ nowMs) :
    Uniform timeout w nowMs ↔ ∀ ip, Abandoned w.guard nowMs ip → ip ∉ unexpired timeout w nowMs := by
  constructor
  · intro uniform ip gone kept
    obtain ⟨c, member, rfl⟩ := List.mem_map.mp kept
    simp only [List.mem_filter, Bool.not_eq_true', decide_eq_false_iff_not] at member
    obtain ⟨_, t, inPeriod, stale⟩ := (h.abandoned_iff later).mp gone
    exact member.2 (uniform c member.1 t inPeriod stale)
  · intro precise c member t inPeriod stale
    by_contra fresh
    have waits : c.ip ∈ w.waiting := List.mem_map_of_mem member
    have gone := (h.abandoned_iff later).mpr ⟨waits, t, inPeriod, stale⟩
    exact precise c.ip gone (List.mem_map.mpr ⟨c, by simp [member, fresh], rfl⟩)

/-- The sweep is exact for an address unless it takes an unexpired connection. -/
theorem count_swept_iff {timeout : UInt32} {w : Watch} (h : Tracks timeout w) {nowMs : UInt64}
    (later : w.clock ≤ nowMs) (ip : Bytes) :
    halfOpenOf (w.guard.slDosGuardSweep nowMs).1 ip + (expired timeout w nowMs).count ip =
        halfOpenOf w.guard ip ↔
      (Abandoned w.guard nowMs ip → ip ∉ unexpired timeout w nowMs) := by
  have before := h.halfOpen ip
  rw [count_waiting timeout w nowMs] at before
  rw [halfOpenOf_sweep, before, ← List.count_eq_zero]
  by_cases gone : Abandoned w.guard nowMs ip
  · rw [if_pos gone]
    simp only [gone, forall_const]
    omega
  · have zero : (expired timeout w nowMs).count ip = 0 := by
      rw [List.count_eq_zero]
      intro member
      obtain ⟨c, there, rfl⟩ := List.mem_map.mp member
      simp only [List.mem_filter, decide_eq_true_eq] at there
      exact gone ((h.abandoned_iff later).mpr
        ⟨List.mem_map_of_mem there.1, c.admittedMs, h.inPeriod c there.1, there.2⟩)
    rw [if_neg gone, zero]
    simp only [gone, false_implies, iff_true]
    omega

/-- The sweep returns what it takes from the addresses. -/
theorem sweep_returns {g : SlDosGuard} (h : Counted g) (nowMs : UInt64) :
    ∃ ips : Finset Bytes, (∀ ip ∉ ips, halfOpenOf g ip = 0) ∧
      (g.slDosGuardSweep nowMs).2 =
        ∑ ip ∈ ips, if Abandoned g nowMs ip then halfOpenOf g ip else 0 := by
  let taken : IpEntry → Nat :=
    fun e => if stale g.halfOpenTimeoutMs nowMs e then e.halfOpen.toNat else 0
  have adds : ∀ acc e, (sweepEntry g.halfOpenTimeoutMs nowMs acc e).1.2 = acc.2 + taken e := by
    intro acc e
    simp only [sweepEntry, taken]
    split <;> rfl
  have sum := Chains.visitAll_adds (w := taken) (sweepEntry_entry g.halfOpenTimeoutMs nowMs)
    (fun acc : UInt32 × Nat => acc.2) adds slBuckets (g.globalHalfOpen, 0) g.buckets
  obtain ⟨ips, absent, sums⟩ := Chains.Placed.weigh_eq_sum bucketOf_lt h.placed
  refine ⟨ips, ?_, ?_⟩
  · intro ip outside
    have missing : g.entry ip = none := absent ip outside
    rw [halfOpenOf, missing, Option.elim_none]
  · simp only [slDosGuardSweep, sum, sums, Nat.zero_add]
    apply Finset.sum_congr rfl
    intro ip _
    change (g.entry ip).elim 0 taken = _
    cases found : g.entry ip with
    | none => simp [halfOpenOf, found]
    | some e => simp [Abandoned, halfOpenOf, found, taken]

/-- For every sequence of calls on a new guard with a clock that does not go back, in which only
established connections are released, and for every later sweep: it takes exactly the expired
connections, and returns how many, if and only if every address with an expired admission since
it last had no half-open connection has only expired ones left. -/
theorem sweep_precise_iff (maxPerIp maxGlobal timeout : UInt32) (g : SlDosGuard)
    (created : slDosGuardNew maxPerIp maxGlobal timeout = some g) (calls : List GuardCall)
    (proper : AllSteps watchStep Proper { guard := g } calls) (nowMs : UInt64)
    (later : (run watchStep { guard := g } calls).clock ≤ nowMs) :
    Precise timeout (run watchStep { guard := g } calls) nowMs ↔
      Uniform timeout (run watchStep { guard := g } calls) nowMs := by
  have h : Tracks timeout (run watchStep { guard := g } calls) :=
    AllSteps.invariant (Tracks timeout) (fun _ _ h proper => h.step proper) (tracks_new created) proper
  generalize run watchStep { guard := g } calls = w at h later
  rw [uniform_iff h later, Precise]
  simp only [count_swept_iff h later]
  refine and_iff_left_of_imp fun exactly => ?_
  obtain ⟨ips, outside, returned⟩ := sweep_returns h.counted nowMs
  have each : ∀ ip ∈ ips, (if Abandoned w.guard nowMs ip then halfOpenOf w.guard ip else 0) =
      (expired timeout w nowMs).count ip := by
    intro ip _
    have swept := (count_swept_iff h later ip).mpr (exactly ip)
    rw [halfOpenOf_sweep] at swept
    split at swept
    next gone =>
      rw [if_pos gone]
      omega
    next kept =>
      rw [if_neg kept]
      omega
  have inside : ∀ ip ∈ (expired timeout w nowMs : Multiset Bytes), ip ∈ ips := by
    intro ip member
    by_contra absent
    have count := h.halfOpen ip
    rw [outside ip absent, count_waiting timeout w nowMs] at count
    have positive := List.count_pos_iff.mpr (Multiset.mem_coe.mp member)
    omega
  have total := Multiset.sum_count_eq_card inside
  simp only [Multiset.coe_count, Multiset.coe_card] at total
  rw [returned, Finset.sum_congr rfl each]
  -- the two counts compare addresses by different instances
  convert total

/-- Of two addresses the first one is swept, and its connection was expired. -/
theorem separate_addresses_swept :
    let w := run watchStep { guard := toyGuard }
      [.admission 5 (ascii "10.0.0.1"), .admission 900 (ascii "10.0.0.2")]
    (w.guard.slDosGuardSweep 1100).2 = 1 ∧ Precise 1000 w 1100 := by
  intro w
  have precise : Precise 1000 w 1100 :=
    (sweep_precise_iff 2 3 1000 toyGuard rfl _ (by decide +kernel) 1100 (by decide +kernel)).mpr
      (by decide +kernel)
  have number : (expired 1000 w 1100).length = 1 := by decide +kernel
  exact ⟨precise.2.trans number, precise⟩

/-- Two connections of one address: the second one, 200 milliseconds old, is swept with the first. -/
theorem young_connection_swept :
    let w := run watchStep { guard := toyGuard }
      [.admission 5 (ascii "10.0.0.1"), .admission 900 (ascii "10.0.0.1")]
    halfOpenOf w.guard (ascii "10.0.0.1") = 2 ∧ expired 1000 w 1100 = [ascii "10.0.0.1"] ∧
      halfOpenOf (w.guard.slDosGuardSweep 1100).1 (ascii "10.0.0.1") = 0 ∧
      ¬ Precise 1000 w 1100 := by
  intro w
  have before : halfOpenOf w.guard (ascii "10.0.0.1") = 2 := by decide +kernel
  have gone : expired 1000 w 1100 = [ascii "10.0.0.1"] := by decide +kernel
  have after : halfOpenOf (w.guard.slDosGuardSweep 1100).1 (ascii "10.0.0.1") = 0 := by
    rw [halfOpenOf_sweep]
    decide +kernel
  refine ⟨before, gone, after, fun precise => ?_⟩
  have balance := precise.1 (ascii "10.0.0.1")
  rw [before, gone, after, List.count_singleton_self] at balance
  omega

end SecureLink.Guarantees.SweepPrecision
