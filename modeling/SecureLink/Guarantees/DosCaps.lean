import SecureLink.Library.Runs
import SecureLink.Source.Limits.DosGuard

/-!
# Caps of the connection guard

Whatever is called, the two global counters are the sums of the counters of the addresses,
no address and no total passes its cap, and no 32-bit word wraps. Every call is described
by its effect on the counters as numbers.
-/
namespace SecureLink.Guarantees.DosCaps
open Library Library.BigEndian Library.Runs Source.Limits Source.Limits.SlDosGuard

variable {g : SlDosGuard} {ip : Bytes} {e : IpEntry}

def halfOpenOf (g : SlDosGuard) (ip : Bytes) : Nat := (g.entry ip).elim 0 (·.halfOpen.toNat)

def establishedOf (g : SlDosGuard) (ip : Bytes) : Nat := (g.entry ip).elim 0 (·.established.toNat)

/-- The sum of a counter over the table. -/
def sumOf (counter : IpEntry → Nat) (g : SlDosGuard) : Nat :=
  Chains.weigh counter slBuckets g.buckets

/-- The counters add up and are within the caps. -/
structure Counted (g : SlDosGuard) : Prop where
  placed : Chains.Placed bucketOf IpEntry.ip g.buckets
  halfOpen : g.globalHalfOpen.toNat = sumOf (·.halfOpen.toNat) g
  established : g.globalEstablished.toNat = sumOf (·.established.toNat) g
  perIp : ∀ ip, halfOpenOf g ip + establishedOf g ip ≤ g.maxPerIp.toNat
  total : g.globalHalfOpen.toNat + g.globalEstablished.toNat ≤ g.maxGlobal.toNat

theorem toNat_add_of_lt {a b : UInt32} (small : a.toNat + b.toNat < 2 ^ 32) :
    (a + b).toNat = a.toNat + b.toNat := by
  rw [UInt32.toNat_add, Nat.mod_eq_of_lt small]

theorem toNat_succ_of_lt {a : UInt32} (small : a.toNat + 1 < 2 ^ 32) : (a + 1).toNat = a.toNat + 1 :=
  toNat_add_of_lt small

theorem toNat_pred_of_pos {a : UInt32} (positive : 0 < a.toNat) : (a - 1).toNat = a.toNat - 1 :=
  UInt32.toNat_sub_of_le a 1 (UInt32.le_iff_toNat_le.mpr positive)

theorem toNat_pos_iff {a : UInt32} : 0 < a.toNat ↔ a ≠ 0 := by
  rw [Nat.pos_iff_ne_zero, ne_eq, ne_eq, ← UInt32.toNat_inj]
  rfl

theorem entry_create (ip' : Bytes) :
    (g.create ip).entry ip' = if ip' = ip then some ((g.entry ip).getD { ip }) else g.entry ip' :=
  Chains.find_ensure g.buckets { ip } ip'

/-- A counter that is zero in a new entry does not change when the entry is made. -/
theorem elim_create {counter : IpEntry → Nat} (zero : counter { ip } = 0) (ip' : Bytes) :
    ((g.create ip).entry ip').elim 0 counter = (g.entry ip').elim 0 counter := by
  rw [entry_create]
  split
  next same =>
    rw [same]
    cases g.entry ip with
    | none => exact zero
    | some e => rfl
  next => rfl

theorem halfOpenOf_create (ip' : Bytes) : halfOpenOf (g.create ip) ip' = halfOpenOf g ip' :=
  elim_create rfl ip'

theorem establishedOf_create (ip' : Bytes) :
    establishedOf (g.create ip) ip' = establishedOf g ip' :=
  elim_create rfl ip'

theorem entry_book {f : IpEntry → IpEntry} (keeps : ∀ e, (f e).ip = e.ip) (gh ge : UInt32)
    (ip' : Bytes) :
    (g.book ip f gh ge).entry ip' = if ip' = ip then (g.entry ip).map f else g.entry ip' :=
  Chains.find_modify keeps g.buckets ip'

/-- A counter after an entry was changed together with the global ones. -/
theorem elim_book (found : g.entry ip = some e) {f : IpEntry → IpEntry}
    (keeps : ∀ e, (f e).ip = e.ip) (gh ge : UInt32) (counter : IpEntry → Nat) (ip' : Bytes) :
    ((g.book ip f gh ge).entry ip').elim 0 counter =
      Function.update (fun ip' => (g.entry ip').elim 0 counter) ip (counter (f e)) ip' := by
  rw [entry_book keeps, found, Function.update_apply]
  split
  next => rfl
  next => rfl

/-- No entry counts more than the table. -/
theorem elim_le_sumOf (counter : IpEntry → Nat) (ip : Bytes) :
    (g.entry ip).elim 0 counter ≤ sumOf counter g := by
  cases found : g.entry ip with
  | none => exact Nat.zero_le _
  | some e => exact Chains.le_weigh (w := counter) bucketOf_lt found

theorem halfOpenOf_eq (found : g.entry ip = some e) : halfOpenOf g ip = e.halfOpen.toNat := by
  rw [halfOpenOf, found, Option.elim_some]

theorem establishedOf_eq (found : g.entry ip = some e) :
    establishedOf g ip = e.established.toNat := by
  rw [establishedOf, found, Option.elim_some]

section Counted
variable (h : Counted g)
include h

theorem Counted.toNat_inflight :
    (g.globalHalfOpen + g.globalEstablished).toNat =
      g.globalHalfOpen.toNat + g.globalEstablished.toNat :=
  toNat_add_of_lt (Nat.lt_of_le_of_lt h.total g.maxGlobal.toNat_lt)

theorem Counted.toNat_perIp (found : g.entry ip = some e) :
    (e.halfOpen + e.established).toNat = e.halfOpen.toNat + e.established.toNat := by
  have cap := h.perIp ip
  rw [halfOpenOf_eq found, establishedOf_eq found] at cap
  exact toNat_add_of_lt (Nat.lt_of_le_of_lt cap g.maxPerIp.toNat_lt)

theorem Counted.halfOpen_le (ip : Bytes) : halfOpenOf g ip ≤ g.globalHalfOpen.toNat := by
  rw [h.halfOpen]
  exact elim_le_sumOf _ ip

theorem Counted.established_le (ip : Bytes) : establishedOf g ip ≤ g.globalEstablished.toNat := by
  rw [h.established]
  exact elim_le_sumOf _ ip

end Counted

/-- What a call leaves behind: the limits, the counters of every address, and sums that add up. -/
structure Effect (g after : SlDosGuard) (halfOpen established : Bytes → Nat) : Prop where
  counted : Counted after
  maxPerIp : after.maxPerIp = g.maxPerIp
  maxGlobal : after.maxGlobal = g.maxGlobal
  halfOpen : ∀ ip, halfOpenOf after ip = halfOpen ip
  established : ∀ ip, establishedOf after ip = established ip

theorem Counted.unchanged (h : Counted g) : Effect g g (halfOpenOf g) (establishedOf g) :=
  ⟨h, rfl, rfl, fun _ => rfl, fun _ => rfl⟩

theorem Counted.create (h : Counted g) (ip : Bytes) : Counted (g.create ip) where
  placed := h.placed.ensure { ip }
  halfOpen := h.halfOpen.trans (Chains.weigh_ensure bucketOf_lt g.buckets rfl).symm
  established := h.established.trans (Chains.weigh_ensure bucketOf_lt g.buckets rfl).symm
  perIp ip' := by
    rw [halfOpenOf_create, establishedOf_create]
    exact h.perIp ip'
  total := h.total

/-- An entry and the global counters that change by the same amounts stay in step. -/
theorem Counted.book (h : Counted g) (found : g.entry ip = some e) {f : IpEntry → IpEntry}
    (keeps : ∀ e, (f e).ip = e.ip) (gh ge : UInt32) {half est : Nat}
    (halfOpen : (f e).halfOpen.toNat = half) (established : (f e).established.toNat = est)
    (globalHalfOpen : gh.toNat + e.halfOpen.toNat = g.globalHalfOpen.toNat + half)
    (globalEstablished : ge.toNat + e.established.toNat = g.globalEstablished.toNat + est)
    (perIp : half + est ≤ g.maxPerIp.toNat) (total : gh.toNat + ge.toNat ≤ g.maxGlobal.toNat) :
    Effect g (g.book ip f gh ge) (Function.update (halfOpenOf g) ip half)
      (Function.update (establishedOf g) ip est) := by
  have halfAfter : ∀ ip', halfOpenOf (g.book ip f gh ge) ip' =
      Function.update (halfOpenOf g) ip half ip' := by
    rw [← halfOpen]
    exact elim_book found keeps gh ge (·.halfOpen.toNat)
  have estAfter : ∀ ip', establishedOf (g.book ip f gh ge) ip' =
      Function.update (establishedOf g) ip est ip' := by
    rw [← established]
    exact elim_book found keeps gh ge (·.established.toNat)
  have halfSum := Chains.weigh_modify (w := (·.halfOpen.toNat)) bucketOf_lt f found
  have estSum := Chains.weigh_modify (w := (·.established.toNat)) bucketOf_lt f found
  have halfBefore := h.halfOpen
  have estBefore := h.established
  simp only [sumOf] at halfBefore estBefore
  refine ⟨⟨h.placed.modify keeps, ?_, ?_, ?_, total⟩, rfl, rfl, halfAfter, estAfter⟩
  · simp only [sumOf, SlDosGuard.book, modifyEntry]
    omega
  · simp only [sumOf, SlDosGuard.book, modifyEntry]
    omega
  · intro ip'
    rw [halfAfter, estAfter]
    by_cases same : ip' = ip
    · rw [same, Function.update_self, Function.update_self]
      exact perIp
    · rw [Function.update_of_ne same, Function.update_of_ne same]
      exact h.perIp ip'

/-- There is room for one more connection of the address. -/
def Room (g : SlDosGuard) (ip : Bytes) : Prop :=
  g.globalHalfOpen.toNat + g.globalEstablished.toNat < g.maxGlobal.toNat ∧
    halfOpenOf g ip + establishedOf g ip < g.maxPerIp.toNat

/-- A connection is refused, and no counter changes, exactly if there is no room for it. -/
theorem admit_effect (h : Counted g) (nowMs : UInt64) (ip : Bytes) :
    ((g.slDosGuardAdmit nowMs ip).2 = true ∧ Room g ip ∧
      Effect g (g.slDosGuardAdmit nowMs ip).1
        (Function.update (halfOpenOf g) ip (halfOpenOf g ip + 1)) (establishedOf g)) ∨
    ((g.slDosGuardAdmit nowMs ip).2 = false ∧ ¬ Room g ip ∧
      Effect g (g.slDosGuardAdmit nowMs ip).1 (halfOpenOf g) (establishedOf g)) := by
  have inflight := h.toNat_inflight
  have created := h.create ip
  have found : (g.create ip).entry ip = some ((g.entry ip).getD { ip }) := by
    rw [entry_create, if_pos rfl]
  generalize (g.entry ip).getD { ip } = e at found
  have perIp := created.toNat_perIp found
  have half := halfOpenOf_eq found
  have est := establishedOf_eq found
  rw [halfOpenOf_create] at half
  rw [establishedOf_create] at est
  have capGlobal := g.maxGlobal.toNat_lt
  have capPerIp := g.maxPerIp.toNat_lt
  unfold slDosGuardAdmit
  simp only [found]
  split_ifs with full atCap
  · refine Or.inr ⟨rfl, ?_, h.unchanged⟩
    intro room
    rw [ge_iff_le, UInt32.le_iff_toNat_le] at full
    have := room.1
    omega
  · refine Or.inr ⟨rfl, ?_, created, rfl, rfl, halfOpenOf_create, establishedOf_create⟩
    intro room
    have reached : g.maxPerIp.toNat ≤ _ := UInt32.le_iff_toNat_le.mp atCap
    have := room.2
    omega
  · rw [ge_iff_le, UInt32.le_iff_toNat_le] at full
    have below : ¬ g.maxPerIp.toNat ≤ _ := fun reached => atCap (UInt32.le_iff_toNat_le.mpr reached)
    have one : (e.halfOpen + 1).toNat = halfOpenOf g ip + 1 := by
      rw [half]
      exact toNat_succ_of_lt (by omega)
    have all : (g.globalHalfOpen + 1).toNat = g.globalHalfOpen.toNat + 1 :=
      toNat_succ_of_lt (by omega)
    have booked := created.book found (f := opened nowMs) (fun _ => rfl) (g.globalHalfOpen + 1)
      g.globalEstablished one est.symm
      (by simp only [SlDosGuard.create]; omega) (by simp only [SlDosGuard.create]; omega)
      (by simp only [SlDosGuard.create]; omega) (by simp only [SlDosGuard.create]; omega)
    have sameHalf : halfOpenOf (g.create ip) = halfOpenOf g := funext halfOpenOf_create
    have sameEst : establishedOf (g.create ip) = establishedOf g := funext establishedOf_create
    rw [sameHalf, sameEst, Function.update_eq_self] at booked
    exact Or.inl ⟨rfl, ⟨by omega, by omega⟩, booked.counted, rfl, rfl, booked.halfOpen,
      booked.established⟩

theorem entry_of_halfOpen (positive : 0 < halfOpenOf g ip) :
    ∃ e, g.entry ip = some e ∧ halfOpenOf g ip = e.halfOpen.toNat ∧
      establishedOf g ip = e.established.toNat := by
  cases found : g.entry ip with
  | none => simp [halfOpenOf, found] at positive
  | some e => exact ⟨e, rfl, halfOpenOf_eq found, establishedOf_eq found⟩

theorem promote_idle (idle : halfOpenOf g ip = 0) : g.slDosGuardPromote ip = g := by
  unfold slDosGuardPromote
  cases found : g.entry ip with
  | none => rfl
  | some e =>
    rw [halfOpenOf_eq found] at idle
    exact if_pos (UInt32.toNat_inj.mp idle)

theorem promote_effect (h : Counted g) (positive : 0 < halfOpenOf g ip) :
    Effect g (g.slDosGuardPromote ip) (Function.update (halfOpenOf g) ip (halfOpenOf g ip - 1))
      (Function.update (establishedOf g) ip (establishedOf g ip + 1)) := by
  obtain ⟨e, found, half, est⟩ := entry_of_halfOpen positive
  have some_open : ¬ e.halfOpen = 0 := toNat_pos_iff.mp (half ▸ positive)
  have globalHalf := h.halfOpen_le ip
  have perIp := h.perIp ip
  have total := h.total
  have capGlobal := g.maxGlobal.toNat_lt
  have capPerIp := g.maxPerIp.toNat_lt
  have less : (e.halfOpen - 1).toNat = e.halfOpen.toNat - 1 := toNat_pred_of_pos (by omega)
  have more : (e.established + 1).toNat = e.established.toNat + 1 := toNat_succ_of_lt (by omega)
  have allLess : (g.globalHalfOpen - 1).toNat = g.globalHalfOpen.toNat - 1 :=
    toNat_pred_of_pos (by omega)
  have allMore : (g.globalEstablished + 1).toNat = g.globalEstablished.toNat + 1 :=
    toNat_succ_of_lt (by omega)
  simp only [slDosGuardPromote, found, if_neg some_open]
  apply h.book found (f := promoted) (fun _ => rfl)
  · rw [half]
    exact less
  · rw [est]
    exact more
  all_goals omega

theorem release_established (h : Counted g) (positive : 0 < establishedOf g ip) :
    Effect g (g.slDosGuardRelease ip) (halfOpenOf g)
      (Function.update (establishedOf g) ip (establishedOf g ip - 1)) := by
  obtain ⟨e, found⟩ : ∃ e, g.entry ip = some e := by
    cases found : g.entry ip with
    | none => simp [establishedOf, found] at positive
    | some e => exact ⟨e, rfl⟩
  have half := halfOpenOf_eq found
  have est := establishedOf_eq found
  have some_open : e.established > 0 := UInt32.lt_iff_toNat_lt.mpr (est ▸ positive)
  have globalEst := h.established_le ip
  have perIp := h.perIp ip
  have total := h.total
  have less : (e.established - 1).toNat = e.established.toNat - 1 := toNat_pred_of_pos (by omega)
  have allLess : (g.globalEstablished - 1).toNat = g.globalEstablished.toNat - 1 :=
    toNat_pred_of_pos (by omega)
  simp only [slDosGuardRelease, found, if_pos some_open]
  have booked := h.book found (f := establishedReleased) (fun _ => rfl) g.globalHalfOpen
    (g.globalEstablished - 1) half.symm less (by omega) (by omega) (by omega) (by omega)
  rw [Function.update_eq_self, ← est] at booked
  exact booked

theorem release_halfOpen (h : Counted g) (idle : establishedOf g ip = 0)
    (positive : 0 < halfOpenOf g ip) :
    Effect g (g.slDosGuardRelease ip) (Function.update (halfOpenOf g) ip (halfOpenOf g ip - 1))
      (establishedOf g) := by
  obtain ⟨e, found, half, est⟩ := entry_of_halfOpen positive
  have zero : ¬ e.established > 0 := by
    rw [gt_iff_lt, UInt32.lt_iff_toNat_lt, ← est, idle]
    exact Nat.lt_irrefl 0
  have some_open : e.halfOpen > 0 := UInt32.lt_iff_toNat_lt.mpr (half ▸ positive)
  have globalHalf := h.halfOpen_le ip
  have perIp := h.perIp ip
  have total := h.total
  have less : (e.halfOpen - 1).toNat = e.halfOpen.toNat - 1 := toNat_pred_of_pos (by omega)
  have allLess : (g.globalHalfOpen - 1).toNat = g.globalHalfOpen.toNat - 1 :=
    toNat_pred_of_pos (by omega)
  simp only [slDosGuardRelease, found, if_neg zero, if_pos some_open]
  have booked := h.book found (f := halfOpenReleased) (fun _ => rfl) (g.globalHalfOpen - 1)
    g.globalEstablished less est.symm (by omega) (by omega) (by omega) (by omega)
  rw [Function.update_eq_self, ← half] at booked
  exact booked

theorem release_idle (established : establishedOf g ip = 0) (halfOpen : halfOpenOf g ip = 0) :
    g.slDosGuardRelease ip = g := by
  unfold slDosGuardRelease
  cases found : g.entry ip with
  | none => rfl
  | some e =>
    rw [halfOpenOf_eq found] at halfOpen
    rw [establishedOf_eq found] at established
    have noEstablished : e.established = 0 := UInt32.toNat_inj.mp established
    have noHalfOpen : e.halfOpen = 0 := UInt32.toNat_inj.mp halfOpen
    simp [noEstablished, noHalfOpen]

/-- The sweep abandons the half-open connections of the address. -/
def Abandoned (g : SlDosGuard) (nowMs : UInt64) (ip : Bytes) : Prop :=
  (g.entry ip).any (stale g.halfOpenTimeoutMs nowMs) = true

instance (g : SlDosGuard) (nowMs : UInt64) (ip : Bytes) : Decidable (Abandoned g nowMs ip) :=
  inferInstanceAs (Decidable (_ = true))

/-- What the sweep makes of an entry. -/
def swept (halfOpenTimeoutMs : UInt32) (cutoff : UInt64) (e : IpEntry) : IpEntry :=
  if stale halfOpenTimeoutMs cutoff e then { e with halfOpen := 0 } else e

theorem sweepEntry_entry (timeout : UInt32) (cutoff : UInt64) (acc : UInt32 × Nat) (e : IpEntry) :
    (sweepEntry timeout cutoff acc e).2 = swept timeout cutoff e := by
  unfold sweepEntry swept
  split <;> rfl

theorem swept_ip (timeout : UInt32) (cutoff : UInt64) (e : IpEntry) :
    (swept timeout cutoff e).ip = e.ip := by
  unfold swept
  split <;> rfl

theorem swept_established (timeout : UInt32) (cutoff : UInt64) (e : IpEntry) :
    (swept timeout cutoff e).established = e.established := by
  unfold swept
  split <;> rfl

theorem swept_halfOpen (timeout : UInt32) (cutoff : UInt64) (e : IpEntry) :
    (swept timeout cutoff e).halfOpen.toNat =
      if stale timeout cutoff e then 0 else e.halfOpen.toNat := by
  unfold swept
  split <;> rfl

/-- One round of the sweep takes from the global counter what it takes from the entry. -/
theorem sweepEntry_books (timeout : UInt32) (cutoff : UInt64) (acc : UInt32 × Nat) (e : IpEntry)
    (enough : e.halfOpen.toNat ≤ acc.1.toNat) :
    (sweepEntry timeout cutoff acc e).1.1.toNat + e.halfOpen.toNat =
      acc.1.toNat + (swept timeout cutoff e).halfOpen.toNat := by
  unfold sweepEntry swept
  split
  next =>
    have fits : ¬ e.halfOpen > acc.1 := by
      rw [gt_iff_lt, UInt32.lt_iff_toNat_lt]
      omega
    have less : (acc.1 - e.halfOpen).toNat = acc.1.toNat - e.halfOpen.toNat :=
      UInt32.toNat_sub_of_le _ _ (UInt32.le_iff_toNat_le.mpr enough)
    simp only [if_neg fits, less, UInt32.toNat_zero]
    omega
  next => rfl

section Sweep
variable (g : SlDosGuard) (nowMs : UInt64)

theorem entry_sweep (ip : Bytes) : (g.slDosGuardSweep nowMs).1.entry ip =
    (g.entry ip).map (swept g.halfOpenTimeoutMs nowMs) :=
  Chains.find_visitAll (sweepEntry_entry g.halfOpenTimeoutMs nowMs)
    (swept_ip g.halfOpenTimeoutMs nowMs) bucketOf_lt _ _ ip

theorem halfOpenOf_sweep (ip : Bytes) : halfOpenOf (g.slDosGuardSweep nowMs).1 ip =
    if Abandoned g nowMs ip then 0 else halfOpenOf g ip := by
  rw [halfOpenOf, entry_sweep]
  cases found : g.entry ip with
  | none => simp [Abandoned, halfOpenOf, found]
  | some e => simp [Abandoned, halfOpenOf, found, swept_halfOpen]

theorem establishedOf_sweep (ip : Bytes) :
    establishedOf (g.slDosGuardSweep nowMs).1 ip = establishedOf g ip := by
  rw [establishedOf, entry_sweep, establishedOf]
  cases g.entry ip with
  | none => rfl
  | some e => exact congrArg UInt32.toNat (swept_established _ _ e)

end Sweep

theorem sweep_effect (h : Counted g) (nowMs : UInt64) :
    Effect g (g.slDosGuardSweep nowMs).1
        (fun ip => if Abandoned g nowMs ip then 0 else halfOpenOf g ip) (establishedOf g) ∧
      (g.slDosGuardSweep nowMs).1.globalHalfOpen.toNat ≤ g.globalHalfOpen.toNat := by
  have changes := sweepEntry_entry g.halfOpenTimeoutMs nowMs
  have keeps := swept_ip g.halfOpenTimeoutMs nowMs
  have before := h.halfOpen
  have total := h.total
  rw [sumOf] at before
  have sum := Chains.visitAll_value (w := (·.halfOpen.toNat)) changes
    (fun acc : UInt32 × Nat => acc.1.toNat) (sweepEntry_books g.halfOpenTimeoutMs nowMs)
    (n := slBuckets) (s := (g.globalHalfOpen, 0)) (t := g.buckets) (by rw [before])
  simp only at sum
  have fewer := Chains.weigh_mono (w := fun e => (swept g.halfOpenTimeoutMs nowMs e).halfOpen.toNat)
    (v := (·.halfOpen.toNat))
    (fun e => by rw [swept_halfOpen]; split <;> omega) slBuckets g.buckets
  have less : (g.slDosGuardSweep nowMs).1.globalHalfOpen.toNat ≤ g.globalHalfOpen.toNat := by
    simp only [slDosGuardSweep]
    omega
  have placed := h.placed.visitAll changes keeps slBuckets (g.globalHalfOpen, 0)
  have perIp : (g.slDosGuardSweep nowMs).1.maxPerIp = g.maxPerIp := by simp only [slDosGuardSweep]
  have global : (g.slDosGuardSweep nowMs).1.maxGlobal = g.maxGlobal := by
    simp only [slDosGuardSweep]
  refine ⟨⟨⟨placed, ?_, ?_, ?_, ?_⟩, perIp, global, halfOpenOf_sweep g nowMs,
    establishedOf_sweep g nowMs⟩, less⟩
  · simp only [sumOf, slDosGuardSweep, Chains.weigh_visitAll changes]
    omega
  · simp only [sumOf, slDosGuardSweep, Chains.weigh_visitAll changes, swept_established]
    exact h.established
  · intro ip
    have cap := h.perIp ip
    rw [halfOpenOf_sweep, establishedOf_sweep, perIp]
    split <;> omega
  · have kept : (g.slDosGuardSweep nowMs).1.globalEstablished = g.globalEstablished := by
      simp only [slDosGuardSweep]
    rw [kept, global]
    omega

/-- A call on the guard, with the clock reading it makes. -/
inductive DosCall where
  | admission (nowMs : UInt64) (peerIp : Bytes)
  | promote (peerIp : Bytes)
  | release (peerIp : Bytes)
  | sweep (nowMs : UInt64)

/-- The answer is the one of `sl_dos_guard_admit`; the other calls have none. -/
def dosStep (g : SlDosGuard) : DosCall → SlDosGuard × Option Bool
  | .admission nowMs peerIp =>
    ((g.slDosGuardAdmit nowMs peerIp).1, some (g.slDosGuardAdmit nowMs peerIp).2)
  | .promote peerIp => (g.slDosGuardPromote peerIp, none)
  | .release peerIp => (g.slDosGuardRelease peerIp, none)
  | .sweep nowMs => ((g.slDosGuardSweep nowMs).1, none)

theorem counted_step (h : Counted g) (call : DosCall) :
    ∃ half est, Effect g (dosStep g call).1 half est := by
  cases call with
  | admission nowMs peerIp =>
    rcases admit_effect h nowMs peerIp with ⟨_, _, effect⟩ | ⟨_, _, effect⟩
    · exact ⟨_, _, effect⟩
    · exact ⟨_, _, effect⟩
  | promote peerIp =>
    rcases Nat.eq_zero_or_pos (halfOpenOf g peerIp) with idle | positive
    · simp only [dosStep, promote_idle idle]
      exact ⟨_, _, h.unchanged⟩
    · exact ⟨_, _, promote_effect h positive⟩
  | release peerIp =>
    rcases Nat.eq_zero_or_pos (establishedOf g peerIp) with idle | positive
    · rcases Nat.eq_zero_or_pos (halfOpenOf g peerIp) with idle' | positive
      · simp only [dosStep, release_idle idle idle']
        exact ⟨_, _, h.unchanged⟩
      · exact ⟨_, _, release_halfOpen h idle positive⟩
    · exact ⟨_, _, release_established h positive⟩
  | sweep nowMs => exact ⟨_, _, (sweep_effect h nowMs).1⟩

theorem counted_new {maxPerIp maxGlobal timeout : UInt32}
    (created : slDosGuardNew maxPerIp maxGlobal timeout = some g) :
    Counted g ∧ g.maxPerIp = maxPerIp ∧ g.maxGlobal = maxGlobal := by
  unfold slDosGuardNew at created
  split at created
  next => cases created
  next =>
    cases created
    refine ⟨⟨Chains.placed_empty _ _, ?_, ?_, fun _ => Nat.zero_le _, Nat.zero_le _⟩, rfl, rfl⟩
    · exact (Chains.weigh_empty _ _).symm
    · exact (Chains.weigh_empty _ _).symm

/-- No sum, increment or decrement of 32-bit words in the call leaves their range. -/
def NoWrap (g : SlDosGuard) : DosCall → Prop
  | .admission nowMs peerIp =>
    g.globalHalfOpen.toNat + g.globalEstablished.toNat < 2 ^ 32 ∧
    halfOpenOf g peerIp + establishedOf g peerIp < 2 ^ 32 ∧
    ((g.slDosGuardAdmit nowMs peerIp).2 = true →
      halfOpenOf g peerIp + 1 < 2 ^ 32 ∧ g.globalHalfOpen.toNat + 1 < 2 ^ 32)
  | .promote peerIp =>
    0 < halfOpenOf g peerIp → 0 < g.globalHalfOpen.toNat ∧
      establishedOf g peerIp + 1 < 2 ^ 32 ∧ g.globalEstablished.toNat + 1 < 2 ^ 32
  | .release peerIp =>
    (0 < establishedOf g peerIp → 0 < g.globalEstablished.toNat) ∧
    (0 < halfOpenOf g peerIp → 0 < g.globalHalfOpen.toNat)
  | .sweep nowMs =>
    (g.slDosGuardSweep nowMs).1.globalHalfOpen.toNat ≤ g.globalHalfOpen.toNat

theorem noWrap_of_counted (h : Counted g) (call : DosCall) : NoWrap g call := by
  have total := h.total
  have capGlobal := g.maxGlobal.toNat_lt
  have capPerIp := g.maxPerIp.toNat_lt
  cases call with
  | admission nowMs peerIp =>
    have perIp := h.perIp peerIp
    refine ⟨by omega, by omega, fun admitted => ?_⟩
    rcases admit_effect h nowMs peerIp with ⟨_, room, _⟩ | ⟨refused, _⟩
    · have := room.1
      have := room.2
      omega
    · rw [refused] at admitted
      cases admitted
  | promote peerIp =>
    have perIp := h.perIp peerIp
    have half := h.halfOpen_le peerIp
    simp only [NoWrap]
    omega
  | release peerIp =>
    have half := h.halfOpen_le peerIp
    have est := h.established_le peerIp
    simp only [NoWrap]
    omega
  | sweep nowMs => exact (sweep_effect h nowMs).2

/-- The counters of all addresses add up to the global ones. -/
def AddsUp (g : SlDosGuard) : Prop :=
  ∃ ips : Finset Bytes, (∀ ip ∉ ips, halfOpenOf g ip = 0 ∧ establishedOf g ip = 0) ∧
    g.globalHalfOpen.toNat = ∑ ip ∈ ips, halfOpenOf g ip ∧
    g.globalEstablished.toNat = ∑ ip ∈ ips, establishedOf g ip

theorem Counted.addsUp (h : Counted g) : AddsUp g := by
  obtain ⟨ips, absent, sums⟩ := Chains.Placed.weigh_eq_sum bucketOf_lt h.placed
  refine ⟨ips, ?_, h.halfOpen.trans (sums _), h.established.trans (sums _)⟩
  intro ip outside
  have missing : g.entry ip = none := absent ip outside
  exact ⟨by rw [halfOpenOf, missing, Option.elim_none], by rw [establishedOf, missing, Option.elim_none]⟩

/-- The totals that the guard reports do not wrap. -/
theorem Counted.toNat_slDosGuardPerIp (h : Counted g) (ip : Bytes) :
    (g.slDosGuardPerIp ip).toNat = halfOpenOf g ip + establishedOf g ip := by
  unfold slDosGuardPerIp
  cases found : g.entry ip with
  | none =>
    rw [halfOpenOf, establishedOf, found]
    rfl
  | some e => exact (h.toNat_perIp found).trans (by rw [halfOpenOf_eq found, establishedOf_eq found])

theorem Counted.toNat_slDosGuardGlobalInflight (h : Counted g) :
    g.slDosGuardGlobalInflight.toNat = g.globalHalfOpen.toNat + g.globalEstablished.toNat :=
  toNat_add_of_lt (Nat.lt_of_le_of_lt h.total g.maxGlobal.toNat_lt)

/-- Whatever is called on a new guard: the global counters are the sums over the addresses, the
totals it reports are those of the counters and within both caps, a connection was admitted exactly
when both totals were below their caps, and no counter wrapped. -/
theorem dos_guard_caps (maxPerIp maxGlobal timeout : UInt32) (g : SlDosGuard)
    (created : slDosGuardNew maxPerIp maxGlobal timeout = some g) (calls : List DosCall) :
    AddsUp (run dosStep g calls) ∧
    (∀ ip, ((run dosStep g calls).slDosGuardPerIp ip).toNat =
        halfOpenOf (run dosStep g calls) ip + establishedOf (run dosStep g calls) ip ∧
      (run dosStep g calls).slDosGuardPerIp ip ≤ maxPerIp) ∧
    ((run dosStep g calls).slDosGuardGlobalInflight.toNat =
        (run dosStep g calls).globalHalfOpen.toNat + (run dosStep g calls).globalEstablished.toNat ∧
      (run dosStep g calls).slDosGuardGlobalInflight ≤ maxGlobal) ∧
    AllSteps dosStep (fun g call => NoWrap g call ∧ ∀ nowMs ip, call = .admission nowMs ip →
      ((dosStep g call).2 = some true ↔
        g.globalHalfOpen.toNat + g.globalEstablished.toNat < maxGlobal.toNat ∧
        halfOpenOf g ip + establishedOf g ip < maxPerIp.toNat)) g calls := by
  let inv : SlDosGuard → Prop :=
    fun g => Counted g ∧ g.maxPerIp = maxPerIp ∧ g.maxGlobal = maxGlobal
  have start : inv g := counted_new created
  have keeps : ∀ g call, inv g → inv (dosStep g call).1 := by
    intro g call ⟨h, perIp, global⟩
    obtain ⟨half, est, effect⟩ := counted_step h call
    exact ⟨effect.counted, effect.maxPerIp.trans perIp, effect.maxGlobal.trans global⟩
  obtain ⟨last, perIp, global⟩ := run_invariant inv keeps calls start
  refine ⟨last.addsUp, fun ip => ?_, ?_, ?_⟩
  · rw [UInt32.le_iff_toNat_le, last.toNat_slDosGuardPerIp, ← perIp]
    exact ⟨rfl, last.perIp ip⟩
  · rw [UInt32.le_iff_toNat_le, last.toNat_slDosGuardGlobalInflight, ← global]
    exact ⟨rfl, last.total⟩
  refine allSteps_of_invariant inv keeps ?_ calls start
  intro g call ⟨h, perIp, global⟩
  refine ⟨noWrap_of_counted h call, ?_⟩
  rintro nowMs ip rfl
  rw [← perIp, ← global]
  rcases admit_effect h nowMs ip with ⟨admitted, room, _⟩ | ⟨refused, noRoom, _⟩
  · exact iff_of_true (congrArg some admitted) room
  · exact iff_of_false (by simp [dosStep, refused]) noRoom

/-- One address may have two connections, the guard three. -/
def toyGuard : SlDosGuard := { maxPerIp := 2, maxGlobal := 3, halfOpenTimeoutMs := 1000 }

def toyCalls : List DosCall :=
  [.admission 5 (ascii "10.0.0.1"), .release (ascii "10.0.0.2"), .promote (ascii "10.0.0.1"),
    .admission 9 (ascii "10.0.0.1"), .admission 9 (ascii "10.0.0.1"), .sweep 2000]

theorem dos_guard_caps_toy :
    slDosGuardNew 2 3 1000 = some toyGuard ∧ AddsUp (run dosStep toyGuard toyCalls) ∧
    (∀ ip, (run dosStep toyGuard toyCalls).slDosGuardPerIp ip ≤ 2) ∧
    (run dosStep toyGuard toyCalls).slDosGuardGlobalInflight ≤ 3 ∧
    AllSteps dosStep NoWrap toyGuard toyCalls ∧
    outputs dosStep toyGuard toyCalls = [some true, none, none, some true, some false, none] := by
  obtain ⟨sums, perIp, global, steps⟩ := dos_guard_caps 2 3 1000 toyGuard rfl toyCalls
  exact ⟨rfl, sums, fun ip => (perIp ip).2, global.2, AllSteps.mono (fun _ _ here => here.1) steps,
    by decide +kernel⟩

end SecureLink.Guarantees.DosCaps
