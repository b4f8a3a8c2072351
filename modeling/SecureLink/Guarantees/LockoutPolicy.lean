import SecureLink.Library.Runs
import SecureLink.Source.Limits.Lockout

/-!
# Lockout policy

Beside the table runs the history of every key: the failures since its last success and
the time of the last one. The policy asks for a window that doubles with every failure
beyond the threshold, up to the cap. The code stops doubling after sixteen failures beyond
the threshold, counts failures in 32 bits and adds the window to the time in 64 bits. The
policy is kept exactly as long as none of the three shows.
-/
namespace SecureLink.Guarantees.LockoutPolicy
open Library Library.BigEndian Library.Runs Source.Limits Source.Limits.SlLockout

/-- What has happened to a key. -/
structure History where
  failures : Nat := 0
  last : Nat := 0

structure Watched where
  lockout : SlLockout
  history : Bytes → History := fun _ => {}
  clock : UInt64 := 0

inductive LockCall where
  | fail (nowMs : UInt64) (key : Bytes)
  | succeed (key : Bytes)
  | check (nowMs : UInt64) (key : Bytes)

def lockStep (w : Watched) : LockCall → Watched × Option SlLockoutStatus
  | .fail nowMs key =>
    let result := w.lockout.slLockoutFail nowMs key
    ({ lockout := result.1
       history := Function.update w.history key
        { failures := (w.history key).failures + 1, last := nowMs.toNat }
       clock := nowMs }, some result.2)
  | .succeed key =>
    ({ w with
       lockout := w.lockout.slLockoutSucceed key
       history := Function.update w.history key {} }, none)
  | .check nowMs key => ({ w with clock := nowMs }, some (w.lockout.slLockoutCheck nowMs key))

/-- The clock does not go back. -/
def Forward (w : Watched) : LockCall → Prop
  | .fail nowMs _ => w.clock ≤ nowMs
  | .succeed _ => True
  | .check nowMs _ => w.clock ≤ nowMs

instance : ∀ w call, Decidable (Forward w call)
  | w, .fail nowMs _ => inferInstanceAs (Decidable (w.clock ≤ nowMs))
  | _, .succeed _ => inferInstanceAs (Decidable True)
  | w, .check nowMs _ => inferInstanceAs (Decidable (w.clock ≤ nowMs))

section Policy
variable (base cap threshold : UInt32)

/-- The window the policy asks for behind the `k`-th failure. -/
def window (k : Nat) : Nat := min cap.toNat (base.toNat * 2 ^ (k - threshold.toNat))

/-- The policy: is the key locked at that time? -/
def Locked (h : History) (now : Nat) : Prop :=
  threshold.toNat ≤ h.failures ∧ now < h.last + window base cap threshold h.failures

instance (h : History) (now : Nat) : Decidable (Locked base cap threshold h now) :=
  inferInstanceAs (Decidable (_ ∧ _))

/-- Whichever key is checked next, and whenever, the answer is the one of the policy. -/
def Kept (w : Watched) : Prop :=
  ∀ key nowMs, w.clock ≤ nowMs →
    (w.lockout.slLockoutCheck nowMs key = .blocked ↔
      Locked base cap threshold (w.history key) nowMs.toNat)

/-- The failure makes none of the limits of the code show: the doublings are those of the policy or
capped, the lock ends in the range of the clock, and if the 32-bit count has wrapped below the
threshold then nothing was to change. -/
def Faithful (w : Watched) : LockCall → Prop
  | .fail nowMs key =>
    let k := (w.history key).failures + 1
    let count := k % 2 ^ 32
    let doublings := min (count - threshold.toNat) 16
    threshold.toNat ≤ k →
      (threshold.toNat ≤ count ∧
        (k - threshold.toNat = doublings ∨ cap.toNat ≤ base.toNat * 2 ^ doublings) ∧
        nowMs.toNat + window base cap threshold k < 2 ^ 64) ∨
      (count < threshold.toNat ∧ nowMs.toNat = (w.history key).last ∧
        cap.toNat ≤ base.toNat * 2 ^ (k - 1 - threshold.toNat))
  | .succeed _ => True
  | .check _ _ => True

instance : ∀ w call, Decidable (Faithful base cap threshold w call)
  | _, .fail _ _ => inferInstanceAs (Decidable (_ → _ ∨ _))
  | _, .succeed _ => inferInstanceAs (Decidable True)
  | _, .check _ _ => inferInstanceAs (Decidable True)

end Policy

/-- More doublings make no difference exactly if fewer already reach the cap. -/
theorem doubled_eq_iff {base cap i j : Nat} (positive : 0 < base) (le : i ≤ j) :
    min cap (base * 2 ^ i) = min cap (base * 2 ^ j) ↔ j = i ∨ cap ≤ base * 2 ^ i := by
  have grows : base * 2 ^ i ≤ base * 2 ^ j :=
    Nat.mul_le_mul_left _ (Nat.pow_le_pow_right (by decide) le)
  constructor
  · intro same
    by_cases capped : cap ≤ base * 2 ^ i
    · exact Or.inr capped
    · refine Or.inl ?_
      have equal : base * 2 ^ i = base * 2 ^ j := by omega
      exact (Nat.pow_right_injective (Nat.le_refl 2) (Nat.eq_of_mul_eq_mul_left positive equal)).symm
  · rintro (rfl | capped)
    · rfl
    · omega

theorem doubled_mono (base cap : Nat) {i j : Nat} (le : i ≤ j) :
    min cap (base * 2 ^ i) ≤ min cap (base * 2 ^ j) :=
  min_le_min_left _ (Nat.mul_le_mul_left _ (Nat.pow_le_pow_right (by decide) le))

/-- A lock set anew ends where it should exactly if it has the right length and does not wrap. -/
theorem lock_set_iff {now written wanted : Nat} (short : written ≤ wanted) (bounded : wanted < 2 ^ 32)
    (positive : 0 < wanted) (inRange : now < 2 ^ 64) :
    (∀ n, now ≤ n → n < 2 ^ 64 → (n < (now + written) % 2 ^ 64 ↔ n < now + wanted)) ↔
      wanted = written ∧ now + wanted < 2 ^ 64 := by
  constructor
  · intro agree
    have atNow := agree now (Nat.le_refl _) inRange
    have atEnd := agree (now + written) (Nat.le_add_right _ _)
    omega
  · rintro ⟨rfl, fits⟩ n _ _
    rw [Nat.mod_eq_of_lt fits]

/-- A lock left alone ends where it should exactly if nothing has changed. -/
theorem lock_left_iff {clock now lock last old wanted : Nat} (past : last ≤ now) (later : clock ≤ now)
    (grows : old ≤ wanted) (positive : 0 < wanted) (inRange : now < 2 ^ 64) (bound : lock < 2 ^ 64)
    (before : ∀ n, clock ≤ n → n < 2 ^ 64 → (n < lock ↔ n < last + old)) :
    (∀ n, now ≤ n → n < 2 ^ 64 → (n < lock ↔ n < now + wanted)) ↔ now = last ∧ old = wanted := by
  constructor
  · intro agree
    -- both locks last beyond now, so each of them ends where the table says
    have atNow := agree now (Nat.le_refl _) inRange
    have atEnd := agree lock
    have beforeEnd := before (lock - 1)
    have atEnd' := before lock
    have beforeEnd' := agree (lock - 1)
    omega
  · rintro ⟨rfl, rfl⟩ n reached small
    exact before n (Nat.le_trans later reached) small

/-- The window the code computes, as a number. -/
theorem toNat_duration (l : SlLockout) (over' : UInt32) :
    (l.duration over').toNat =
      min l.capLockoutMs.toNat (l.baseLockoutMs.toNat * 2 ^ min over'.toNat 16) := by
  have shift : ((if over' < 16 then over' else 16).toUInt64).toNat = min over'.toNat 16 := by
    split
    next less =>
      have : over'.toNat < 16 := UInt32.lt_iff_toNat_lt.mp less
      rw [UInt32.toNat_toUInt64]
      omega
    next more =>
      have : ¬ over'.toNat < 16 := fun less => more (UInt32.lt_iff_toNat_lt.mpr less)
      rw [UInt32.toNat_toUInt64]
      change 16 = _
      omega
  have small : l.baseLockoutMs.toNat * 2 ^ min over'.toNat 16 < 2 ^ 64 := by
    calc l.baseLockoutMs.toNat * 2 ^ min over'.toNat 16
        ≤ l.baseLockoutMs.toNat * 2 ^ 16 :=
          Nat.mul_le_mul_left _ (Nat.pow_le_pow_right (by decide) (Nat.min_le_right _ _))
      _ < 2 ^ 64 := by
          have := l.baseLockoutMs.toNat_lt
          omega
  have shifted : (l.baseLockoutMs.toUInt64 <<<
      (if over' < 16 then over' else 16).toUInt64).toNat =
      l.baseLockoutMs.toNat * 2 ^ min over'.toNat 16 := by
    rw [UInt64.toNat_shiftLeft, shift, UInt32.toNat_toUInt64, Nat.shiftLeft_eq,
      Nat.mod_eq_of_lt (by omega : min over'.toNat 16 < 64), Nat.mod_eq_of_lt small]
  unfold duration
  simp only [gt_iff_lt, UInt64.lt_iff_toNat_lt, UInt32.toNat_toUInt64, shifted]
  split
  next more =>
    rw [UInt32.toNat_toUInt64]
    omega
  next less =>
    rw [shifted]
    omega

section Entry
variable (l : SlLockout) (key : Bytes)

theorem entry_modify {f : LockoutEntry → LockoutEntry} (keeps : ∀ e, (f e).key = e.key)
    (key' : Bytes) :
    (l.modify key f).entry key' = if key' = key then (l.entry key).map f else l.entry key' :=
  Chains.find_modify keeps l.buckets key'

theorem entry_create (key' : Bytes) :
    (l.create key).entry key' =
      if key' = key then some ((l.entry key).getD { key }) else l.entry key' :=
  Chains.find_ensure l.buckets { key } key'

theorem failed_key (nowMs : UInt64) (e : LockoutEntry) : (l.failed nowMs e).key = e.key := by
  unfold failed
  split <;> rfl

/-- A failure changes the entry of its key, which is made if missing, and nothing else. -/
theorem entry_fail (nowMs : UInt64) (key' : Bytes) :
    (l.slLockoutFail nowMs key).1.entry key' =
      if key' = key then some (l.failed nowMs ((l.entry key).getD { key })) else l.entry key' := by
  have found : (l.create key).entry key = some ((l.entry key).getD { key }) := by
    rw [entry_create, if_pos rfl]
  simp only [slLockoutFail, found]
  rw [entry_modify _ _ (failed_key _ nowMs), found, entry_create]
  split <;> rfl

theorem entry_succeed (key' : Bytes) :
    (l.slLockoutSucceed key).entry key' =
      if key' = key then (l.entry key).map cleared else l.entry key' := by
  cases found : l.entry key with
  | none =>
    simp only [slLockoutSucceed, found, Option.map_none]
    by_cases same : key' = key
    · rw [if_pos same, same, found]
    · rw [if_neg same]
  | some e =>
    simp only [slLockoutSucceed, found]
    rw [entry_modify l key (f := cleared) (fun _ => rfl), found]

end Entry

def failsOf (l : SlLockout) (key : Bytes) : Nat := (l.entry key).elim 0 (·.fails.toNat)

/-- When the lock of a key ends, zero if it has none. -/
def lockOf (l : SlLockout) (key : Bytes) : Nat := (l.entry key).elim 0 (·.lockedUntilMs.toNat)

theorem slLockoutCheck_iff (l : SlLockout) (nowMs : UInt64) (key : Bytes) :
    l.slLockoutCheck nowMs key = .blocked ↔ nowMs.toNat < lockOf l key := by
  unfold slLockoutCheck lockOf
  cases l.entry key with
  | none => simp
  | some e => simp [UInt64.lt_iff_toNat_lt]

theorem lockOf_lt (l : SlLockout) (key : Bytes) : lockOf l key < 2 ^ 64 := by
  unfold lockOf
  cases l.entry key with
  | none => decide
  | some e => exact e.lockedUntilMs.toNat_lt

/-- A failure in numbers: the 32-bit count, and the new end of the lock once it has reached the
threshold. -/
theorem fail_numbers (l : SlLockout) (nowMs : UInt64) (key : Bytes) :
    failsOf (l.slLockoutFail nowMs key).1 key = (failsOf l key + 1) % 2 ^ 32 ∧
    lockOf (l.slLockoutFail nowMs key).1 key =
      if l.failThreshold.toNat ≤ (failsOf l key + 1) % 2 ^ 32 then
        (nowMs.toNat + min l.capLockoutMs.toNat (l.baseLockoutMs.toNat *
          2 ^ min ((failsOf l key + 1) % 2 ^ 32 - l.failThreshold.toNat) 16)) % 2 ^ 64
      else lockOf l key := by
  have fails : ((l.entry key).getD { key }).fails.toNat = failsOf l key := by
    unfold failsOf
    cases l.entry key <;> rfl
  have lock : ((l.entry key).getD { key }).lockedUntilMs.toNat = lockOf l key := by
    unfold lockOf
    cases l.entry key <;> rfl
  have after : (l.slLockoutFail nowMs key).1.entry key =
      some (l.failed nowMs ((l.entry key).getD { key })) := by
    rw [entry_fail, if_pos rfl]
  generalize (l.entry key).getD { key } = e at fails lock after
  have count : (e.fails + 1).toNat = (failsOf l key + 1) % 2 ^ 32 := by
    rw [UInt32.toNat_add, fails]
    rfl
  rw [failsOf, lockOf, after, Option.elim_some, Option.elim_some, failed]
  by_cases reached : e.fails + 1 ≥ l.failThreshold
  · have less := UInt32.le_iff_toNat_le.mp reached
    rw [if_pos reached, if_pos (count ▸ less), UInt64.toNat_add, toNat_duration,
      UInt32.toNat_sub_of_le _ _ reached, count]
    exact ⟨rfl, rfl⟩
  · have more : ¬ l.failThreshold.toNat ≤ (failsOf l key + 1) % 2 ^ 32 :=
      fun less => reached (UInt32.le_iff_toNat_le.mpr (count ▸ less))
    rw [if_neg reached, if_neg more]
    exact ⟨count, lock⟩

def parameters (l : SlLockout) : UInt32 × UInt32 × UInt32 :=
  (l.baseLockoutMs, l.capLockoutMs, l.failThreshold)

theorem parameters_fail (l : SlLockout) (nowMs : UInt64) (key : Bytes) :
    parameters (l.slLockoutFail nowMs key).1 = parameters l := by
  simp only [slLockoutFail]
  split <;> rfl

theorem parameters_succeed (l : SlLockout) (key : Bytes) :
    parameters (l.slLockoutSucceed key) = parameters l := by
  simp only [slLockoutSucceed]
  split <;> rfl

theorem numbers_of_entry {l l' : SlLockout} {key : Bytes} (same : l'.entry key = l.entry key) :
    failsOf l' key = failsOf l key ∧ lockOf l' key = lockOf l key := by
  unfold failsOf lockOf
  rw [same]
  exact ⟨rfl, rfl⟩

theorem succeed_numbers (l : SlLockout) (key : Bytes) :
    failsOf (l.slLockoutSucceed key) key = 0 ∧ lockOf (l.slLockoutSucceed key) key = 0 := by
  unfold failsOf lockOf
  rw [entry_succeed, if_pos rfl]
  cases l.entry key <;> exact ⟨rfl, rfl⟩

/-- The parameters are in order, and the table holds for every key what its history says. -/
structure Follows (base cap threshold : UInt32) (w : Watched) : Prop where
  same : parameters w.lockout = (base, cap, threshold)
  positive : 0 < base.toNat
  ordered : base.toNat ≤ cap.toNat
  fails : ∀ key, failsOf w.lockout key = (w.history key).failures % 2 ^ 32
  free : ∀ key, (w.history key).failures < threshold.toNat → lockOf w.lockout key = 0
  past : ∀ key, (w.history key).last ≤ w.clock.toNat

section Steps
variable {base cap threshold : UInt32}

theorem kept_iff (w : Watched) :
    Kept base cap threshold w ↔ ∀ key n, w.clock.toNat ≤ n → n < 2 ^ 64 →
      (n < lockOf w.lockout key ↔ Locked base cap threshold (w.history key) n) := by
  constructor
  · intro kept key n later small
    have value : (UInt64.ofNat n).toNat = n := UInt64.toNat_ofNat_of_lt' small
    have answer := kept key (UInt64.ofNat n) (UInt64.le_iff_toNat_le.mpr (by omega))
    rwa [slLockoutCheck_iff, value] at answer
  · intro kept key nowMs later
    rw [slLockoutCheck_iff]
    exact kept key nowMs.toNat (UInt64.le_iff_toNat_le.mp later) nowMs.toNat_lt

variable {w : Watched} (h : Follows base cap threshold w)
include h

theorem Follows.window_pos (k : Nat) : 0 < window base cap threshold k := by
  have grown : 0 < base.toNat * 2 ^ (k - threshold.toNat) :=
    Nat.mul_pos h.positive (Nat.two_pow_pos _)
  have := h.positive
  have := h.ordered
  unfold window
  omega

theorem Follows.fail_numbers (nowMs : UInt64) (key : Bytes) :
    failsOf (w.lockout.slLockoutFail nowMs key).1 key =
        ((w.history key).failures + 1) % 2 ^ 32 ∧
    lockOf (w.lockout.slLockoutFail nowMs key).1 key =
      if threshold.toNat ≤ ((w.history key).failures + 1) % 2 ^ 32 then
        (nowMs.toNat + min cap.toNat (base.toNat *
          2 ^ min (((w.history key).failures + 1) % 2 ^ 32 - threshold.toNat) 16)) % 2 ^ 64
      else lockOf w.lockout key := by
  have numbers := LockoutPolicy.fail_numbers w.lockout nowMs key
  have count : (failsOf w.lockout key + 1) % 2 ^ 32 = ((w.history key).failures + 1) % 2 ^ 32 := by
    rw [h.fails, Nat.mod_add_mod]
  have same := h.same
  simp only [parameters, Prod.mk.injEq] at same
  rwa [count, same.1, same.2.1, same.2.2] at numbers

section Update
variable {l : SlLockout} {key : Bytes} {hist : History} {clock : UInt64}
  (others : ∀ key', key' ≠ key → l.entry key' = w.lockout.entry key') (later : w.clock ≤ clock)
include others later

/-- A call on one key: the invariant has to be checked for this key only. -/
theorem Follows.update (same : parameters l = parameters w.lockout)
    (fails : failsOf l key = hist.failures % 2 ^ 32)
    (free : hist.failures < threshold.toNat → lockOf l key = 0) (past : hist.last ≤ clock.toNat) :
    Follows base cap threshold ⟨l, Function.update w.history key hist, clock⟩ := by
  refine ⟨same.trans h.same, h.positive, h.ordered, ?_, ?_, ?_⟩
  · apply (Function.forall_update_iff w.history
      (fun key' hist => failsOf l key' = hist.failures % 2 ^ 32)).mpr
    refine ⟨fails, fun key' other => ?_⟩
    rw [(numbers_of_entry (others key' other)).1]
    exact h.fails key'
  · apply (Function.forall_update_iff w.history
      (fun key' hist => hist.failures < threshold.toNat → lockOf l key' = 0)).mpr
    refine ⟨free, fun key' other => ?_⟩
    rw [(numbers_of_entry (others key' other)).2]
    exact h.free key'
  · apply (Function.forall_update_iff w.history (fun _ hist => hist.last ≤ clock.toNat)).mpr
    exact ⟨past, fun key' _ => Nat.le_trans (h.past key') (UInt64.le_iff_toNat_le.mp later)⟩

omit h in
/-- And so has the policy. -/
theorem kept_update (kept : Kept base cap threshold w) :
    Kept base cap threshold ⟨l, Function.update w.history key hist, clock⟩ ↔
      ∀ n, clock.toNat ≤ n → n < 2 ^ 64 →
        (n < lockOf l key ↔ Locked base cap threshold hist n) := by
  rw [kept_iff] at kept ⊢
  have now := UInt64.le_iff_toNat_le.mp later
  apply (Function.forall_update_iff w.history (fun key' hist => ∀ n, clock.toNat ≤ n → n < 2 ^ 64 →
    (n < lockOf l key' ↔ Locked base cap threshold hist n))).trans
  apply and_iff_left
  intro key' other n reached small
  rw [(numbers_of_entry (others key' other)).2]
  exact kept key' n (Nat.le_trans now reached) small

end Update

theorem Follows.step {call : LockCall} (forward : Forward w call) :
    Follows base cap threshold (lockStep w call).1 := by
  cases call with
  | check nowMs key =>
    have later := UInt64.le_iff_toNat_le.mp forward
    exact ⟨h.same, h.positive, h.ordered, h.fails, h.free,
      fun key => Nat.le_trans (h.past key) later⟩
  | succeed key =>
    have numbers := succeed_numbers w.lockout key
    exact h.update (fun key' other => by rw [entry_succeed, if_neg other]) (UInt64.le_refl _)
      (parameters_succeed _ key) numbers.1 (fun _ => numbers.2) (Nat.zero_le _)
  | fail nowMs key =>
    have numbers := h.fail_numbers nowMs key
    refine h.update (fun key' other => by rw [entry_fail, if_neg other]) forward
      (parameters_fail _ nowMs key) numbers.1 ?_ (Nat.le_refl _)
    intro below
    simp only at below
    -- below the threshold the count has not wrapped
    have cap := threshold.toNat_lt
    rw [numbers.2, Nat.mod_eq_of_lt (by omega), if_neg (by omega)]
    exact h.free key (by omega)

/-- A failure keeps the policy exactly if none of the limits of the code shows. -/
theorem kept_fail (kept : Kept base cap threshold w) (nowMs : UInt64) (key : Bytes)
    (forward : w.clock ≤ nowMs) :
    Kept base cap threshold (lockStep w (.fail nowMs key)).1 ↔
      Faithful base cap threshold w (.fail nowMs key) := by
  have others : ∀ key', key' ≠ key →
      (w.lockout.slLockoutFail nowMs key).1.entry key' = w.lockout.entry key' :=
    fun key' other => by rw [entry_fail, if_neg other]
  refine (kept_update others forward kept).trans ?_
  rw [(h.fail_numbers nowMs key).2]
  have now := UInt64.le_iff_toNat_le.mp forward
  have small := nowMs.toNat_lt
  have capThreshold := threshold.toNat_lt
  have bounded : window base cap threshold ((w.history key).failures + 1) < 2 ^ 32 :=
    Nat.lt_of_le_of_lt (Nat.min_le_left _ _) cap.toNat_lt
  have positive := h.window_pos ((w.history key).failures + 1)
  have free := h.free key
  have past := h.past key
  simp only [Faithful]
  generalize counted : (w.history key).failures + 1 = k at bounded positive
  by_cases below : k < threshold.toNat
  · -- not locked yet: the count has not wrapped and the lock is still zero
    rw [Nat.mod_eq_of_lt (by omega), if_neg (by omega), free (by omega)]
    refine iff_of_true ?_ (fun reached => absurd below (Nat.not_lt.mpr reached))
    intro n _ _
    simp only [Locked]
    omega
  · have reached : threshold.toNat ≤ k := Nat.not_lt.mp below
    have locked : ∀ n, Locked base cap threshold { failures := k, last := nowMs.toNat } n ↔
        n < nowMs.toNat + window base cap threshold k := fun n => and_iff_right reached
    have le : k % 2 ^ 32 ≤ k := Nat.mod_le _ _
    simp only [locked, reached, forall_const]
    by_cases counts : threshold.toNat ≤ k % 2 ^ 32
    · have fewer : min (k % 2 ^ 32 - threshold.toNat) 16 ≤ k - threshold.toNat := by omega
      have short : min cap.toNat (base.toNat * 2 ^ min (k % 2 ^ 32 - threshold.toNat) 16) ≤
          window base cap threshold k :=
        doubled_mono _ _ fewer
      rw [if_pos counts, lock_set_iff short bounded positive small, eq_comm, window,
        doubled_eq_iff h.positive fewer]
      simp only [counts, true_and, Nat.not_lt.mpr counts, false_and, or_false]
    · -- the count has wrapped, and the lock of the failure before stays
      have failures : (w.history key).failures = k - 1 := by omega
      have before : ∀ n, w.clock.toNat ≤ n → n < 2 ^ 64 → (n < lockOf w.lockout key ↔
          n < (w.history key).last + window base cap threshold (k - 1)) := by
        intro n atLeast inRange
        rw [(kept_iff w).mp kept key n atLeast inRange, Locked, failures]
        exact and_iff_right (by omega)
      have fewer : k - 1 - threshold.toNat ≤ k - threshold.toNat := by omega
      have grows : window base cap threshold (k - 1) ≤ window base cap threshold k :=
        doubled_mono _ _ fewer
      have differ : ¬ k - threshold.toNat = k - 1 - threshold.toNat := by omega
      rw [if_neg counts, lock_left_iff (Nat.le_trans past now) now grows positive small
        (lockOf_lt _ _) before, window, window, doubled_eq_iff h.positive fewer]
      simp only [counts, false_and, Nat.not_le.mp counts, true_and, differ, false_or]

theorem kept_step (kept : Kept base cap threshold w) {call : LockCall} (positive : 0 < threshold.toNat)
    (forward : Forward w call) :
    Kept base cap threshold (lockStep w call).1 ↔ Faithful base cap threshold w call := by
  cases call with
  | fail nowMs key => exact kept_fail h kept nowMs key forward
  | succeed key =>
    refine iff_of_true ?_ trivial
    have others : ∀ key', key' ≠ key →
        (w.lockout.slLockoutSucceed key).entry key' = w.lockout.entry key' :=
      fun key' other => by rw [entry_succeed, if_neg other]
    refine (kept_update others (UInt64.le_refl _) kept).mpr ?_
    intro n _ _
    rw [(succeed_numbers w.lockout key).2]
    exact iff_of_false (Nat.not_lt_zero n) (fun locked => absurd locked.1 (Nat.not_le.mpr positive))
  | check nowMs key =>
    refine iff_of_true ?_ trivial
    intro key' now later
    exact kept key' now (UInt64.le_trans forward later)

end Steps

def LockCall.key : LockCall → Bytes
  | .fail _ key => key
  | .succeed key => key
  | .check _ key => key

theorem failed_congr {l l' : SlLockout} (same : parameters l = parameters l') :
    l.failed = l'.failed := by
  simp only [parameters, Prod.mk.injEq] at same
  funext nowMs e
  simp only [failed, duration, same.1, same.2.1, same.2.2]

theorem parameters_step (w : Watched) (call : LockCall) :
    parameters (lockStep w call).1.lockout = parameters w.lockout := by
  cases call with
  | fail nowMs key => exact parameters_fail _ nowMs key
  | succeed key => exact parameters_succeed _ key
  | check nowMs key => rfl

theorem entry_step_other (w : Watched) {call : LockCall} {key : Bytes} (other : call.key ≠ key) :
    (lockStep w call).1.lockout.entry key = w.lockout.entry key := by
  cases call with
  | fail nowMs key' => exact (entry_fail _ _ _ key).trans (if_neg (Ne.symm other))
  | succeed key' => exact (entry_succeed _ _ key).trans (if_neg (Ne.symm other))
  | check nowMs key' => rfl

theorem entry_step_same {w w' : Watched} (same : parameters w.lockout = parameters w'.lockout)
    (call : LockCall) (entry : w.lockout.entry call.key = w'.lockout.entry call.key) :
    (lockStep w call).1.lockout.entry call.key = (lockStep w' call).1.lockout.entry call.key := by
  cases call with
  | fail nowMs key =>
    simp only [LockCall.key] at entry
    simp only [lockStep, LockCall.key, entry_fail, if_true, entry, failed_congr same]
  | succeed key =>
    simp only [LockCall.key] at entry
    simp only [lockStep, LockCall.key, entry_succeed, if_true, entry]
  | check nowMs key => exact entry

/-- Only the calls on a key matter for its entry. -/
theorem entry_run_filter {w w' : Watched} (same : parameters w.lockout = parameters w'.lockout)
    {key : Bytes} (entry : w.lockout.entry key = w'.lockout.entry key) (calls : List LockCall) :
    (run lockStep w calls).lockout.entry key =
      (run lockStep w' (calls.filter (·.key = key))).lockout.entry key := by
  induction calls generalizing w w' with
  | nil => exact entry
  | cons call rest ih =>
    by_cases here : call.key = key
    · subst here
      rw [List.filter_cons_of_pos (by simp), run_cons, run_cons]
      apply ih
      · rw [parameters_step, parameters_step, same]
      · exact entry_step_same same call entry
    · rw [List.filter_cons_of_neg (by simpa using here), run_cons]
      apply ih
      · rw [parameters_step, same]
      · rw [entry_step_other w here, entry]

/-- Along any calls at nondecreasing times on a new table every check is answered as the policy says
exactly if no failure makes a limit of the code show; and never do calls on other keys matter. -/
theorem lockout_policy_iff (base cap threshold : UInt32) (l : SlLockout)
    (created : slLockoutNew base cap threshold = some l) (calls : List LockCall)
    (forward : AllSteps lockStep Forward { lockout := l } calls) :
    (AllSteps lockStep (fun w call => Kept base cap threshold (lockStep w call).1) { lockout := l }
        calls ↔
      AllSteps lockStep (Faithful base cap threshold) { lockout := l } calls) ∧
    ∀ key nowMs, (run lockStep { lockout := l } calls).lockout.slLockoutCheck nowMs key =
      (run lockStep { lockout := l }
        (calls.filter (·.key = key))).lockout.slLockoutCheck nowMs key := by
  constructor
  · unfold slLockoutNew at created
    split at created
    next => cases created
    next valid =>
      simp only [not_or, UInt32.not_lt] at valid
      obtain ⟨some_base, ordered, some_threshold⟩ := valid
      have positive : 0 < threshold.toNat :=
        Nat.pos_of_ne_zero (fun zero => some_threshold (UInt32.toNat_inj.mp zero))
      cases created
      refine forward.safe_iff (Follows base cap threshold) (Kept base cap threshold)
        (fun w call h forward => h.step forward)
        (fun w call h forward kept => kept_step h kept positive forward) ?_ ?_
      · exact ⟨rfl, Nat.pos_of_ne_zero (fun zero => some_base (UInt32.toNat_inj.mp zero)),
          UInt32.le_iff_toNat_le.mp ordered, fun _ => rfl, fun _ _ => rfl, fun _ => Nat.zero_le _⟩
      · intro key nowMs _
        exact iff_of_false (by simp [slLockoutCheck, entry, findEntry, Chains.find])
          (fun locked => absurd locked.1 (Nat.not_le.mpr positive))
  · intro key nowMs
    have same : (run lockStep { lockout := l } calls).lockout.entry key =
        (run lockStep { lockout := l } (calls.filter (·.key = key))).lockout.entry key :=
      entry_run_filter rfl rfl calls
    unfold slLockoutCheck
    rw [same]

/-- Locked for a second from the second failure on. -/
def toyLockout : SlLockout := { baseLockoutMs := 1000, capLockoutMs := 60000, failThreshold := 2 }

theorem lockout_policy_toy :
    AllSteps lockStep (fun w call => Kept 1000 60000 2 (lockStep w call).1) { lockout := toyLockout }
      [.fail 10 (ascii "eve"), .fail 20 (ascii "bob"), .fail 30 (ascii "eve"),
        .check 1029 (ascii "eve"), .succeed (ascii "eve")] :=
  ((lockout_policy_iff 1000 60000 2 toyLockout rfl _ (by decide +kernel)).1).mpr (by decide +kernel)

/-- Eighteen failures with a threshold of one, a base of one millisecond and a cap far away: the
window should be 2^17 milliseconds and is 2^16. -/
theorem window_stops_doubling :
    let w := run lockStep
      { lockout := { baseLockoutMs := 1, capLockoutMs := 1000000, failThreshold := 1 } }
      (List.replicate 18 (.fail 0 (ascii "eve")))
    Locked 1 1000000 1 (w.history (ascii "eve")) 65536 ∧
    w.lockout.slLockoutCheck 65536 (ascii "eve") = .allow := by
  decide +kernel

end SecureLink.Guarantees.LockoutPolicy
