import Mathlib.Tactic.Ring
import SecureLink.Library.Runs
import SecureLink.Source.Limits.TokenBucket

/-!
# What the token bucket grants under rate changes

Beside the bucket run the bytes granted and the credit: the sum of rate times duration over
the periods between rate changes. Time that is not worth a token stays uncharged, and after
a change of the rate it is charged at the new one. The bound holds over every run exactly
if the rate is only raised when no time is uncharged, or enough to be charged first.
-/
namespace SecureLink.Guarantees.ThrottleBound
open Library.Runs Source.Limits Source.Limits.SlTokenBucket

inductive BucketCall where
  | tryTake (now bytes : UInt64)
  | waitMs (now bytes : UInt64)
  | setRate (now rateBps : UInt64)

def BucketCall.now : BucketCall → UInt64
  | .tryTake now _ => now
  | .waitMs now _ => now
  | .setRate now _ => now

/-- The bucket, the bytes granted, the credit in bytes times 10^6, and the time of the last call. -/
structure Throttled where
  bucket : SlTokenBucket
  granted : Nat := 0
  credit : Nat := 0
  clock : UInt64

/-- The time since the last call counts at the rate that was configured during it. -/
def Throttled.creditAt (t : Throttled) (now : UInt64) : Nat :=
  t.credit + t.bucket.rateBps.toNat * (now.toNat - t.clock.toNat)

def bucketStep (t : Throttled) : BucketCall → Throttled × Int
  | .tryTake now bytes =>
    let result := t.bucket.slTokenBucketTryTake now bytes
    ({ bucket := result.1
       granted := if result.2 = 0 then t.granted + bytes.toNat else t.granted
       credit := t.creditAt now
       clock := now }, result.2)
  | .waitMs now bytes =>
    let result := t.bucket.slTokenBucketWaitMs now bytes
    ({ t with bucket := result.1, credit := t.creditAt now, clock := now }, result.2.toNat)
  | .setRate now rateBps =>
    ({ t with
       bucket := t.bucket.slTokenBucketSetRate now rateBps
       credit := t.creditAt now
       clock := now }, 0)

/-- The time since the last refill. -/
def uncharged (tb : SlTokenBucket) (now : UInt64) : Nat := now.toNat - tb.lastRefillUs.toNat

/-- The clock does not go back, and no product or sum of the refill leaves 64 bits. -/
def InRange (t : Throttled) (call : BucketCall) : Prop :=
  t.clock ≤ call.now ∧
  (t.bucket.lastRefillUs ≠ 0 →
    t.bucket.rateBps.toNat * uncharged t.bucket call.now < 2 ^ 64 ∧
    t.bucket.tokens.toNat +
      t.bucket.rateBps.toNat * uncharged t.bucket call.now / 1000000 < 2 ^ 64)

/-- Rates are changed, from one to another with some time uncharged, only as allowed. -/
def ChangesRate (allowed : UInt64 → Nat → UInt64 → Prop) (t : Throttled) : BucketCall → Prop
  | .tryTake _ _ => True
  | .waitMs _ _ => True
  | .setRate now rateBps => t.bucket.lastRefillUs ≠ 0 →
      allowed t.bucket.rateBps (uncharged t.bucket now) rateBps

/-- A new bucket at the start of a run. -/
def fresh (capacity rate start : UInt64) : Throttled :=
  { bucket := slTokenBucketInit capacity rate, clock := start }

/-- The bytes granted are within the capacity and the credit. -/
def Bounded (capacity : UInt64) (t : Throttled) : Prop :=
  1000000 * t.granted ≤ 1000000 * capacity.toNat + t.credit

instance (capacity : UInt64) (t : Throttled) : Decidable (Bounded capacity t) :=
  inferInstanceAs (Decidable (_ ≤ _))

/-- What a refill in range does: the first one starts the clock of the bucket, later ones charge
the time that is worth a token. -/
theorem refill_cases (tb : SlTokenBucket) (now : UInt64)
    (fits : tb.lastRefillUs ≠ 0 → tb.rateBps.toNat * uncharged tb now < 2 ^ 64 ∧
      tb.tokens.toNat + tb.rateBps.toNat * uncharged tb now / 1000000 < 2 ^ 64) :
    (tb.refill now).rateBps = tb.rateBps ∧ (tb.refill now).capacityBytes = tb.capacityBytes ∧
    ((tb.lastRefillUs = 0 ∧ (tb.refill now).tokens = tb.tokens ∧
        (tb.refill now).lastRefillUs = now) ∨
      (tb.lastRefillUs ≠ 0 ∧ tb.rateBps.toNat * uncharged tb now < 1000000 ∧
        tb.refill now = tb) ∨
      (tb.lastRefillUs ≠ 0 ∧ 1000000 ≤ tb.rateBps.toNat * uncharged tb now ∧
        (tb.refill now).lastRefillUs = now ∧
        (tb.refill now).tokens.toNat = min tb.capacityBytes.toNat
          (tb.tokens.toNat + tb.rateBps.toNat * uncharged tb now / 1000000))) := by
  by_cases unset : tb.lastRefillUs = 0
  · simp only [refill, if_pos unset]
    exact ⟨trivial, trivial, Or.inl ⟨unset, trivial, trivial⟩⟩
  · by_cases early : now ≤ tb.lastRefillUs
    · have charged : uncharged tb now = 0 := Nat.sub_eq_zero_of_le (UInt64.le_iff_toNat_le.mp early)
      simp only [refill, if_neg unset, if_pos early]
      exact ⟨trivial, trivial, Or.inr (Or.inl ⟨unset, by rw [charged, Nat.mul_zero]; decide, trivial⟩)⟩
    · obtain ⟨product, sum⟩ := fits unset
      have elapsed : (now - tb.lastRefillUs).toNat = uncharged tb now :=
        UInt64.toNat_sub_of_le _ _ (UInt64.le_of_lt (UInt64.not_le.mp early))
      have added : (tb.rateBps * (now - tb.lastRefillUs) / 1000000).toNat =
          tb.rateBps.toNat * uncharged tb now / 1000000 := by
        rw [UInt64.toNat_div, UInt64.toNat_mul, elapsed, Nat.mod_eq_of_lt product]
        rfl
      by_cases zero : tb.rateBps * (now - tb.lastRefillUs) / 1000000 = 0
      · have small : tb.rateBps.toNat * uncharged tb now / 1000000 = 0 := by
          rw [← added, zero]
          rfl
        simp only [refill, if_neg unset, if_neg early, if_pos zero]
        exact ⟨trivial, trivial, Or.inr (Or.inl ⟨unset, by omega, trivial⟩)⟩
      · have large : tb.rateBps.toNat * uncharged tb now / 1000000 ≠ 0 := by
          rw [← added]
          exact fun same => zero (UInt64.toNat_inj.mp same)
        have total : (tb.tokens + tb.rateBps * (now - tb.lastRefillUs) / 1000000).toNat =
            tb.tokens.toNat + tb.rateBps.toNat * uncharged tb now / 1000000 := by
          rw [UInt64.toNat_add, added, Nat.mod_eq_of_lt sum]
        simp only [refill, if_neg unset, if_neg early, if_neg zero]
        refine ⟨trivial, trivial, Or.inr (Or.inr ⟨unset, by omega, trivial, ?_⟩)⟩
        split
        next over' =>
          have := UInt64.lt_iff_toNat_lt.mp over'
          omega
        next within =>
          have : ¬ tb.capacityBytes.toNat < _ := fun less => within (UInt64.lt_iff_toNat_lt.mpr less)
          omega

/-- The bytes granted, the tokens left and the time not yet charged are within the capacity and the
credit. Time that is worth 2^64 or more can never be charged in range. -/
structure Account (capacity : UInt64) (t : Throttled) : Prop where
  past : t.bucket.lastRefillUs ≤ t.clock
  running : 0 < t.clock.toNat
  held : 1000000 * (t.granted + t.bucket.tokens.toNat) ≤ 1000000 * capacity.toNat + t.credit
  charged : t.bucket.lastRefillUs ≠ 0 →
    t.bucket.rateBps.toNat * uncharged t.bucket t.clock < 2 ^ 64 →
    1000000 * (t.granted + t.bucket.tokens.toNat) +
      t.bucket.rateBps.toNat * uncharged t.bucket t.clock ≤
        1000000 * capacity.toNat + t.credit

/-- With no time uncharged the tokens are all there is to account for. -/
theorem Account.of_charged {capacity : UInt64} {t : Throttled} (running : 0 < t.clock.toNat)
    (last : t.bucket.lastRefillUs = t.clock)
    (held : 1000000 * (t.granted + t.bucket.tokens.toNat) ≤ 1000000 * capacity.toNat + t.credit) :
    Account capacity t := by
  have charged : uncharged t.bucket t.clock = 0 := by rw [uncharged, last, Nat.sub_self]
  refine ⟨by rw [last]; exact UInt64.le_refl _, running, held, ?_⟩
  intro _ _
  rw [charged]
  exact held

/-- The time of a call has come. -/
def Throttled.at (t : Throttled) (now : UInt64) : Throttled :=
  { t with credit := t.creditAt now, clock := now }

section Steps
variable {capacity : UInt64} {t : Throttled} (h : Account capacity t) {now : UInt64}
include h

theorem Account.at (later : t.clock ≤ now) : Account capacity (t.at now) := by
  have order := UInt64.le_iff_toNat_le.mp later
  have past := UInt64.le_iff_toNat_le.mp h.past
  have running := h.running
  have held := h.held
  refine ⟨UInt64.le_trans h.past later, ?_, ?_, ?_⟩
  · simp only [Throttled.at]
    omega
  · simp only [Throttled.at, Throttled.creditAt]
    omega
  · intro isSet fits
    simp only [Throttled.at, Throttled.creditAt] at fits ⊢
    have longer : uncharged t.bucket now =
        uncharged t.bucket t.clock + (now.toNat - t.clock.toNat) := by
      unfold uncharged
      omega
    rw [longer, Nat.mul_add t.bucket.rateBps.toNat] at fits ⊢
    have charged := h.charged isSet (by omega)
    omega

/-- A refill at the time of the call. -/
theorem Account.refill (fits : t.bucket.lastRefillUs ≠ 0 →
      t.bucket.rateBps.toNat * uncharged t.bucket t.clock < 2 ^ 64 ∧
      t.bucket.tokens.toNat + t.bucket.rateBps.toNat * uncharged t.bucket t.clock / 1000000 <
        2 ^ 64) :
    Account capacity { t with bucket := t.bucket.refill t.clock } := by
  have held := h.held
  obtain ⟨_, _, cases⟩ := refill_cases t.bucket t.clock fits
  rcases cases with ⟨_, tokens, last⟩ | ⟨_, _, same⟩ | ⟨isSet, _, last, tokens⟩
  · refine .of_charged h.running last ?_
    simp only
    rw [tokens]
    exact held
  · rw [same]
    exact h
  · have charged := h.charged isSet (fits isSet).1
    refine .of_charged h.running last ?_
    simp only
    rw [tokens]
    omega

theorem Account.take {bytes : UInt64} (enough : bytes ≤ t.bucket.tokens) :
    Account capacity { t with
      bucket := { t.bucket with tokens := t.bucket.tokens - bytes }
      granted := t.granted + bytes.toNat } := by
  have less := UInt64.le_iff_toNat_le.mp enough
  have tokens : (t.bucket.tokens - bytes).toNat = t.bucket.tokens.toNat - bytes.toNat :=
    UInt64.toNat_sub_of_le _ _ enough
  have same : t.granted + bytes.toNat + (t.bucket.tokens - bytes).toNat =
      t.granted + t.bucket.tokens.toNat := by omega
  refine ⟨h.past, h.running, ?_, ?_⟩
  · simp only
    rw [same]
    exact h.held
  · simp only
    rw [same]
    exact h.charged

/-- A rate that does not charge more for the time uncharged. -/
theorem Account.setRate {rate' : UInt64} (inRange : t.bucket.lastRefillUs ≠ 0 →
      t.bucket.rateBps.toNat * uncharged t.bucket t.clock < 2 ^ 64)
    (cheaper : t.bucket.lastRefillUs ≠ 0 → rate'.toNat * uncharged t.bucket t.clock < 2 ^ 64 →
      rate'.toNat * uncharged t.bucket t.clock ≤
        t.bucket.rateBps.toNat * uncharged t.bucket t.clock) :
    Account capacity { t with bucket := { t.bucket with rateBps := rate' } } := by
  refine ⟨h.past, h.running, h.held, ?_⟩
  intro isSet small
  have less : rate'.toNat * uncharged t.bucket t.clock ≤ _ := cheaper isSet small
  have charged := h.charged isSet (inRange isSet)
  simp only [uncharged] at less charged ⊢
  omega

end Steps

/-- Raising a rate is harmless when no time is uncharged, or so much that it is charged first. -/
def Harmless (rate : UInt64) (idle : Nat) (rate' : UInt64) : Prop :=
  rate'.toNat ≤ rate.toNat ∨ idle = 0 ∨ 1000000 ≤ rate.toNat * idle

theorem Account.step {capacity : UInt64} {t : Throttled} (h : Account capacity t)
    {allowed : UInt64 → Nat → UInt64 → Prop}
    (harmless : ∀ rate idle rate', idle + 1 < 2 ^ 64 → rate'.toNat * idle < 2 ^ 64 →
      allowed rate idle rate' → Harmless rate idle rate')
    {call : BucketCall} (inRange : InRange t call) (changes : ChangesRate allowed t call) :
    Account capacity (bucketStep t call).1 := by
  obtain ⟨later, fits⟩ := inRange
  have now := h.at later
  cases call with
  | tryTake nowUs bytes =>
    have refilled := now.refill fits
    simp only [bucketStep, slTokenBucketTryTake]
    split
    next => exact refilled
    next enough => exact refilled.take (UInt64.not_lt.mp enough)
  | waitMs nowUs bytes =>
    simp only [bucketStep, slTokenBucketWaitMs]
    split
    next => exact now
    next =>
      split
      next => exact now.refill fits
      next => exact now.refill fits
  | setRate nowUs rateBps =>
    have refilled := now.refill fits
    obtain ⟨_, _, cases⟩ := refill_cases t.bucket nowUs fits
    rcases cases with ⟨_, _, last⟩ | ⟨isSet, small, same⟩ | ⟨_, _, last, _⟩
    · exact .of_charged refilled.running last refilled.held
    · -- the time stays uncharged, and counts at the new rate from now on
      have positive : 0 < t.bucket.lastRefillUs.toNat :=
        Nat.pos_of_ne_zero (fun zero => isSet (UInt64.toNat_inj.mp zero))
      have idle : uncharged t.bucket nowUs + 1 < 2 ^ 64 := by
        have bound := nowUs.toNat_lt
        unfold uncharged
        omega
      simp only [bucketStep, slTokenBucketSetRate, same]
      refine now.setRate (fun _ => (fits isSet).1) (fun _ product => ?_)
      rcases harmless _ _ _ idle product (changes isSet) with lower | charged | enough
      · exact Nat.mul_le_mul_right _ lower
      · have zero : uncharged (t.at nowUs).bucket (t.at nowUs).clock = 0 := charged
        simp only [BucketCall.now, zero, Nat.mul_zero, Nat.le_refl]
      · omega
    · exact .of_charged refilled.running last refilled.held

/-- An empty bucket at the first microsecond, and one whose rate was changed since. -/
def drained (amount rate : UInt64) (granted credit : Nat) (clock : UInt64) : Throttled where
  bucket := { capacityBytes := amount, rateBps := rate, tokens := 0, lastRefillUs := 1 }
  granted := granted
  credit := credit
  clock := clock

/-- Drain the bucket, change the rate, and drain it again. -/
def overdraft (amount rate' changed again : UInt64) : List BucketCall :=
  [.tryTake 1 amount, .setRate changed rate', .tryTake again amount]

section Overdraft
variable {amount rate rate' changed again : UInt64}

theorem fresh_take :
    (bucketStep (fresh amount rate 1) (.tryTake 1 amount)).1 =
      drained amount rate amount.toNat 0 1 := by
  simp [bucketStep, fresh, slTokenBucketInit, slTokenBucketTryTake, refill, Throttled.creditAt,
    drained]

theorem drained_inRange {granted credit : Nat} {clock : UInt64} {call : BucketCall}
    (later : clock ≤ call.now) (product : rate.toNat * (call.now.toNat - 1) < 2 ^ 64) :
    InRange (drained amount rate granted credit clock) call := by
  refine ⟨later, fun _ => ⟨product, ?_⟩⟩
  have zero : (drained amount rate granted credit clock).bucket.tokens.toNat = 0 := rfl
  rw [zero, Nat.zero_add]
  exact Nat.lt_of_le_of_lt (Nat.div_le_self _ _) product

/-- The time before the change is not worth a token and stays uncharged. -/
theorem drained_setRate (idle : rate.toNat * (changed.toNat - 1) < 1000000) (later : 1 ≤ changed) :
    (bucketStep (drained amount rate amount.toNat 0 1) (.setRate changed rate')).1 =
      drained amount rate' amount.toNat (rate.toNat * (changed.toNat - 1)) changed := by
  have inRange : InRange (drained amount rate amount.toNat 0 1) (.setRate changed rate') :=
    drained_inRange later (Nat.lt_trans idle (by decide))
  obtain ⟨_, _, cases⟩ := refill_cases _ changed inRange.2
  rcases cases with ⟨unset, _⟩ | ⟨_, _, same⟩ | ⟨_, large, _⟩
  · exact absurd unset (by simp [drained])
  · simp only [bucketStep, slTokenBucketSetRate, same, Throttled.creditAt]
    simp [drained]
  · exact absurd idle (Nat.not_lt.mpr large)

/-- At the new rate it is worth as much as the bucket holds. -/
theorem drained_take (credit : Nat) (later : changed ≤ again)
    (product : rate'.toNat * (again.toNat - 1) < 2 ^ 64)
    (worth : amount.toNat = rate'.toNat * (again.toNat - 1) / 1000000) (positive : 0 < amount.toNat) :
    (bucketStep (drained amount rate' amount.toNat credit changed) (.tryTake again amount)).1.granted =
      2 * amount.toNat := by
  have inRange : InRange (drained amount rate' amount.toNat credit changed) (.tryTake again amount) :=
    drained_inRange later product
  obtain ⟨_, _, cases⟩ := refill_cases _ again inRange.2
  rcases cases with ⟨unset, _⟩ | ⟨_, small, _⟩ | ⟨_, _, _, tokens⟩
  · exact absurd unset (by simp [drained])
  · have small' : rate'.toNat * (again.toNat - 1) < 1000000 := small
    omega
  · have full : ((drained amount rate' amount.toNat credit changed).bucket.refill again).tokens.toNat =
        amount.toNat := by
      refine tokens.trans ?_
      change min amount.toNat (0 + rate'.toNat * (again.toNat - 1) / 1000000) = amount.toNat
      omega
    have enough : ¬ ((drained amount rate' amount.toNat credit changed).bucket.refill again).tokens <
        amount := by
      rw [UInt64.lt_iff_toNat_lt, full]
      exact Nat.lt_irrefl _
    simp only [bucketStep, slTokenBucketTryTake, if_neg enough, if_true]
    simp only [drained]
    omega

/-- The bound over every run in range in which the rate is changed only as allowed. -/
def BoundedUnder (allowed : UInt64 → Nat → UInt64 → Prop) : Prop :=
  ∀ (capacity rate start : UInt64) (calls : List BucketCall), 0 < start →
    AllSteps bucketStep InRange (fresh capacity rate start) calls →
    AllSteps bucketStep (ChangesRate allowed) (fresh capacity rate start) calls →
    Bounded capacity (run bucketStep (fresh capacity rate start) calls)

/-- A bucket drained before and after a change of the rate: in range, and over the bound if the
time before the change is charged at a higher rate. -/
theorem overdraft_bounded (amount changed again : UInt64) {allowed : UInt64 → Nat → UInt64 → Prop}
    (bounded : BoundedUnder allowed)
    (idle : rate.toNat * (changed.toNat - 1) < 1000000) (started : 1 ≤ changed)
    (later : changed ≤ again) (product : rate'.toNat * (again.toNat - 1) < 2 ^ 64)
    (worth : amount.toNat = rate'.toNat * (again.toNat - 1) / 1000000) (positive : 0 < amount.toNat)
    (isAllowed : allowed rate (changed.toNat - 1) rate') :
    1000000 * amount.toNat ≤
      rate.toNat * (changed.toNat - 1) + rate'.toNat * (again.toNat - changed.toNat) := by
  have bound := bounded amount rate 1 (overdraft amount rate' changed again) (by decide) ?_ ?_
  · rw [overdraft, run_cons, fresh_take, run_cons, drained_setRate idle started, run_cons,
      run_nil] at bound
    have granted := drained_take (rate.toNat * (changed.toNat - 1)) later product worth
      positive
    unfold Bounded at bound
    rw [granted] at bound
    simp only [bucketStep, Throttled.creditAt, drained] at bound
    omega
  · refine ⟨⟨UInt64.le_refl _, fun isSet => absurd rfl isSet⟩, ?_⟩
    rw [fresh_take]
    refine ⟨drained_inRange started (Nat.lt_trans idle (by decide)), ?_⟩
    rw [drained_setRate idle started]
    exact ⟨drained_inRange later product, trivial⟩
  · refine ⟨trivial, ?_⟩
    rw [fresh_take]
    exact ⟨fun _ => isAllowed, trivial, trivial⟩

end Overdraft

/-- A change that is not harmless lets a bucket be overdrawn, at once or after a second in all. -/
theorem harmless_of_bounded {allowed : UInt64 → Nat → UInt64 → Prop} (bounded : BoundedUnder allowed)
    (rate : UInt64) (idle : Nat) (rate' : UInt64) (short : idle + 1 < 2 ^ 64)
    (product : rate'.toNat * idle < 2 ^ 64) (isAllowed : allowed rate idle rate') :
    Harmless rate idle rate' := by
  by_contra harmful
  simp only [Harmless, not_or, Nat.not_le] at harmful
  obtain ⟨raised, some_time, small⟩ := harmful
  have time : (UInt64.ofNat (idle + 1)).toNat = idle + 1 := UInt64.toNat_ofNat_of_lt' short
  have span : (UInt64.ofNat (idle + 1)).toNat - 1 = idle := by rw [time, Nat.add_sub_cancel]
  have started : 1 ≤ UInt64.ofNat (idle + 1) := by
    rw [UInt64.le_iff_toNat_le, time]
    exact Nat.le_add_left _ _
  by_cases worth : 1000000 ≤ rate'.toNat * idle
  · -- the uncharged time is worth something at the new rate
    have fits : rate'.toNat * idle / 1000000 < 2 ^ 64 := by omega
    have amount := UInt64.toNat_ofNat_of_lt' fits
    have bound := overdraft_bounded (UInt64.ofNat (rate'.toNat * idle / 1000000))
      (UInt64.ofNat (idle + 1)) (UInt64.ofNat (idle + 1)) bounded (by rw [span]; exact small) started
      (UInt64.le_refl _) (by rw [span]; exact product) (by rw [span]; exact amount)
      (by rw [amount]; omega) (by rw [span]; exact isAllowed)
    rw [span, amount, Nat.sub_self] at bound
    omega
  · -- the rest of the second makes it worth a second at the new rate
    have less : 1 * idle ≤ rate'.toNat * idle := Nat.mul_le_mul_right _ (by omega)
    have rates : rate'.toNat * 1 ≤ rate'.toNat * idle := Nat.mul_le_mul_left _ (by omega)
    have bound := overdraft_bounded rate' (UInt64.ofNat (idle + 1)) 1000001 bounded
      (by rw [span]; exact small) started
      (by rw [UInt64.le_iff_toNat_le, time]; change idle + 1 ≤ 1000001; omega)
      (by change rate'.toNat * 1000000 < 2 ^ 64; omega)
      (by change rate'.toNat = rate'.toNat * 1000000 / 1000000; omega) (by omega)
      (by rw [span]; exact isAllowed)
    have rest : (1000001 : UInt64).toNat - (UInt64.ofNat (idle + 1)).toNat = 1000000 - idle := by
      rw [time]
      change 1000001 - (idle + 1) = _
      omega
    rw [span, rest, Nat.mul_sub] at bound
    have more : rate.toNat * idle < rate'.toNat * idle :=
      Nat.mul_lt_mul_of_pos_right raised (Nat.pos_of_ne_zero some_time)
    omega

/-- The bound holds over every run in range in which the rate is changed only as allowed, for every
capacity and rate, exactly if every allowed change is harmless. -/
theorem throttle_bound_iff (allowed : UInt64 → Nat → UInt64 → Prop) :
    BoundedUnder allowed ↔ ∀ rate idle rate', idle + 1 < 2 ^ 64 → rate'.toNat * idle < 2 ^ 64 →
      allowed rate idle rate' → Harmless rate idle rate' := by
  constructor
  · exact harmless_of_bounded
  · intro harmless capacity rate start calls running inRange changes
    have account : Account capacity (run bucketStep (fresh capacity rate start) calls) := by
      refine AllSteps.invariant (Account capacity)
        (fun t call h steps => h.step harmless steps.1 steps.2) ?_ (inRange.and changes)
      refine ⟨UInt64.le_of_lt running, UInt64.lt_iff_toNat_lt.mp running, ?_,
        fun isSet => absurd rfl isSet⟩
      simp [fresh, slTokenBucketInit]
    have held := account.held
    unfold Bounded
    omega

/-- Ten bytes at no rate, and after a second a rate of ten bytes a second: the second counts. -/
theorem uncharged_second_granted :
    let t := run bucketStep (fresh 10 0 1) [.tryTake 1 10, .setRate 1000001 10, .tryTake 1000001 10]
    t.granted = 20 ∧ t.credit = 0 ∧ ¬ Bounded 10 t := by
  decide +kernel

end SecureLink.Guarantees.ThrottleBound
