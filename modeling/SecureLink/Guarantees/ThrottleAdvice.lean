import SecureLink.Guarantees.ThrottleBound

/-!
# Waiting as long as the token bucket advises

The advice rounds the missing tokens up to milliseconds, the refill rounds what the time is worth
down to tokens. The two agree where neither leaves 64 bits. The advice is cut off at the largest
32-bit number (src/sl_token_bucket.c:55), and then it is too short unless time was uncharged.
-/
namespace SecureLink.Guarantees.ThrottleAdvice
open Library.Runs Source.Limits Source.Limits.SlTokenBucket ThrottleBound

variable {tb : SlTokenBucket} {bytes now : UInt64}

/-- The tokens that a request lacks. -/
def missing (tb : SlTokenBucket) (bytes : UInt64) : Nat := bytes.toNat - tb.tokens.toNat

/-- No product or sum of a refill leaves 64 bits. -/
def RefillFits (tb : SlTokenBucket) (now : UInt64) : Prop :=
  tb.lastRefillUs ≠ 0 →
    tb.rateBps.toNat * uncharged tb now < 2 ^ 64 ∧
    tb.tokens.toNat + tb.rateBps.toNat * uncharged tb now / 1000000 < 2 ^ 64

/-- The tokens are there, or so many microseconds since the last refill are worth those that are
missing. -/
def Funded (tb : SlTokenBucket) (bytes : UInt64) (elapsed : Nat) : Prop :=
  bytes ≤ tb.tokens ∨
    tb.lastRefillUs ≠ 0 ∧ 1000000 * missing tb bytes ≤ tb.rateBps.toNat * elapsed

/-- The milliseconds for the missing tokens, rounded up, are computed within 64 bits and fit the
32 bits of the advice. -/
def AdviceFits (tb : SlTokenBucket) (bytes : UInt64) : Prop :=
  1000 * missing tb bytes + tb.rateBps.toNat - 1 < 2 ^ 64 ∧
    (1000 * missing tb bytes + tb.rateBps.toNat - 1) / tb.rateBps.toNat ≤ uint32Max.toNat

instance (tb : SlTokenBucket) (now : UInt64) : Decidable (RefillFits tb now) :=
  inferInstanceAs (Decidable (_ → _))

instance (tb : SlTokenBucket) (bytes : UInt64) : Decidable (AdviceFits tb bytes) :=
  inferInstanceAs (Decidable (_ ∧ _))

theorem bytes_le_iff_missing : bytes ≤ tb.tokens ↔ missing tb bytes = 0 := by
  rw [UInt64.le_iff_toNat_le, missing, Nat.sub_eq_zero_iff_le]

theorem tryTake_iff (tb : SlTokenBucket) (now bytes : UInt64) :
    (tb.slTokenBucketTryTake now bytes).2 = 0 ↔ bytes ≤ (tb.refill now).tokens := by
  simp only [slTokenBucketTryTake]
  split
  next less => exact iff_of_false (show (-1 : Int) ≠ 0 by decide) (UInt64.not_le.mpr less)
  next enough => exact iff_of_true rfl (UInt64.not_lt.mp enough)

/-- In range a request succeeds exactly if it is funded. -/
theorem tryTake_funded (fits : RefillFits tb now) (within : bytes ≤ tb.capacityBytes) :
    (tb.slTokenBucketTryTake now bytes).2 = 0 ↔ Funded tb bytes (uncharged tb now) := by
  have cap := UInt64.le_iff_toNat_le.mp within
  obtain ⟨_, _, cases⟩ := refill_cases tb now fits
  rw [tryTake_iff, Funded]
  rcases cases with ⟨unset, tokens, _⟩ | ⟨isSet, small, same⟩ | ⟨isSet, _, _, tokens⟩
  · rw [tokens]
    exact (or_iff_left fun later => later.1 unset).symm
  · rw [same, bytes_le_iff_missing, and_iff_right isSet]
    omega
  · rw [UInt64.le_iff_toNat_le, UInt64.le_iff_toNat_le, tokens, and_iff_right isSet, missing]
    omega

/-- A refill leaves the configuration, and the time is that of the call or the old one. -/
theorem refill_frame (tb : SlTokenBucket) (now : UInt64) :
    (tb.refill now).rateBps = tb.rateBps ∧ (tb.refill now).capacityBytes = tb.capacityBytes ∧
      ((tb.refill now).lastRefillUs = now ∨
        (tb.refill now).lastRefillUs = tb.lastRefillUs ∧ tb.lastRefillUs ≠ 0) := by
  simp only [refill]
  split_ifs with unset early none
  · exact ⟨rfl, rfl, Or.inl rfl⟩
  · exact ⟨rfl, rfl, Or.inr ⟨rfl, unset⟩⟩
  · exact ⟨rfl, rfl, Or.inr ⟨rfl, unset⟩⟩
  · exact ⟨rfl, rfl, Or.inl rfl⟩
  · exact ⟨rfl, rfl, Or.inl rfl⟩

/-- The quotient of the advice, with its wrap. -/
theorem toNat_roundedUp {deficit rate : UInt64} (positive : 0 < rate.toNat) :
    ((deficit * 1000 + rate - 1) / rate).toNat =
      (1000 * deficit.toNat + rate.toNat - 1) % 2 ^ 64 / rate.toNat := by
  have numerator : (deficit * 1000 + rate - 1).toNat =
      (1000 * deficit.toNat + rate.toNat - 1) % 2 ^ 64 := by
    rw [UInt64.toNat_sub, UInt64.toNat_add, UInt64.toNat_mul, show (1000 : UInt64).toNat = 1000 from rfl,
      show (1 : UInt64).toNat = 1 from rfl]
    omega
  rw [UInt64.toNat_div, numerator]

theorem toNat_cutOff (ms : UInt64) :
    (if ms > uint32Max then uint32Max.toUInt32 else ms.toUInt32).toNat =
      min uint32Max.toNat ms.toNat := by
  split
  next beyond =>
    have less := UInt64.lt_iff_toNat_lt.mp beyond
    rw [Nat.min_eq_left (Nat.le_of_lt less)]
    rfl
  next within =>
    have le := UInt64.le_iff_toNat_le.mp (UInt64.not_lt.mp within)
    rw [Nat.min_eq_right le, UInt64.toNat_toUInt32]
    exact Nat.mod_eq_of_lt (Nat.lt_of_le_of_lt le (by decide))

/-- The advice in numbers. -/
theorem slTokenBucketWaitMs_eq (rate : tb.rateBps ≠ 0) (now bytes : UInt64) :
    (tb.slTokenBucketWaitMs now bytes).1 = tb.refill now ∧
      (tb.slTokenBucketWaitMs now bytes).2.toNat = min uint32Max.toNat
        ((1000 * missing (tb.refill now) bytes + tb.rateBps.toNat - 1) % 2 ^ 64 /
          tb.rateBps.toNat) := by
  have positive : 0 < tb.rateBps.toNat := Nat.pos_of_ne_zero fun zero => rate (UInt64.toNat_inj.mp zero)
  simp only [slTokenBucketWaitMs, if_neg rate, (refill_frame tb now).1]
  by_cases enough : bytes ≤ (tb.refill now).tokens
  · have small := tb.rateBps.toNat_lt
    rw [if_pos enough, bytes_le_iff_missing.mp enough, Nat.mod_eq_of_lt (by omega),
      Nat.div_eq_of_lt (by omega)]
    exact ⟨rfl, rfl⟩
  · have deficit : (bytes - (tb.refill now).tokens).toNat = missing (tb.refill now) bytes :=
      UInt64.toNat_sub_of_le _ _ (UInt64.le_of_lt (UInt64.not_le.mp enough))
    rw [if_neg enough]
    refine ⟨rfl, ?_⟩
    rw [toNat_cutOff, toNat_roundedUp positive, deficit]

/-- The advice is worth the missing tokens exactly if it neither wrapped nor was cut off. -/
theorem advice_worth_iff {rate lacking : Nat} (positive : 0 < rate) (small : rate < 2 ^ 64)
    (cutoff : Nat) :
    1000 * lacking ≤ rate * min cutoff ((1000 * lacking + rate - 1) % 2 ^ 64 / rate) ↔
      1000 * lacking + rate - 1 < 2 ^ 64 ∧ (1000 * lacking + rate - 1) / rate ≤ cutoff := by
  generalize total : 1000 * lacking + rate - 1 = sum
  constructor
  · intro worth
    have least : rate * min cutoff (sum % 2 ^ 64 / rate) ≤ rate * (sum % 2 ^ 64 / rate) :=
      Nat.mul_le_mul_left _ (Nat.min_le_right _ _)
    have quotient := Nat.mul_div_le (sum % 2 ^ 64) rate
    have fits : sum < 2 ^ 64 := by omega
    refine ⟨fits, ?_⟩
    by_contra beyond
    have cut : rate * (min cutoff (sum % 2 ^ 64 / rate) + 1) ≤ rate * (sum / rate) :=
      Nat.mul_le_mul_left _ (by omega)
    have whole := Nat.mul_div_le sum rate
    rw [Nat.mul_add, Nat.mul_one] at cut
    omega
  · intro ⟨fits, within⟩
    have remainder := Nat.mod_lt sum positive
    have whole := Nat.div_add_mod sum rate
    rw [Nat.mod_eq_of_lt fits, Nat.min_eq_right within]
    omega

/-- The clock does not go back. -/
def Ordered (t : Throttled) (call : BucketCall) : Prop := t.clock ≤ call.now

theorem lastRefill_le_refill {clock : UInt64} (past : tb.lastRefillUs ≤ clock) (later : clock ≤ now) :
    (tb.refill now).lastRefillUs ≤ now := by
  rcases (refill_frame tb now).2.2 with same | ⟨old, _⟩
  · rw [same]
    exact UInt64.le_refl _
  · rw [old]
    exact UInt64.le_trans past later

/-- One call: the last refill is not in the future. -/
theorem lastRefill_le_step {t : Throttled} {call : BucketCall} (past : t.bucket.lastRefillUs ≤ t.clock)
    (ordered : Ordered t call) :
    (bucketStep t call).1.bucket.lastRefillUs ≤ (bucketStep t call).1.clock := by
  have refilled := lastRefill_le_refill past ordered
  cases call with
  | tryTake now bytes =>
    simp only [bucketStep, slTokenBucketTryTake]
    split
    next => exact refilled
    next => exact refilled
  | waitMs now bytes =>
    simp only [bucketStep, slTokenBucketWaitMs]
    split
    next => exact UInt64.le_trans past ordered
    next =>
      split
      next => exact refilled
      next => exact refilled
  | setRate now rateBps => exact refilled

theorem Funded.mono {elapsed longer : Nat} (funded : Funded tb bytes elapsed)
    (le : elapsed ≤ longer) : Funded tb bytes longer :=
  funded.imp id fun paid => ⟨paid.1, Nat.le_trans paid.2 (Nat.mul_le_mul_left _ le)⟩

theorem RefillFits.mono {later : UInt64} (fits : RefillFits tb later)
    (le : uncharged tb now ≤ uncharged tb later) : RefillFits tb now := by
  intro running
  obtain ⟨product, sum⟩ := fits running
  have less := Nat.mul_le_mul_left tb.rateBps.toNat le
  have tokens := Nat.div_le_div_right (c := 1000000) less
  omega

/-- A request succeeds from a moment on, as long as the refill is in range, exactly if it is funded
at that moment. -/
theorem tryTake_from_iff {delay : Nat} (within : bytes ≤ tb.capacityBytes)
    (past : tb.lastRefillUs ≤ now) {moment : UInt64} (reached : now.toNat + delay ≤ moment.toNat)
    (inRange : RefillFits tb moment) :
    (∀ later : UInt64, now.toNat + delay ≤ later.toNat → RefillFits tb later →
        (tb.slTokenBucketTryTake later bytes).2 = 0) ↔
      Funded tb bytes (uncharged tb now + delay) := by
  have before := UInt64.le_iff_toNat_le.mp past
  constructor
  · intro all
    have first : (UInt64.ofNat (now.toNat + delay)).toNat = now.toNat + delay :=
      UInt64.toNat_ofNat_of_lt' (Nat.lt_of_le_of_lt reached moment.toNat_lt)
    have elapsed : uncharged tb (UInt64.ofNat (now.toNat + delay)) = uncharged tb now + delay := by
      rw [uncharged, uncharged, first]
      omega
    have fits : RefillFits tb (UInt64.ofNat (now.toNat + delay)) := by
      apply inRange.mono
      rw [elapsed, uncharged, uncharged]
      omega
    rw [← elapsed]
    exact (tryTake_funded fits within).mp (all _ (Nat.le_of_eq first.symm) fits)
  · intro funded later waited fits
    apply (tryTake_funded fits within).mpr
    apply funded.mono
    rw [uncharged, uncharged]
    omega

/-- After any calls with a clock that does not go back, the bucket is asked how long to wait for a
request within the capacity.

* After a wait of at least that long, as long as the refill stays in its range, the request succeeds
  exactly if the tokens were there, or the time since the last refill and the advice are together
  worth those that were missing.
* They are if the advice did not leave its range, unless the clock read zero.
* If no time was uncharged at the advice, they are only then. -/
theorem advised_wait_enough_iff (capacity rate start : UInt64) (calls : List BucketCall)
    (ordered : AllSteps bucketStep Ordered (fresh capacity rate start) calls) {t : Throttled}
    (reached : run bucketStep (fresh capacity rate start) calls = t) (positive : 0 < t.bucket.rateBps)
    (now bytes : UInt64) (current : t.clock ≤ now) (within : bytes ≤ t.bucket.capacityBytes)
    {tb : SlTokenBucket} {wait : UInt32} (asked : t.bucket.slTokenBucketWaitMs now bytes = (tb, wait))
    (moment : UInt64) (waited : now.toNat + 1000 * wait.toNat ≤ moment.toNat)
    (inRange : RefillFits tb moment) :
    ((∀ later : UInt64, now.toNat + 1000 * wait.toNat ≤ later.toNat → RefillFits tb later →
        (tb.slTokenBucketTryTake later bytes).2 = 0) ↔
      Funded tb bytes (uncharged tb now + 1000 * wait.toNat)) ∧
    (0 < now → AdviceFits tb bytes → Funded tb bytes (uncharged tb now + 1000 * wait.toNat)) ∧
    (tb.lastRefillUs = now → Funded tb bytes (uncharged tb now + 1000 * wait.toNat) →
      AdviceFits tb bytes) := by
  have past : t.bucket.lastRefillUs ≤ t.clock := by
    rw [← reached]
    exact AllSteps.invariant (fun t => t.bucket.lastRefillUs ≤ t.clock)
      (fun _ _ => lastRefill_le_step) (UInt64.le_iff_toNat_le.mpr (Nat.zero_le _)) ordered
  have nonzero : t.bucket.rateBps ≠ 0 := (UInt64.ne_of_lt positive).symm
  obtain ⟨refilled, advised⟩ := slTokenBucketWaitMs_eq nonzero now bytes
  obtain ⟨sameRate, sameCapacity, last⟩ := refill_frame t.bucket now
  rw [asked] at refilled advised
  have bucket : tb = t.bucket.refill now := refilled
  have tbPast : tb.lastRefillUs ≤ now := bucket ▸ lastRefill_le_refill past current
  rw [← bucket] at sameRate sameCapacity last advised
  rw [← sameRate] at advised
  have worth : 1000 * missing tb bytes ≤ tb.rateBps.toNat * wait.toNat ↔ AdviceFits tb bytes := by
    have advised_iff := @advice_worth_iff tb.rateBps.toNat (missing tb bytes)
      (by rw [sameRate]; exact UInt64.lt_iff_toNat_lt.mp positive) tb.rateBps.toNat_lt uint32Max.toNat
    rw [← advised] at advised_iff
    exact advised_iff
  -- a thousand microseconds to the millisecond, on both sides
  have micros : 1000000 * missing tb bytes ≤ tb.rateBps.toNat * (1000 * wait.toNat) ↔
      AdviceFits tb bytes := by
    rw [← worth, Nat.mul_left_comm]
    omega
  refine ⟨tryTake_from_iff (sameCapacity ▸ within) tbPast waited inRange, fun started advice => ?_,
    fun atOnce funded => ?_⟩
  · have running : tb.lastRefillUs ≠ 0 := by
      rcases last with same | ⟨old, running⟩
      · rw [same]
        exact (UInt64.ne_of_lt started).symm
      · rw [old]
        exact running
    have paid : Funded tb bytes (1000 * wait.toNat) := Or.inr ⟨running, micros.mpr advice⟩
    exact paid.mono (Nat.le_add_left _ _)
  · rw [← micros]
    rcases funded with enough | ⟨_, paid⟩
    · rw [bytes_le_iff_missing.mp enough]
      exact Nat.zero_le _
    · rwa [uncharged, atOnce, Nat.sub_self, Nat.zero_add] at paid

/-- Fifty bytes at a hundred a second: half a second. -/
theorem half_second_enough :
    let t := run bucketStep (fresh 1000 100 1) [.tryTake 1 1000]
    let asked := t.bucket.slTokenBucketWaitMs 2 50
    asked.2 = 500 ∧ (asked.1.slTokenBucketTryTake 500002 50).2 = 0 := by
  have ordered : AllSteps bucketStep Ordered (fresh 1000 100 1) [.tryTake 1 1000] :=
    ⟨UInt64.le_refl _, trivial⟩
  obtain ⟨succeeds, advice, -⟩ := advised_wait_enough_iff 1000 100 1 [.tryTake 1 1000] ordered rfl
    (by decide +kernel) 2 50 (by decide +kernel) (by decide +kernel) rfl 500002 (by decide +kernel)
    (by decide +kernel)
  refine ⟨by decide +kernel, succeeds.mpr (advice (by decide) (by decide +kernel)) 500002 ?_ ?_⟩
  · decide +kernel
  · decide +kernel

/-- Five million bytes at one a second take 5·10⁹ milliseconds; the advice is 2³² − 1. -/
theorem cut_off_advice_short :
    let t := run bucketStep (fresh 5000000 1 1) [.tryTake 1 5000000]
    let asked := t.bucket.slTokenBucketWaitMs 1 5000000
    asked.2 = 4294967295 ∧
      (asked.1.slTokenBucketTryTake (1 + 1000 * asked.2.toUInt64) 5000000).2 = -1 := by
  decide +kernel

end SecureLink.Guarantees.ThrottleAdvice
