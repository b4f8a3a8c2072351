import SecureLink.Library.Runs
import SecureLink.Source.Limits.RateLimiter

/-!
# What the rate limiter grants

Beside the limiter runs the cost granted to each key. A refill never adds more than the
rate allows for the time since the last one, and floors and saturation only lose tokens.
But a bucket that is evicted, or whose time point is the zero of the clock, starts again
with the full burst. The bound over a whole run holds exactly if this only happens to
buckets that have had the time to fill up.
-/
namespace SecureLink.Guarantees.RateBound
open Library.BigEndian Library.Runs Library.Table Source.Limits Source.Limits.RateLimiter

inductive RateCall where
  | allow (now : Int) (key : Bytes) (cost : UInt32)
  | tokens (now : Int) (key : Bytes)
  | evictIdle (now maxAge : Int)

def RateCall.now : RateCall → Int
  | .allow now _ _ => now
  | .tokens now _ => now
  | .evictIdle now _ => now

/-- The limiter, what it has granted, and the time of the last call. -/
structure Metered where
  limiter : RateLimiter
  granted : Bytes → Nat := fun _ => 0
  clock : Int

def rateStep (m : Metered) : RateCall → Metered × Option Bool
  | .allow now key cost =>
    let result := m.limiter.allow now key cost
    ({ limiter := result.1
       granted := if result.2 then
          Function.update m.granted key (m.granted key + cost.toNat) else m.granted
       clock := now }, some result.2)
  | .tokens now key => ({ m with limiter := (m.limiter.tokens now key).1, clock := now }, none)
  | .evictIdle now maxAge =>
    ({ m with limiter := (m.limiter.evictIdle now maxAge).1, clock := now }, none)

/-- The clock does not go back. -/
def Forward (m : Metered) (call : RateCall) : Prop := m.clock ≤ call.now

/-- The bucket of the key is thrown away or started again only after an idle time that is allowed. -/
def ResetsAfter (allowed : Int → Prop) (key : Bytes) (m : Metered) : RateCall → Prop
  | .allow now key' _ =>
    key' = key → ∀ b ∈ m.limiter.buckets.lookup key, b.last = 0 → allowed (now - b.last)
  | .tokens _ _ => True
  | .evictIdle now maxAge =>
    ∀ b ∈ m.limiter.buckets.lookup key, b.last < now - maxAge * 1000000000 → allowed (now - b.last)

/-- Whole milliseconds of a span of time. -/
def ms (span : Int) : Nat := (millis span).toNat

/-- The time is enough to fill an empty bucket. -/
def Refills (rate burst : UInt32) (idle : Int) : Prop := 1000 * burst.toNat ≤ rate.toNat * ms idle

theorem ms_eq {span : Int} (forward : 0 ≤ span) : (ms span : Int) = span / 1000000 := by
  unfold ms millis
  rw [Int.tdiv_eq_ediv_of_nonneg forward]
  omega

/-- Floors only lose time. -/
theorem ms_add_le {a b : Int} (first : 0 ≤ a) (second : 0 ≤ b) : ms a + ms b ≤ ms (a + b) := by
  have ha := ms_eq first
  have hb := ms_eq second
  have hab := ms_eq (Int.add_nonneg first second)
  omega

theorem ms_mono {a b : Int} (first : 0 ≤ a) (le : a ≤ b) : ms a ≤ ms b := by
  have ha := ms_eq first
  have hb := ms_eq (Int.le_trans first le)
  omega

theorem charge_add (rate : UInt32) {start last now : Int} (started : start ≤ last) (past : last ≤ now) :
    rate.toNat * ms (last - start) + rate.toNat * ms (now - last) ≤ rate.toNat * ms (now - start) := by
  have sum := ms_add_le (Int.sub_nonneg.mpr started) (Int.sub_nonneg.mpr past)
  have whole : last - start + (now - last) = now - start := by omega
  rw [whole] at sum
  rw [← Nat.mul_add]
  exact Nat.mul_le_mul_left _ sum

/-- A refill does nothing, or brings the bucket up to now with at most what the rate allows. -/
theorem refill_cases (l : RateLimiter) (b : Bucket) (now : Int) :
    l.refill b now = b ∨ (l.refill b now).last = now ∧
      1000 * (l.refill b now).tokens.toNat ≤
        1000 * b.tokens.toNat + l.refillPerSec.toNat * ms (now - b.last) := by
  have floor : 1000 * (l.refillPerSec.toNat * (millis (now - b.last)).toNat % 2 ^ 64 / 1000) ≤
      l.refillPerSec.toNat * ms (now - b.last) :=
    Nat.le_trans (Nat.mul_div_le _ _) (Nat.mod_le _ _)
  simp only [RateLimiter.refill]
  split_ifs with early some_token saturated
  · exact Or.inl rfl
  · refine Or.inr ⟨rfl, ?_⟩
    simp only
    omega
  · refine Or.inr ⟨rfl, ?_⟩
    simp only
    rw [UInt32.toNat_ofNat_of_lt' (Nat.lt_of_le_of_lt (Nat.not_lt.mp saturated) l.burst.toNat_lt)]
    omega
  · exact Or.inl rfl

/-- What has been granted and what is still in the bucket, against the time up to the last refill.
Without a bucket the whole burst can be granted at once. -/
def Paid (rate burst : UInt32) (start clock : Int) (granted : Nat) : Option Bucket → Prop
  | none => 1000 * granted ≤ rate.toNat * ms (clock - start)
  | some b =>
    start ≤ b.last ∧ b.last ≤ clock ∧
    1000 * (granted + b.tokens.toNat) ≤ 1000 * burst.toNat + rate.toNat * ms (b.last - start)

section Refill
variable {rate burst : UInt32} {start clock now : Int} {granted : Nat}

theorem Paid.mono {b : Option Bucket} (paid : Paid rate burst start clock granted b)
    (started : start ≤ clock) (later : clock ≤ now) : Paid rate burst start now granted b := by
  cases b with
  | none =>
    have longer := Nat.mul_le_mul_left rate.toNat
      (ms_mono (Int.sub_nonneg.mpr started) (Int.sub_le_sub_right later start))
    exact Nat.le_trans paid longer
  | some b => exact ⟨paid.1, Int.le_trans paid.2.1 later, paid.2.2⟩

/-- A refill adds at most what the rate allows for the time since the last one. -/
theorem Paid.refill {l : RateLimiter} (isRate : l.refillPerSec = rate) {b : Bucket}
    (paid : Paid rate burst start clock granted (some b)) (later : clock ≤ now) :
    Paid rate burst start now granted (some (l.refill b now)) := by
  obtain ⟨started, past, bound⟩ := paid
  rcases refill_cases l b now with same | ⟨last, tokens⟩
  · rw [same]
    exact ⟨started, Int.le_trans past later, bound⟩
  · have time := charge_add rate started (Int.le_trans past later)
    rw [isRate] at tokens
    refine ⟨by omega, by omega, ?_⟩
    rw [last]
    omega

/-- A bucket that had the time to fill up may be thrown away. -/
theorem Paid.forget {b : Bucket} (paid : Paid rate burst start clock granted (some b))
    (later : clock ≤ now) (refilled : Refills rate burst (now - b.last)) :
    Paid rate burst start now granted none := by
  obtain ⟨started, past, bound⟩ := paid
  have time := charge_add rate started (Int.le_trans past later)
  unfold Refills at refilled
  simp only [Paid]
  omega

/-- And a new one may be full. -/
theorem Paid.fill (paid : Paid rate burst start now granted none) (started : start ≤ now) (b : Bucket) :
    Paid rate burst start now granted (some { b with tokens := burst, last := now }) := by
  refine ⟨started, Int.le_refl _, ?_⟩
  simp only [Paid] at paid
  simp only
  omega

theorem Paid.spend {b : Bucket} (paid : Paid rate burst start clock granted (some b)) {cost : UInt32}
    (enough : cost ≤ b.tokens) :
    Paid rate burst start clock (granted + cost.toNat) (some { b with tokens := b.tokens - cost }) := by
  obtain ⟨started, past, bound⟩ := paid
  have less := UInt32.le_iff_toNat_le.mp enough
  refine ⟨started, past, ?_⟩
  simp only
  rw [UInt32.toNat_sub_of_le _ _ enough]
  omega

theorem Paid.granted_le {b : Option Bucket} (paid : Paid rate burst start clock granted b) :
    granted ≤ burst.toNat + rate.toNat * ms (clock - start) / 1000 := by
  have whole : 1000 * granted ≤ 1000 * burst.toNat + rate.toNat * ms (clock - start) := by
    cases b with
    | none =>
      simp only [Paid] at paid
      omega
    | some b =>
      obtain ⟨started, past, bound⟩ := paid
      have longer := Nat.mul_le_mul_left rate.toNat
        (ms_mono (Int.sub_nonneg.mpr started) (Int.sub_le_sub_right past start))
      omega
  omega

end Refill

/-- The account of a key during a run that began at `start`. -/
structure Account (rate burst : UInt32) (start : Int) (key : Bytes) (m : Metered) : Prop where
  isRate : m.limiter.refillPerSec = rate
  isBurst : m.limiter.burst = burst
  started : start ≤ m.clock
  paid : Paid rate burst start m.clock (m.granted key) (m.limiter.buckets.lookup key)

section Steps
variable {rate burst : UInt32} {start : Int} {key : Bytes} {m : Metered}
  (h : Account rate burst start key m)
include h

/-- The bucket `allow` works on is paid for. -/
theorem Account.readied {now : Int} (later : m.clock ≤ now)
    (refilled : ∀ b ∈ m.limiter.buckets.lookup key, b.last = 0 → Refills rate burst (now - b.last)) :
    Paid rate burst start now (m.granted key) (some (m.limiter.readied now key)) := by
  have paid := h.paid
  have started := Int.le_trans h.started later
  unfold RateLimiter.readied
  cases found : m.limiter.buckets.lookup key with
  | none =>
    rw [found] at paid
    simp only [Option.getD_none, if_true, h.isBurst]
    exact (paid.mono h.started later).fill started {}
  | some b =>
    rw [found] at paid
    simp only [Option.getD_some]
    split
    next zero =>
      rw [h.isBurst]
      exact (paid.forget later (refilled b found zero)).fill started _
    next => exact paid.refill h.isRate later

theorem Account.allow {now : Int} (later : m.clock ≤ now) (cost : UInt32)
    (refilled : ∀ b ∈ m.limiter.buckets.lookup key, b.last = 0 → Refills rate burst (now - b.last)) :
    Account rate burst start key (rateStep m (.allow now key cost)).1 := by
  have readied := h.readied later refilled
  have started := Int.le_trans h.started later
  simp only [rateStep, RateLimiter.allow]
  split
  next enough =>
    refine ⟨h.isRate, h.isBurst, started, ?_⟩
    simp only [if_true, RateLimiter.store, AList.lookup_insert, Function.update_self]
    exact readied.spend enough
  next =>
    refine ⟨h.isRate, h.isBurst, started, ?_⟩
    simp only [Bool.false_eq_true, if_false, RateLimiter.store, AList.lookup_insert]
    exact readied

/-- A call that leaves the bucket of the key and what was granted to it alone. -/
theorem Account.other {m' : Metered} (later : m.clock ≤ m'.clock)
    (sameRate : m'.limiter.refillPerSec = m.limiter.refillPerSec)
    (sameBurst : m'.limiter.burst = m.limiter.burst) (granted : m'.granted key = m.granted key)
    (bucket : m'.limiter.buckets.lookup key = m.limiter.buckets.lookup key) :
    Account rate burst start key m' := by
  refine ⟨sameRate.trans h.isRate, sameBurst.trans h.isBurst, Int.le_trans h.started later, ?_⟩
  rw [granted, bucket]
  exact h.paid.mono h.started later

theorem Account.tokens {now : Int} (later : m.clock ≤ now) (key' : Bytes) :
    Account rate burst start key (rateStep m (.tokens now key')).1 := by
  cases found : m.limiter.buckets.lookup key' with
  | none =>
    simp only [rateStep, RateLimiter.tokens, found]
    exact h.other later rfl rfl rfl rfl
  | some b =>
    simp only [rateStep, RateLimiter.tokens, found]
    by_cases same : key' = key
    · subst same
      have paid := h.paid
      rw [found] at paid
      refine ⟨h.isRate, h.isBurst, Int.le_trans h.started later, ?_⟩
      simp only [RateLimiter.store, AList.lookup_insert]
      exact paid.refill h.isRate later
    · have other : key ≠ key' := fun eq => same eq.symm
      exact h.other later rfl rfl rfl (AList.lookup_insert_ne other)

theorem Account.evictIdle {now : Int} (later : m.clock ≤ now) (maxAge : Int)
    (refilled : ∀ b ∈ m.limiter.buckets.lookup key, b.last < now - maxAge * 1000000000 →
      Refills rate burst (now - b.last)) :
    Account rate burst start key (rateStep m (.evictIdle now maxAge)).1 := by
  refine ⟨h.isRate, h.isBurst, Int.le_trans h.started later, ?_⟩
  simp only [rateStep, RateLimiter.evictIdle, lookup_keep]
  have paid := h.paid
  cases found : m.limiter.buckets.lookup key with
  | none =>
    rw [found] at paid
    exact paid.mono h.started later
  | some b =>
    rw [found] at paid
    by_cases idle : b.last < now - maxAge * 1000000000
    · simp only [Option.filter_some, idle, decide_true, Bool.not_true, Bool.false_eq_true, if_false]
      exact paid.forget later (refilled b found idle)
    · simp only [Option.filter_some, idle, decide_false, Bool.not_false, if_true]
      exact paid.mono h.started later

theorem Account.step {allowed : Int → Prop}
    (refills : ∀ idle, 0 ≤ idle → allowed idle → Refills rate burst idle) {call : RateCall}
    (forward : Forward m call) (resets : ResetsAfter allowed key m call) :
    Account rate burst start key (rateStep m call).1 := by
  -- an idle time of the bucket of the key is not negative
  have nonneg : ∀ b ∈ m.limiter.buckets.lookup key, 0 ≤ call.now - b.last := by
    intro b found
    have paid := h.paid
    rw [Option.mem_def.mp found] at paid
    exact Int.sub_nonneg.mpr (Int.le_trans paid.2.1 forward)
  cases call with
  | allow now key' cost =>
    by_cases same : key' = key
    · subst same
      exact h.allow forward cost
        (fun b found zero => refills _ (nonneg b found) (resets rfl b found zero))
    · have other : key ≠ key' := fun eq => same eq.symm
      simp only [rateStep, RateLimiter.allow]
      split
      next =>
        refine h.other forward rfl rfl (Function.update_of_ne other _ _) ?_
        exact AList.lookup_insert_ne other
      next => exact h.other forward rfl rfl rfl (AList.lookup_insert_ne other)
  | tokens now key' => exact h.tokens forward key'
  | evictIdle now maxAge =>
    exact h.evictIdle forward maxAge
      (fun b found idle => refills _ (nonneg b found) (resets b found idle))

end Steps

/-- A new limiter at the start of a run. -/
def fresh (rate burst : UInt32) (start : Int) : Metered :=
  { limiter := { refillPerSec := rate, burst }, clock := start }

/-- The cost granted to the key since the start is within the burst and the rate. -/
def Bounded (rate burst : UInt32) (start : Int) (key : Bytes) (m : Metered) : Prop :=
  m.granted key ≤ burst.toNat + rate.toNat * ms (m.clock - start) / 1000

instance (rate burst : UInt32) (start : Int) (key : Bytes) (m : Metered) :
    Decidable (Bounded rate burst start key m) :=
  inferInstanceAs (Decidable (_ ≤ _))

/-- The whole burst, an eviction after some time, and the whole burst again. -/
def burstTwice (burst : UInt32) (key : Bytes) (start idle : Int) : List RateCall :=
  [.allow start key burst, .evictIdle (start + idle) (-1), .allow (start + idle) key burst]

/-- A key without a bucket is granted the whole burst. -/
theorem allow_missing {m : Metered} {key : Bytes} (missing : m.limiter.buckets.lookup key = none)
    (now : Int) :
    (rateStep m (.allow now key m.limiter.burst)).1 =
      { limiter := m.limiter.store key { tokens := m.limiter.burst - m.limiter.burst, last := now }
        granted := Function.update m.granted key (m.granted key + m.limiter.burst.toNat)
        clock := now } := by
  simp [rateStep, RateLimiter.allow, RateLimiter.readied, missing]

theorem evictIdle_missing {m : Metered} {key : Bytes} {b : Bucket} {now maxAge : Int}
    (found : m.limiter.buckets.lookup key = some b) (idle : b.last < now - maxAge * 1000000000) :
    (rateStep m (.evictIdle now maxAge)).1.limiter.buckets.lookup key = none := by
  simp only [rateStep, RateLimiter.evictIdle, lookup_keep, found, Option.filter_some, idle,
    decide_true, Bool.not_true, Bool.false_eq_true, if_false]

section BurstTwice
variable (rate burst : UInt32) (key : Bytes) (start : Int)

/-- The limiter after the first burst. -/
def spent : Metered where
  limiter := (fresh rate burst start).limiter.store key { tokens := burst - burst, last := start }
  granted := Function.update (fun _ => 0) key (0 + burst.toNat)
  clock := start

theorem spent_lookup : (spent rate burst key start).limiter.buckets.lookup key =
    some { tokens := burst - burst, last := start } :=
  AList.lookup_insert _

theorem fresh_allow :
    (rateStep (fresh rate burst start) (.allow start key burst)).1 = spent rate burst key start :=
  allow_missing (m := fresh rate burst start) rfl start

variable {idle : Int} (nonneg : 0 ≤ idle)
include nonneg

theorem spent_evictIdle :
    (rateStep (spent rate burst key start) (.evictIdle (start + idle) (-1))).1.limiter.buckets.lookup
      key = none :=
  evictIdle_missing (spent_lookup rate burst key start) (by simp only; omega)

/-- Too short an idle time lets the burst through twice. -/
theorem burstTwice_bounded
    (bounded : Bounded rate burst start key
      (run rateStep (fresh rate burst start) (burstTwice burst key start idle))) :
    Refills rate burst idle := by
  have again := allow_missing (spent_evictIdle rate burst key start nonneg) (start + idle)
  have once : (spent rate burst key start).granted key = burst.toNat := by
    simp only [spent, Function.update_self, Nat.zero_add]
  have span : start + idle - start = idle := by omega
  rw [burstTwice, run_cons, fresh_allow, run_cons, run_cons, run_nil] at bounded
  have twice : Bounded rate burst start key _ := again ▸ bounded
  simp only [Bounded, Function.update_self, span, rateStep, RateLimiter.evictIdle, once] at twice
  have same : (spent rate burst key start).limiter.burst = burst := rfl
  rw [same] at twice
  unfold Refills
  omega

end BurstTwice

/-- For a rate and a burst: the bound holds over every run in which the bucket of the key is thrown
away or started again only after allowed idle times, exactly if every allowed idle time is enough
to fill an empty bucket. -/
theorem rate_bound_iff (rate burst : UInt32) (allowed : Int → Prop) :
    (∀ (start : Int) (key : Bytes) (calls : List RateCall),
      AllSteps rateStep Forward (fresh rate burst start) calls →
      AllSteps rateStep (ResetsAfter allowed key) (fresh rate burst start) calls →
      Bounded rate burst start key (run rateStep (fresh rate burst start) calls)) ↔
    ∀ idle, 0 ≤ idle → allowed idle → Refills rate burst idle := by
  constructor
  · intro bounded idle nonneg isAllowed
    refine burstTwice_bounded rate burst [] 1 nonneg (bounded 1 [] _ ?_ ?_)
    · refine ⟨Int.le_refl _, ?_, ?_, trivial⟩
      · rw [fresh_allow]
        simp only [Forward, spent, RateCall.now]
        omega
      · exact Int.le_refl _
    · refine ⟨?_, ?_, ?_, trivial⟩
      · intro _ b found
        cases found
      · rw [fresh_allow]
        intro b found _
        rw [spent_lookup] at found
        cases found
        have span : 1 + idle - 1 = idle := by omega
        simp only [span]
        exact isAllowed
      · rw [fresh_allow]
        intro _ b found
        rw [spent_evictIdle rate burst [] 1 nonneg] at found
        cases found
  · intro refills start key calls forward resets
    have account := AllSteps.invariant (Account rate burst start key)
      (fun m call h steps => h.step refills steps.1 steps.2) (s := fresh rate burst start)
      ⟨rfl, rfl, Int.le_refl _, Nat.zero_le _⟩ (forward.and resets)
    exact account.paid.granted_le

/-- One token a second, a burst of ten: two idle seconds are not enough for an eviction. -/
theorem evicted_burst_granted_twice :
    let m := run rateStep (fresh 1 10 1)
      [.allow 1 (ascii "eve") 10, .evictIdle 2000000001 1, .allow 2000000001 (ascii "eve") 10]
    m.granted (ascii "eve") = 20 ∧ ¬ Bounded 1 10 1 (ascii "eve") m := by
  decide +kernel

end SecureLink.Guarantees.RateBound
