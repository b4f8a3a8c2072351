import SecureLink.Guarantees.BeaconAcceptance
import SecureLink.Source.Beacon.BeaconClient

/-!
# Nonces of beacons

The nonce of a beacon is the shared static IV under the sender's own counter, which starts
at 1 in every client and moves on only when a beacon was written. So a second client uses
the nonce of the first one's first beacon, and a beacon that could not be written leaves its
nonce to the next attempt. No nonce is used for two different beacons exactly if a single
client seals, and seals an unwritten beacon again with the flags and the time it had.
-/
namespace SecureLink.Guarantees.BeaconNonces
open Library.Runs Source.Record Source.Beacon RecordStream

variable {γ : Type*}

/-- A call of `send_beacon_locked`: whose it is, its flags, what the clock reads, and whether
the write succeeds. -/
structure Send (γ : Type*) where
  client : γ
  flags : UInt16
  nowWall : UInt64
  written : Bool

/-- The clients and what they passed to the AEAD; who sealed last, and the flags and the time
of that beacon if it was not written. -/
structure Fleet (γ : Type*) where
  clients : γ → BeaconClient
  uses : List SealArgs := []
  sealer : Option γ := none
  unwritten : Option (UInt16 × UInt64) := none

def fleetStep [DecidableEq γ] (A : Aead) (s : Fleet γ) (i : Send γ) : Fleet γ × Bool :=
  let c := s.clients i.client
  let sent := c.sendBeaconLocked A i.flags i.nowWall i.written
  let clients := Function.update s.clients i.client sent.1
  match c.sealArgs i.flags i.nowWall with
  | none => ({ s with clients }, sent.2)
  | some args =>
    ({ clients
       uses := s.uses ++ [args]
       sealer := some i.client
       unwritten := if sent.2 then none else some (i.flags, i.nowWall) }, sent.2)

/-- No nonce is used under one key for two different headers or payloads. -/
def NoReuse (uses : List SealArgs) : Prop :=
  ∀ a ∈ uses, ∀ b ∈ uses, a.key = b.key → a.nonce = b.nonce → a.aad = b.aad ∧ a.pt = b.pt

instance (uses : List SealArgs) : Decidable (NoReuse uses) :=
  inferInstanceAs (Decidable (∀ a ∈ uses, ∀ b ∈ uses, a.key = b.key → a.nonce = b.nonce →
    a.aad = b.aad ∧ a.pt = b.pt))

/-- A call with a valid beacon comes from the only client that ever sealed, and repeats the
flags and the time of a beacon that was not written. -/
def Repeats (s : Fleet γ) (i : Send γ) : Prop :=
  slBeaconValidate ((s.clients i.client).beacon i.flags i.nowWall).toBeaconHeader = true →
    (s.sealer = none ∨ s.sealer = some i.client) ∧
    (s.unwritten = none ∨ s.unwritten = some (i.flags, i.nowWall))

/-- What a client with the given counter passes to the AEAD. -/
def useAt (cfg : BeaconClientConfig) (seq : UInt64) (stamp : UInt16 × UInt64) : SealArgs where
  key := cfg.key.1
  nonce := slNonceBuild cfg.staticIv seq
  aad := slBeaconPackHeader (({ cfg, seq } : BeaconClient).beacon stamp.1 stamp.2).toBeaconHeader
  pt := (({ cfg, seq } : BeaconClient).beacon stamp.1 stamp.2).payload.take
    (({ cfg, seq } : BeaconClient).beacon stamp.1 stamp.2).payloadLen.toNat

theorem sealArgs_eq (c : BeaconClient) (flags : UInt16) (nowWall : UInt64) :
    c.sealArgs flags nowWall =
      if slBeaconValidate (c.beacon flags nowWall).toBeaconHeader then
        some (useAt c.cfg c.seq (flags, nowWall))
      else none := by
  unfold BeaconClient.sealArgs slBeaconSealArgs
  cases slBeaconValidate (c.beacon flags nowWall).toBeaconHeader <;> rfl

/-- Different clients, times or flags give different headers. -/
theorem useAt_aad {cfg cfg' : BeaconClientConfig} {seq seq' : UInt64} {p p' : UInt16 × UInt64}
    (same : (useAt cfg seq p).aad = (useAt cfg' seq' p').aad) :
    cfg.clientId = cfg'.clientId ∧ p = p' := by
  have headers := slBeaconPackHeader_injective same
  exact ⟨congrArg BeaconHeader.clientId headers,
    Prod.ext (congrArg BeaconHeader.flags headers) (congrArg BeaconHeader.timestampMs headers)⟩

/-- The `k`-th value of a counter that starts at 1. -/
def counter (k : Nat) : UInt64 := UInt64.ofNat (k + 1)

theorem counter_injective {k n : Nat} (hk : k < 2 ^ 64) (hn : n < 2 ^ 64)
    (same : counter k = counter n) : k = n := by
  have values := congrArg UInt64.toNat same
  simp only [counter, UInt64.toNat_ofNat'] at values
  omega

theorem counter_succ (n : Nat) : counter n + 1 = counter (n + 1) := by
  unfold counter
  rw [← UInt64.ofNat_one, ← UInt64.ofNat_add]

theorem counter_ne_zero {n : Nat} (hn : n < 2 ^ 64) (nonzero : counter n ≠ 0) : n + 1 < 2 ^ 64 := by
  by_contra wrapped
  have last : n + 1 = 2 ^ 64 := by omega
  exact nonzero (by rw [counter, last]; rfl)

/-- What the one sealing client has used: one beacon for each value of its counter so far, and
for the present value the one that was not written. -/
structure History (cfg : BeaconClientConfig) (seq : UInt64) (s : Fleet γ) : Prop where
  told : ∃ (n : Nat) (made : Nat → UInt16 × UInt64), seq = counter n ∧ n < 2 ^ 64 ∧
    (∀ u ∈ s.uses, ∃ k ≤ n, (k = n → s.unwritten = some (made n)) ∧
      u = useAt cfg (counter k) (made k)) ∧
    (∀ p, s.unwritten = some p → p = made n ∧ useAt cfg (counter n) p ∈ s.uses) ∧
    useAt cfg (counter 0) (made 0) ∈ s.uses

/-- All clients have their configuration, and only the sealing one has moved its counter. -/
structure Kept (cfg : γ → BeaconClientConfig) (s : Fleet γ) : Prop where
  configured : ∀ c, (s.clients c).cfg = cfg c
  idle : ∀ c, s.sealer ≠ some c → (s.clients c).seq = counter 0
  silent : s.sealer = none → s.uses = [] ∧ s.unwritten = none
  sealing : ∀ c, s.sealer = some c → History (cfg c) (s.clients c).seq s

theorem kept_start (cfg : γ → BeaconClientConfig) :
    Kept cfg { clients := fun c => { cfg := cfg c } } where
  configured _ := rfl
  idle _ _ := rfl
  silent _ := ⟨rfl, rfl⟩
  sealing c h := by cases h

theorem History.noReuse {cfg : BeaconClientConfig} {seq : UInt64} {s : Fleet γ}
    (h : History cfg seq s) : NoReuse s.uses := by
  obtain ⟨n, made, _, bound, each, _, _⟩ := h.told
  intro a ha b hb _ nonce
  obtain ⟨k, hk, _, rfl⟩ := each a ha
  obtain ⟨k', hk', _, rfl⟩ := each b hb
  have same : k = k' := counter_injective (by omega) (by omega) (slNonceBuild_injective _ nonce)
  subst same
  exact ⟨rfl, rfl⟩

theorem Kept.noReuse {cfg : γ → BeaconClientConfig} {s : Fleet γ} (h : Kept cfg s) :
    NoReuse s.uses := by
  cases sealer : s.sealer with
  | none =>
    rw [(h.silent sealer).1]
    intro a ha
    cases ha
  | some c => exact (h.sealing c sealer).noReuse

/-- The client seals as it may: its counter stands at `n`, and nothing but the same beacon was
used there. -/
theorem History.seal {cfg : BeaconClientConfig} {seq : UInt64} {s : Fleet γ} (h : History cfg seq s)
    {p : UInt16 × UInt64} (repeats : s.unwritten = none ∨ s.unwritten = some p) (nonzero : seq ≠ 0)
    {s' : Fleet γ} (uses : s'.uses = s.uses ++ [useAt cfg seq p]) {seq' : UInt64}
    (moved : seq' = seq ∧ s'.unwritten = some p ∨ seq' = seq + 1 ∧ s'.unwritten = none) :
    History cfg seq' s' := by
  obtain ⟨n, made, rfl, bound, each, last, first⟩ := h.told
  -- the beacon at `n` is recorded; below `n` nothing changes
  have below : ∀ k, k ≠ n → Function.update made n p k = made k := fun k hk =>
    Function.update_of_ne hk _ _
  have present : Function.update made n p n = p := Function.update_self ..
  have same : ∀ q, s.unwritten = some q → q = p := by
    intro q unwritten
    rcases repeats with fresh | again
    · rw [fresh] at unwritten
      cases unwritten
    · rw [again] at unwritten
      exact (Option.some.inj unwritten).symm
  have old : ∀ u ∈ s.uses, ∃ k ≤ n, u = useAt cfg (counter k) (Function.update made n p k) := by
    intro u hu
    obtain ⟨k, hk, atLast, rfl⟩ := each u hu
    refine ⟨k, hk, ?_⟩
    by_cases here : k = n
    · subst here
      rw [present, same _ (atLast rfl)]
    · rw [below k here]
  have all : ∀ u ∈ s'.uses, ∃ k ≤ n, u = useAt cfg (counter k) (Function.update made n p k) := by
    intro u hu
    rw [uses] at hu
    rcases List.mem_append.mp hu with earlier | new
    · exact old u earlier
    · exact ⟨n, Nat.le_refl n, by rw [present, List.mem_singleton.mp new]⟩
  have added : useAt cfg (counter n) p ∈ s'.uses := by
    rw [uses]
    simp
  have firstUse : useAt cfg (counter 0) (Function.update made n p 0) ∈ s'.uses := by
    by_cases zero : 0 = n
    · subst zero
      rw [present]
      exact added
    · rw [below 0 zero, uses]
      exact List.mem_append_left _ first
  rcases moved with ⟨rfl, unwritten⟩ | ⟨rfl, unwritten⟩
  · refine ⟨n, Function.update made n p, rfl, bound, fun u hu => ?_, fun q hq => ?_, firstUse⟩
    · obtain ⟨k, hk, rfl⟩ := all u hu
      exact ⟨k, hk, fun _ => by rw [unwritten, present], rfl⟩
    · rw [unwritten] at hq
      cases hq
      exact ⟨present.symm, added⟩
  · have room := counter_ne_zero bound nonzero
    refine ⟨n + 1, Function.update made n p, counter_succ n, room, fun u hu => ?_, fun q hq => ?_,
      firstUse⟩
    · obtain ⟨k, hk, rfl⟩ := all u hu
      exact ⟨k, by omega, fun here => by omega, rfl⟩
    · rw [unwritten] at hq
      cases hq

/-- The first beacon of the fleet. -/
theorem history_first {cfg : BeaconClientConfig} {p : UInt16 × UInt64} {s' : Fleet γ}
    (uses : s'.uses = [useAt cfg (counter 0) p]) {seq' : UInt64}
    (moved : seq' = counter 0 ∧ s'.unwritten = some p ∨
      seq' = counter 0 + 1 ∧ s'.unwritten = none) : History cfg seq' s' := by
  rcases moved with ⟨rfl, unwritten⟩ | ⟨rfl, unwritten⟩
  · refine ⟨0, fun _ => p, rfl, by decide, fun u hu => ?_, fun q hq => ?_, by rw [uses]; simp⟩
    · rw [uses, List.mem_singleton] at hu
      exact ⟨0, Nat.le_refl 0, fun _ => unwritten, hu⟩
    · rw [unwritten] at hq
      cases hq
      exact ⟨rfl, by rw [uses]; simp⟩
  · refine ⟨1, fun _ => p, counter_succ 0, by decide, fun u hu => ?_, fun q hq => ?_,
      by rw [uses]; simp⟩
    · rw [uses, List.mem_singleton] at hu
      exact ⟨0, Nat.zero_le 1, fun later => absurd later (by decide), hu⟩
    · rw [unwritten] at hq
      cases hq

section Steps

variable [DecidableEq γ] {A : Aead} {cfg : γ → BeaconClientConfig}

/-- A call with a valid beacon: the use is recorded, and the counter moved or not. -/
theorem fleetStep_valid {s : Fleet γ} (h : Kept cfg s) {i : Send γ}
    (valid : slBeaconValidate ((s.clients i.client).beacon i.flags i.nowWall).toBeaconHeader = true) :
    (fleetStep A s i).1.uses =
      s.uses ++ [useAt (cfg i.client) (s.clients i.client).seq (i.flags, i.nowWall)] ∧
    (fleetStep A s i).1.sealer = some i.client ∧
    (∀ c, c ≠ i.client → (fleetStep A s i).1.clients c = s.clients c) ∧
    ((fleetStep A s i).1.clients i.client).cfg = cfg i.client ∧
    (((fleetStep A s i).1.clients i.client).seq = (s.clients i.client).seq ∧
        (fleetStep A s i).1.unwritten = some (i.flags, i.nowWall) ∨
      ((fleetStep A s i).1.clients i.client).seq = (s.clients i.client).seq + 1 ∧
        (fleetStep A s i).1.unwritten = none) := by
  have args := sealArgs_eq (s.clients i.client) i.flags i.nowWall
  rw [if_pos valid, h.configured] at args
  obtain ⟨kept, moved⟩ := (s.clients i.client).sendBeaconLocked_spec A i.flags i.nowWall i.written
  simp only [fleetStep, args, Function.update_self]
  refine ⟨trivial, trivial, fun c hc => Function.update_of_ne hc _ _,
    kept.trans (h.configured _), ?_⟩
  rw [moved]
  cases ((s.clients i.client).sendBeaconLocked A i.flags i.nowWall i.written).2 with
  | false => exact Or.inl ⟨rfl, rfl⟩
  | true => exact Or.inr ⟨rfl, rfl⟩

/-- A call whose beacon is not valid changes nothing. -/
theorem fleetStep_invalid (A : Aead) {s : Fleet γ} {i : Send γ}
    (invalid : ¬ slBeaconValidate ((s.clients i.client).beacon i.flags i.nowWall).toBeaconHeader =
      true) : (fleetStep A s i).1 = s := by
  have args := sealArgs_eq (s.clients i.client) i.flags i.nowWall
  rw [if_neg invalid] at args
  simp only [fleetStep, args, BeaconClient.sendBeaconLocked_invalid A args, Function.update_eq_self]

theorem Kept.step {s : Fleet γ} (h : Kept cfg s) {i : Send γ} (repeats : Repeats s i) :
    Kept cfg (fleetStep A s i).1 := by
  by_cases valid : slBeaconValidate
      ((s.clients i.client).beacon i.flags i.nowWall).toBeaconHeader = true
  · obtain ⟨own, same⟩ := repeats valid
    obtain ⟨uses, sealer, others, configured, moved⟩ := fleetStep_valid (A := A) h valid
    have nonzero : (s.clients i.client).seq ≠ 0 := by
      intro zero
      simp [slBeaconValidate, BeaconClient.beacon, zero] at valid
    refine ⟨fun c => ?_, fun c hc => ?_, fun hc => ?_, fun c hc => ?_⟩
    · by_cases here : c = i.client
      · rw [here, configured]
      · rw [others c here, h.configured]
    · rw [sealer] at hc
      have other : c ≠ i.client := fun here => hc (congrArg some here.symm)
      rw [others c other]
      refine h.idle c fun was => hc ?_
      rcases own with first | own
      · rw [first] at was
        cases was
      · rw [← own, was]
    · rw [sealer] at hc
      cases hc
    · rw [sealer] at hc
      obtain rfl : i.client = c := Option.some.inj hc
      rcases own with first | own
      · obtain ⟨empty, _⟩ := h.silent first
        have start : (s.clients i.client).seq = counter 0 := by
          refine h.idle _ fun was => ?_
          rw [first] at was
          cases was
        rw [empty, List.nil_append, start] at uses
        rw [start] at moved
        exact history_first uses moved
      · exact (h.sealing _ own).seal same nonzero uses moved
  · rw [fleetStep_invalid A valid]
    exact h

/-- A call that does not repeat uses a nonce that was used before, for another beacon. -/
theorem Kept.reuse {s : Fleet γ} (h : Kept cfg s)
    (shared : ∀ c c', (cfg c).key = (cfg c').key ∧ (cfg c).staticIv = (cfg c').staticIv)
    (distinct : ∀ c c', (cfg c).clientId = (cfg c').clientId → c = c') {i : Send γ}
    (differs : ¬ Repeats s i) : ¬ NoReuse (fleetStep A s i).1.uses := by
  obtain ⟨valid, differs⟩ := Classical.not_imp.mp differs
  obtain ⟨uses, _⟩ := fleetStep_valid (A := A) h valid
  intro noReuse
  have new : useAt (cfg i.client) (s.clients i.client).seq (i.flags, i.nowWall) ∈
      (fleetStep A s i).1.uses := by
    rw [uses]
    simp
  have before : ∀ u ∈ s.uses, u ∈ (fleetStep A s i).1.uses := by
    intro u hu
    rw [uses]
    exact List.mem_append_left _ hu
  have conflict : ∀ c p, useAt (cfg c) (s.clients i.client).seq p ∈ s.uses →
      c = i.client ∧ p = (i.flags, i.nowWall) := by
    intro c p used
    have keys := shared c i.client
    obtain ⟨aad, _⟩ := noReuse _ (before _ used) _ new (congrArg Subtype.val keys.1)
      (congrArg (slNonceBuild · (s.clients i.client).seq) keys.2)
    obtain ⟨ids, same⟩ := useAt_aad aad
    exact ⟨distinct _ _ ids, same⟩
  cases sealer : s.sealer with
  | none => exact differs ⟨Or.inl sealer, Or.inl (h.silent sealer).2⟩
  | some c =>
    obtain ⟨n, made, position, _, _, last, first⟩ := (h.sealing c sealer).told
    by_cases own : c = i.client
    · subst own
      refine differs ⟨Or.inr sealer, ?_⟩
      cases unwritten : s.unwritten with
      | none => exact Or.inl rfl
      | some p =>
        obtain ⟨_, used⟩ := last p unwritten
        rw [← position] at used
        rw [(conflict _ p used).2]
        exact Or.inr rfl
    · have start : (s.clients i.client).seq = counter 0 := by
        refine h.idle _ fun was => own ?_
        rw [sealer] at was
        exact Option.some.inj was
      rw [← start] at first
      exact own (conflict c _ first).1

theorem uses_grow (A : Aead) (s : Fleet γ) (i : Send γ) : s.uses ⊆ (fleetStep A s i).1.uses := by
  unfold fleetStep
  dsimp only
  split
  · exact fun u hu => hu
  · exact List.subset_append_left _ _

end Steps

/-- For every set of clients that share key and static IV and have distinct ids, and every run
of their sends, whatever is written or fails: no nonce is used for two different beacons
exactly if every send repeats. -/
theorem beacon_nonces_unique_iff [DecidableEq γ] (A : Aead) (cfg : γ → BeaconClientConfig)
    (shared : ∀ c c', (cfg c).key = (cfg c').key ∧ (cfg c).staticIv = (cfg c').staticIv)
    (distinct : ∀ c c', (cfg c).clientId = (cfg c').clientId → c = c') (sends : List (Send γ)) :
    NoReuse (run (fleetStep A) { clients := fun c => { cfg := cfg c } } sends).uses ↔
      AllSteps (fleetStep A) Repeats { clients := fun c => { cfg := cfg c } } sends := by
  refine safe_run_iff (Kept cfg) (fun s => ¬ NoReuse s.uses) (fun s => NoReuse s.uses)
    (fun s h => h.noReuse) (fun s reused => reused) (fun s i h repeats => h.step repeats)
    (fun s i h differs => h.reuse shared distinct differs) (fun s i reused later => reused ?_)
    (kept_start cfg)
  intro a ha b hb
  exact later a (uses_grow A s i ha) b (uses_grow A s i hb)

/-- Two clients of the toy server. -/
def toyClients (second : Bool) : BeaconClientConfig where
  clientId := if second then 101 else 100
  intervalMs := 1000
  key := toyRecordKey
  staticIv := toyStaticIv

theorem toyClients_shared (c c' : Bool) :
    (toyClients c).key = (toyClients c').key ∧ (toyClients c).staticIv = (toyClients c').staticIv :=
  ⟨rfl, rfl⟩

theorem toyClients_distinct (c c' : Bool) (same : (toyClients c).clientId = (toyClients c').clientId) :
    c = c' := by
  cases c <;> cases c' <;> first | rfl | cases same

/-- The two clients before any beacon. -/
def toyFleet : Fleet Bool := { clients := fun c => { cfg := toyClients c } }

/-- One client sends, fails to write its second beacon, and seals it again within the same
millisecond. -/
theorem beacon_nonces_unique_toy :
    NoReuse (run (fleetStep (toyAead [])) toyFleet
      [⟨false, 0, 5000, true⟩, ⟨false, 0, 6000, false⟩, ⟨false, 0, 6000, true⟩]).uses ∧
    AllSteps (fleetStep (toyAead [])) Repeats toyFleet
      [⟨false, 0, 5000, true⟩, ⟨false, 0, 6000, false⟩, ⟨false, 0, 6000, true⟩] := by
  have unique : NoReuse (run (fleetStep (toyAead [])) toyFleet
      [⟨false, 0, 5000, true⟩, ⟨false, 0, 6000, false⟩, ⟨false, 0, 6000, true⟩]).uses := by
    decide +kernel
  exact ⟨unique, (beacon_nonces_unique_iff (toyAead []) toyClients toyClients_shared
    toyClients_distinct _).mp unique⟩

/-- The first beacons of two clients share their nonce, and so do a beacon that could not be
written and the next one of the same client a second later. -/
theorem beacon_nonce_reused :
    ¬ NoReuse (run (fleetStep (toyAead [])) toyFleet
      [⟨false, 0, 5000, true⟩, ⟨true, 0, 5000, true⟩]).uses ∧
    ¬ NoReuse (run (fleetStep (toyAead [])) toyFleet
      [⟨false, 0, 5000, false⟩, ⟨false, 0, 6000, true⟩]).uses :=
  ⟨by decide +kernel, by decide +kernel⟩

end SecureLink.Guarantees.BeaconNonces
