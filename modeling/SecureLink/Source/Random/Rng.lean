import SecureLink.Library.BigEndian

/-!
# Random numbers

src/sl_rng.c:41-65. The outcomes of `RAND_bytes` are arguments: the bytes it wrote, `none` where
it failed. A request for eight bytes is a single call of it.
-/
namespace SecureLink.Source.Random
open Library.BigEndian

/-- The bytes drawn, most significant first. -/
def slRngU64 (rand : Option (FixedBytes 8)) : Option UInt64 :=
  rand.map fun b => b.1.foldl (fun out byte => (out <<< 8) ||| byte.toUInt64) 0

def uint64Max : UInt64 := 0xFFFFFFFFFFFFFFFF

def slRngLimit (upper : UInt64) : UInt64 := uint64Max - uint64Max % upper

/-- What the loop makes of one draw: the result, or nothing if it is rejected. -/
def slRngAccept (upper r : UInt64) : Option UInt64 :=
  if r < slRngLimit upper then some (r % upper) else none

/-- How a call stands: still in its loop, returned -1, or returned 0 with a result. -/
inductive Drawn where
  | drawing | failed | value (r : UInt64)
  deriving DecidableEq, Repr

def uniformLoop (upper : UInt64) : List (Option (FixedBytes 8)) → Drawn
  | [] => .drawing
  | rand :: later =>
    (slRngU64 rand).elim .failed fun r => (slRngAccept upper r).elim (uniformLoop upper later) .value

def slRngUniform (upper : UInt64) (draws : List (Option (FixedBytes 8))) : Drawn :=
  if upper = 0 then .failed else uniformLoop upper draws

section Uniform

variable {upper : UInt64}

theorem slRngAccept_some {r k : UInt64} (accepted : slRngAccept upper r = some k) :
    r < slRngLimit upper ∧ r % upper = k := by
  unfold slRngAccept at accepted
  split_ifs at accepted with below
  exact ⟨below, Option.some.inj accepted⟩

theorem slRngAccept_lt (positive : 0 < upper) {r k : UInt64} (accepted : slRngAccept upper r = some k) :
    k < upper := by
  rw [← (slRngAccept_some accepted).2]
  exact UInt64.mod_lt r positive

/-- A result is that of one of the draws. -/
theorem uniformLoop_value {draws : List (Option (FixedBytes 8))} {k : UInt64}
    (drawn : uniformLoop upper draws = .value k) :
    ∃ rand ∈ draws, ∃ r, slRngU64 rand = some r ∧ slRngAccept upper r = some k := by
  induction draws with
  | nil => simp [uniformLoop] at drawn
  | cons rand later ih =>
    rw [uniformLoop] at drawn
    cases read : slRngU64 rand with
    | none =>
      rw [read, Option.elim_none] at drawn
      cases drawn
    | some r =>
      rw [read, Option.elim_some] at drawn
      cases accepted : slRngAccept upper r with
      | none =>
        rw [accepted, Option.elim_none] at drawn
        obtain ⟨rand', member, found⟩ := ih drawn
        exact ⟨rand', List.mem_cons_of_mem rand member, found⟩
      | some result =>
        rw [accepted, Option.elim_some, Drawn.value.injEq] at drawn
        exact ⟨rand, List.mem_cons_self, r, read, drawn ▸ accepted⟩

theorem slRngUniform_value {draws : List (Option (FixedBytes 8))} {k : UInt64}
    (drawn : slRngUniform upper draws = .value k) :
    0 < upper ∧ ∃ rand ∈ draws, ∃ r, slRngU64 rand = some r ∧ slRngAccept upper r = some k := by
  unfold slRngUniform at drawn
  split_ifs at drawn with zero
  exact ⟨UInt64.pos_iff_ne_zero.mpr zero, uniformLoop_value drawn⟩

theorem slRngUniform_lt {draws : List (Option (FixedBytes 8))} {k : UInt64}
    (drawn : slRngUniform upper draws = .value k) : k < upper := by
  obtain ⟨positive, _, _, _, _, accepted⟩ := slRngUniform_value drawn
  exact slRngAccept_lt positive accepted

end Uniform

end SecureLink.Source.Random
