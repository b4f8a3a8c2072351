import Mathlib.SetTheory.Cardinal.Finite
import SecureLink.Source.Random.Rng

/-!
# Rejection sampling is unbiased

src/sl_rng.c:52-65 accepts the draws below the largest multiple of `upper` that is at most
the largest 64-bit number. The quotients of the accepted draws with a given remainder are
then all numbers below the same bound, whatever the remainder, and the bound on the draws is
more than half of their number.
-/
namespace SecureLink.Guarantees.UniformDraws
open Library.BigEndian Source.Random

/-- How many multiples of `upper` fit below the limit. -/
def rounds (upper : UInt64) : Nat := (2 ^ 64 - 1) / upper.toNat

theorem slRngLimit_toNat (upper : UInt64) : (slRngLimit upper).toNat = upper.toNat * rounds upper := by
  have whole := Nat.div_add_mod (2 ^ 64 - 1) upper.toNat
  have most : uint64Max.toNat = 2 ^ 64 - 1 := rfl
  have less : uint64Max % upper ≤ uint64Max := by
    rw [UInt64.le_iff_toNat_le, UInt64.toNat_mod]
    exact Nat.mod_le _ _
  rw [slRngLimit, UInt64.toNat_sub_of_le _ _ less, UInt64.toNat_mod, most, rounds]
  omega

section Counting

variable {upper k : UInt64}

theorem toNat_ofNat_below {n : Nat} (below : n < upper.toNat * rounds upper) :
    (UInt64.ofNat n).toNat = n := by
  have limit := (slRngLimit upper).toNat_lt
  rw [slRngLimit_toNat] at limit
  rw [UInt64.toNat_ofNat']
  exact Nat.mod_eq_of_lt (Nat.lt_trans below limit)

theorem accepted_iff (r : UInt64) :
    slRngAccept upper r = some k ↔ r.toNat < upper.toNat * rounds upper ∧ r.toNat % upper.toNat = k.toNat := by
  rw [← slRngLimit_toNat, ← UInt64.toNat_mod, UInt64.toNat_inj, ← UInt64.lt_iff_toNat_lt]
  refine ⟨slRngAccept_some, fun ⟨below, remainder⟩ => ?_⟩
  rw [slRngAccept, if_pos below, remainder]

/-- The draws with a given result are numbered by their quotients. -/
theorem card_accepted (below : k < upper) :
    Nat.card { r : UInt64 // slRngAccept upper r = some k } = rounds upper := by
  have small := UInt64.lt_iff_toNat_lt.mp below
  have quotient (r : { r : UInt64 // slRngAccept upper r = some k }) :
      r.1.toNat / upper.toNat < rounds upper :=
    Nat.div_lt_of_lt_mul ((accepted_iff r.1).mp r.2).1
  rw [← Nat.card_fin (rounds upper)]
  apply Nat.card_eq_of_bijective fun r => (⟨r.1.toNat / upper.toNat, quotient r⟩ : Fin (rounds upper))
  constructor
  · intro r s same
    have remainders := ((accepted_iff r.1).mp r.2).2.trans ((accepted_iff s.1).mp s.2).2.symm
    apply Subtype.ext
    apply UInt64.toNat_inj.mp
    rw [← Nat.div_add_mod r.1.toNat upper.toNat, ← Nat.div_add_mod s.1.toNat upper.toNat, remainders,
      show r.1.toNat / upper.toNat = s.1.toNat / upper.toNat from Fin.mk.inj same]
  · intro i
    have bound : upper.toNat * i.1 + k.toNat < upper.toNat * rounds upper :=
      calc upper.toNat * i.1 + k.toNat < upper.toNat * (i.1 + 1) := by
            rw [Nat.mul_succ]
            omega
        _ ≤ upper.toNat * rounds upper := Nat.mul_le_mul_left _ i.2
    have value := toNat_ofNat_below bound
    refine ⟨⟨UInt64.ofNat (upper.toNat * i.1 + k.toNat), (accepted_iff _).mpr ⟨?_, ?_⟩⟩, Fin.ext ?_⟩
    · rw [value]
      exact bound
    · rw [value, Nat.mul_add_mod, Nat.mod_eq_of_lt small]
    · change (UInt64.ofNat (upper.toNat * i.1 + k.toNat)).toNat / upper.toNat = i.1
      rw [value, Nat.mul_add_div (Nat.zero_lt_of_lt small), Nat.div_eq_of_lt small, Nat.add_zero]

theorem card_all_accepted (upper : UInt64) :
    Nat.card { r : UInt64 // (slRngAccept upper r).isSome } = upper.toNat * rounds upper := by
  have accepts (r : UInt64) : (slRngAccept upper r).isSome ↔ r.toNat < upper.toNat * rounds upper := by
    rw [← slRngLimit_toNat, ← UInt64.lt_iff_toNat_lt, slRngAccept]
    split <;> simp_all
  rw [← Nat.card_fin (upper.toNat * rounds upper)]
  apply Nat.card_eq_of_bijective fun r : { r : UInt64 // (slRngAccept upper r).isSome } =>
    (⟨r.1.toNat, (accepts r.1).mp r.2⟩ : Fin (upper.toNat * rounds upper))
  constructor
  · intro r s same
    exact Subtype.ext (UInt64.toNat_inj.mp (Fin.mk.inj same))
  · intro i
    have value := toNat_ofNat_below i.2
    exact ⟨⟨UInt64.ofNat i.1, (accepts _).mpr (by rw [value]; exact i.2)⟩, Fin.ext value⟩

/-- The part that is cut off is shorter than `upper`, and `upper` is not longer than the rest. -/
theorem half_accepted (positive : 0 < upper) : 2 ^ 63 ≤ upper.toNat * rounds upper := by
  have nonzero : 0 < upper.toNat := UInt64.lt_iff_toNat_lt.mp positive
  have once : 1 ≤ rounds upper := by
    apply (Nat.one_le_div_iff nonzero).mpr
    have := upper.toNat_lt
    omega
  have whole := Nat.div_add_mod (2 ^ 64 - 1) upper.toNat
  have rest := Nat.mod_lt (2 ^ 64 - 1) nonzero
  have least := Nat.mul_le_mul_left upper.toNat once
  unfold rounds at *
  omega

end Counting

/-! ## Draws -/

/-- What `RAND_bytes` wrote when the number read from it is `r`. -/
def drawOf (r : UInt64) : Option (FixedBytes 8) := some ⟨encode 8 r.toNat, encode_length 8 r.toNat⟩

theorem shift_octet (acc : Nat) (b : UInt8) :
    UInt64.ofNat acc <<< 8 ||| b.toUInt64 = UInt64.ofNat (acc * 256 + b.toNat) := by
  have octet := b.toNat_lt
  have shifted : (acc % 2 ^ 64) <<< 8 % 2 ^ 64 = (acc % 2 ^ 56) <<< 8 := by
    rw [Nat.shiftLeft_eq, Nat.shiftLeft_eq]
    omega
  apply UInt64.toNat_inj.mp
  simp only [UInt64.toNat_or, UInt64.toNat_shiftLeft, UInt64.toNat_ofNat', UInt8.toNat_toUInt64]
  rw [show (8 : UInt64).toNat % 64 = 8 from rfl, shifted, ← Nat.shiftLeft_add_eq_or_of_lt octet,
    Nat.shiftLeft_eq]
  omega

theorem foldl_octets (bytes : Bytes) (acc : Nat) :
    bytes.foldl (fun (out : UInt64) byte => out <<< 8 ||| byte.toUInt64) (UInt64.ofNat acc) =
      UInt64.ofNat (bytes.foldl (fun acc b => acc * 256 + b.toNat) acc) := by
  induction bytes generalizing acc with
  | nil => rfl
  | cons b rest ih => rw [List.foldl_cons, List.foldl_cons, shift_octet, ih]

theorem slRngU64_drawOf (r : UInt64) : slRngU64 (drawOf r) = some r := by
  have read : (encode 8 r.toNat).foldl (fun (out : UInt64) byte => out <<< 8 ||| byte.toUInt64)
      (UInt64.ofNat 0) = r := by
    rw [foldl_octets, foldl_encode, Nat.zero_mul, Nat.zero_add, Nat.mod_eq_of_lt (show _ < 256 ^ 8 from r.toNat_lt),
      UInt64.ofNat_toNat]
  exact congrArg some read

section Loop

variable {upper : UInt64} (positive : 0 < upper)
include positive

/-- An accepted draw is the result; after a rejected one the later draws decide. -/
theorem slRngUniform_draw (r : UInt64) (draws : List (Option (FixedBytes 8))) :
    slRngUniform upper (drawOf r :: draws) =
      (slRngAccept upper r).elim (slRngUniform upper draws) .value := by
  have nonzero : upper ≠ 0 := UInt64.pos_iff_ne_zero.mp positive
  rw [slRngUniform, slRngUniform, if_neg nonzero, if_neg nonzero, uniformLoop, slRngU64_drawOf,
    Option.elim_some]

theorem draw_value_iff (r k : UInt64) :
    slRngUniform upper [drawOf r] = .value k ↔ slRngAccept upper r = some k := by
  have nonzero : upper ≠ 0 := UInt64.pos_iff_ne_zero.mp positive
  rw [slRngUniform_draw positive, slRngUniform, if_neg nonzero]
  cases slRngAccept upper r with
  | none => simp [uniformLoop]
  | some result => simp

end Loop

/-- Every result below `upper` comes of equally many draws, there are no other results, a draw is
the result or leaves it to the later ones, and at least half of all draws are results. -/
theorem uniform_unbiased {upper : UInt64} (positive : 0 < upper) :
    (∀ j k, j < upper → k < upper →
      Nat.card { r : UInt64 // slRngUniform upper [drawOf r] = .value j } =
        Nat.card { r : UInt64 // slRngUniform upper [drawOf r] = .value k }) ∧
    (∀ draws k, slRngUniform upper draws = .value k → k < upper) ∧
    (∀ r draws,
      (∃ k, slRngUniform upper [drawOf r] = .value k ∧ slRngUniform upper (drawOf r :: draws) = .value k) ∨
      slRngUniform upper [drawOf r] = .drawing ∧
        slRngUniform upper (drawOf r :: draws) = slRngUniform upper draws) ∧
    2 ^ 64 ≤ 2 * Nat.card { r : UInt64 // ∃ k, slRngUniform upper [drawOf r] = .value k } := by
  have nonzero : upper ≠ 0 := UInt64.pos_iff_ne_zero.mp positive
  refine ⟨fun j k hj hk => ?_, fun draws k => slRngUniform_lt, fun r draws => ?_, ?_⟩
  · simp only [draw_value_iff positive, card_accepted hj, card_accepted hk]
  · rw [slRngUniform_draw positive, slRngUniform_draw positive]
    cases slRngAccept upper r with
    | none => exact Or.inr ⟨if_neg nonzero, rfl⟩
    | some k => exact Or.inl ⟨k, rfl, rfl⟩
  · have half := half_accepted positive
    simp only [draw_value_iff positive, ← Option.isSome_iff_exists, card_all_accepted]
    omega

/-- A range that divides no power of two. -/
theorem thirds_unbiased :
    Nat.card { r : UInt64 // slRngUniform 3 [drawOf r] = .value 0 } =
        Nat.card { r : UInt64 // slRngUniform 3 [drawOf r] = .value 2 } ∧
      2 ^ 63 ≤ Nat.card { r : UInt64 // ∃ k, slRngUniform 3 [drawOf r] = .value k } := by
  obtain ⟨even, -, -, half⟩ := @uniform_unbiased 3 (by decide)
  exact ⟨even 0 2 (by decide) (by decide), by omega⟩

end SecureLink.Guarantees.UniformDraws
