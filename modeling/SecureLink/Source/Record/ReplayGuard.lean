import SecureLink.Library.WordBitmap

/-!
# Replay guard

inc/replay_guard.hpp:36-126. The template parameter with its static assertions is `Window`;
std::array of 64-bit words is a vector of that length. Loop indices are below kWords
and fit in the source's 32-bit signed integers, so they are natural numbers here.
-/
namespace SecureLink.Source.Record
open Library.WordBitmap

/-- A window size that passes the static assertions. -/
structure Window where
  size : UInt32
  atLeast : 64 ≤ size
  powerOfTwo : size &&& (size - 1) = 0

namespace Window

def kWindow (w : Window) : UInt64 := w.size.toUInt64

def kWords (w : Window) : Nat := w.size.toNat / 64

theorem size_ge (w : Window) : 64 ≤ w.size.toNat := by
  simpa [UInt32.le_iff_toNat_le] using w.atLeast

theorem size_isPowerOfTwo (w : Window) : w.size.toNat.isPowerOfTwo := by
  have positive : w.size.toNat ≠ 0 := by
    have := w.size_ge
    omega
  have one : (1 : UInt32) ≤ w.size := by
    simp only [UInt32.le_iff_toNat_le, UInt32.reduceToNat]
    omega
  refine (Nat.and_sub_one_eq_zero_iff_isPowerOfTwo positive).mp ?_
  have zero := congrArg UInt32.toNat w.powerOfTwo
  rwa [UInt32.toNat_and, UInt32.toNat_sub_of_le _ _ one] at zero

/-- The words hold exactly the window. -/
theorem kWords_mul (w : Window) : 64 * w.kWords = w.size.toNat := by
  obtain ⟨k, hk⟩ := w.size_isPowerOfTwo
  have large : 2 ^ 6 ≤ 2 ^ k := hk ▸ w.size_ge
  have exponent : 6 ≤ k := (Nat.pow_le_pow_iff_right (by decide)).mp large
  have divides : 64 ∣ w.size.toNat := by
    rw [hk]
    exact Nat.pow_dvd_pow 2 exponent
  exact Nat.mul_div_cancel' divides

theorem kWindow_toNat (w : Window) : w.kWindow.toNat = w.size.toNat := by
  simp [kWindow]

/-- The mask of the window is reduction modulo its size. -/
theorem mask_toNat (w : Window) (x : UInt64) :
    (x &&& (w.kWindow - 1)).toNat = x.toNat % w.size.toNat := by
  have one : (1 : UInt64) ≤ w.kWindow := by
    have := w.size_ge
    simp only [UInt64.le_iff_toNat_le, kWindow_toNat, UInt64.reduceToNat]
    omega
  rw [UInt64.toNat_and, UInt64.toNat_sub_of_le _ _ one, kWindow_toNat]
  obtain ⟨k, hk⟩ := w.size_isPowerOfTwo
  rw [hk]
  exact Nat.and_two_pow_sub_one_eq_mod x.toNat k

end Window

structure ReplayGuard (w : Window) where
  bitmap : Vector (BitVec 64) w.kWords := Vector.replicate w.kWords 0#64
  highest : UInt64 := 0
  accepted : UInt64 := 0
  rejectedReplay : UInt64 := 0
  rejectedTooOld : UInt64 := 0

namespace ReplayGuard

variable {w : Window}

section Shift

variable {n : Nat}

def moveWord (wordShift i : Nat) (hi : i < n) (bitmap : Vector (BitVec 64) n) : BitVec 64 :=
  if wordShift ≤ i then getElem bitmap (i - wordShift) (Nat.sub_lt_of_lt hi) else 0

def carryBits (bitShift i : Nat) (hi : i < n) (bitmap : Vector (BitVec 64) n) : BitVec 64 :=
  let high := bitmap[i] <<< bitShift
  let low := if 0 < i then bitmap[i - 1] >>> (64 - bitShift) else 0
  high ||| low

/-- The word loop of `advance_to`. -/
def shiftWords (bitmap : Vector (BitVec 64) n) (wordShift : UInt32) : Vector (BitVec 64) n :=
  if wordShift > 0 then sweepDown (moveWord wordShift.toNat) n (Nat.le_refl n) bitmap else bitmap

/-- The bit loop of `advance_to`. -/
def shiftBits (bitmap : Vector (BitVec 64) n) (bitShift : UInt32) : Vector (BitVec 64) n :=
  if bitShift > 0 then sweepDown (carryBits bitShift.toNat) n (Nat.le_refl n) bitmap else bitmap

end Shift

def advanceTo (g : ReplayGuard w) (newHigh : UInt64) : ReplayGuard w :=
  let shift := newHigh - g.highest
  if shift ≥ w.kWindow then { g with bitmap := Vector.replicate w.kWords 0#64 }
  else
    let wordShift := (shift / 64).toUInt32
    let bitShift := (shift % 64).toUInt32
    { g with bitmap := shiftBits (shiftWords g.bitmap wordShift) bitShift }

def indexOf (g : ReplayGuard w) (seq : UInt64) : UInt32 :=
  let pos := if g.highest ≥ seq then g.highest - seq else w.kWindow - 1
  (pos &&& (w.kWindow - 1)).toUInt32

theorem indexOf_lt (g : ReplayGuard w) (seq : UInt64) : (g.indexOf seq).toNat < w.size.toNat := by
  have positive : 0 < w.size.toNat := Nat.lt_of_lt_of_le (by decide) w.size_ge
  simp only [indexOf, UInt64.toNat_toUInt32, w.mask_toNat]
  exact Nat.lt_of_le_of_lt (Nat.mod_le _ _) (Nat.mod_lt _ positive)

theorem indexOf_word_lt (g : ReplayGuard w) (seq : UInt64) :
    (g.indexOf seq).toNat / 64 < w.kWords := by
  have inside := g.indexOf_lt seq
  have words := w.kWords_mul
  omega

def testBit (g : ReplayGuard w) (seq : UInt64) : Bool :=
  let idx := (g.indexOf seq).toNat
  have inside : idx / 64 < w.kWords := g.indexOf_word_lt seq
  (g.bitmap[idx / 64] >>> (idx % 64)) &&& 1#64 != 0#64

def setBit (g : ReplayGuard w) (seq : UInt64) : ReplayGuard w :=
  let idx := (g.indexOf seq).toNat
  have inside : idx / 64 < w.kWords := g.indexOf_word_lt seq
  { g with bitmap := g.bitmap.set (idx / 64) (g.bitmap[idx / 64] ||| 1#64 <<< (idx % 64)) }

def checkAndUpdate (g : ReplayGuard w) (seq : UInt64) : ReplayGuard w × Bool :=
  if seq = 0 then (g, false)
  else if seq > g.highest then
    let g := g.advanceTo seq
    let g := { g with highest := seq }
    let g := g.setBit seq
    ({ g with accepted := g.accepted + 1 }, true)
  else
    let diff := g.highest - seq
    if diff ≥ w.kWindow then ({ g with rejectedTooOld := g.rejectedTooOld + 1 }, false)
    else if g.testBit seq then ({ g with rejectedReplay := g.rejectedReplay + 1 }, false)
    else
      let g := g.setBit seq
      ({ g with accepted := g.accepted + 1 }, true)

def wouldAccept (g : ReplayGuard w) (seq : UInt64) : Bool :=
  if seq = 0 then false
  else if seq > g.highest then true
  else
    let diff := g.highest - seq
    if diff ≥ w.kWindow then false else !g.testBit seq

/-! ## What each helper does to the bits -/

theorem bitAt_shiftWords {n : Nat} (bitmap : Vector (BitVec 64) n) (wordShift : UInt32) {p : Nat}
    (hp : p < 64 * n) :
    bitAt (shiftWords bitmap wordShift) p =
      (decide (64 * wordShift.toNat ≤ p) && bitAt bitmap (p - 64 * wordShift.toNat)) := by
  unfold shiftWords
  split
  · refine bitAt_moved (fun i hi => ?_) hp
    refine sweepDown_getElem (fun i hi v v' same => ?_) _ _ hi
    unfold moveWord
    split
    · exact same _ (by omega)
    · rfl
  · have zero : wordShift = 0 := by simpa using ‹¬ wordShift > 0›
    simp [zero]

theorem bitAt_shiftBits {n : Nat} (bitmap : Vector (BitVec 64) n) (bitShift : UInt32)
    (small : bitShift.toNat < 64) {p : Nat} (hp : p < 64 * n) :
    bitAt (shiftBits bitmap bitShift) p =
      (decide (bitShift.toNat ≤ p) && bitAt bitmap (p - bitShift.toNat)) := by
  unfold shiftBits
  split
  · refine bitAt_carried small (fun i hi => ?_) hp
    refine sweepDown_getElem (fun i hi v v' same => ?_) _ _ hi
    simp only [carryBits, same i (Nat.le_refl i), same (i - 1) (by omega)]
  · have zero : bitShift = 0 := by simpa using ‹¬ bitShift > 0›
    simp [zero]

theorem testBit_eq (g : ReplayGuard w) (seq : UInt64) :
    g.testBit seq = bitAt g.bitmap (g.indexOf seq).toNat := by
  rw [testBit, bitAt, dif_pos (g.indexOf_word_lt seq)]
  exact shifted_and_one _ _

theorem bitAt_setBit (g : ReplayGuard w) (seq : UInt64) (p : Nat) :
    bitAt (g.setBit seq).bitmap p = (bitAt g.bitmap p || p == (g.indexOf seq).toNat) :=
  bitAt_set g.bitmap (g.indexOf_word_lt seq) p

/-- Inside the window the index is the distance from the highest number. -/
theorem indexOf_eq (g : ReplayGuard w) (seq : UInt64) (le : seq ≤ g.highest)
    (inside : g.highest.toNat - seq.toNat < w.size.toNat) :
    (g.indexOf seq).toNat = g.highest.toNat - seq.toNat := by
  have small := w.size.toNat_lt
  simp only [indexOf, ge_iff_le, le, if_true, UInt64.toNat_toUInt32, w.mask_toNat,
    UInt64.toNat_sub_of_le _ _ le]
  rw [Nat.mod_eq_of_lt inside, Nat.mod_eq_of_lt (by omega)]

/-- Advancing shifts the bits up by the distance. -/
theorem bitAt_advanceTo (g : ReplayGuard w) (newHigh : UInt64) (le : g.highest ≤ newHigh) {p : Nat}
    (hp : p < w.size.toNat) :
    bitAt (g.advanceTo newHigh).bitmap p =
      (decide (newHigh.toNat - g.highest.toNat ≤ p) &&
        bitAt g.bitmap (p - (newHigh.toNat - g.highest.toNat))) := by
  have small := w.size.toNat_lt
  have words := w.kWords_mul
  have distance := UInt64.toNat_sub_of_le _ _ le
  generalize newHigh.toNat - g.highest.toNat = d at distance ⊢
  unfold advanceTo
  by_cases far : newHigh - g.highest ≥ w.kWindow
  · have beyond : ¬ d ≤ p := by
      rw [ge_iff_le, UInt64.le_iff_toNat_le, w.kWindow_toNat, distance] at far
      omega
    simp [far, beyond]
  · have near : d < w.size.toNat := by
      rw [ge_iff_le, UInt64.le_iff_toNat_le, w.kWindow_toNat, distance] at far
      omega
    have wordShift : ((newHigh - g.highest) / 64).toUInt32.toNat = d / 64 := by
      simp only [UInt64.toNat_toUInt32, UInt64.toNat_div, distance, UInt64.reduceToNat]
      omega
    have bitShift : ((newHigh - g.highest) % 64).toUInt32.toNat = d % 64 := by
      simp only [UInt64.toNat_toUInt32, UInt64.toNat_mod, distance, UInt64.reduceToNat]
      omega
    simp only [far, if_false]
    rw [bitAt_shiftBits _ _ (by omega) (by omega), bitAt_shiftWords _ _ (by omega), wordShift,
      bitShift]
    by_cases reach : d ≤ p
    · have back : p - d % 64 - 64 * (d / 64) = p - d := by omega
      simp [back, reach, show d % 64 ≤ p by omega, show 64 * (d / 64) ≤ p - d % 64 by omega]
    · simp only [reach, decide_false, Bool.false_and, Bool.and_eq_false_imp, decide_eq_true_eq]
      intro _
      simp [show ¬ 64 * (d / 64) ≤ p - d % 64 by omega]

/-- The read-only test foretells the answer. -/
theorem wouldAccept_eq (g : ReplayGuard w) (seq : UInt64) :
    g.wouldAccept seq = (g.checkAndUpdate seq).2 := by
  unfold wouldAccept checkAndUpdate
  by_cases zero : seq = 0
  · simp [zero]
  · by_cases newer : seq > g.highest
    · simp [zero, newer]
    · by_cases old : g.highest - seq ≥ w.kWindow
      · simp [zero, newer, old]
      · cases g.testBit seq <;> simp [zero, newer, old]

end ReplayGuard
end SecureLink.Source.Record
