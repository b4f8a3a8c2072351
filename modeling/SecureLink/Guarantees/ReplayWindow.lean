import Mathlib.Algebra.Order.Interval.Finset.Basic
import Mathlib.Order.Interval.Finset.Nat
import SecureLink.Library.Runs
import SecureLink.Source.Record.ReplayGuard

/-!
# The replay window

What the replay guard is for, over the list of the numbers it accepted: a number is
admitted once, if it is newer than all before or less than a window behind the newest.
The bitmap is a representation of that list.
-/
namespace SecureLink.Guarantees.ReplayWindow
open Library.WordBitmap Library.Runs Source.Record

/-- The largest accepted number, 0 initially. -/
def newest (acc : List UInt64) : Nat := (acc.map UInt64.toNat).foldr max 0

/-- The specification of an answer, given the numbers accepted before. -/
def Admits (w : Window) (acc : List UInt64) (seq : UInt64) : Prop :=
  seq ≠ 0 ∧ seq ∉ acc ∧
    (newest acc < seq.toNat ∨ newest acc - seq.toNat < w.size.toNat)

theorem newest_append (acc : List UInt64) (seq : UInt64) :
    newest (acc ++ [seq]) = max (newest acc) seq.toNat := by
  induction acc with
  | nil => simp [newest]
  | cons head tail ih =>
    simp only [newest, List.cons_append, List.map_cons, List.foldr_cons] at ih ⊢
    rw [ih, Nat.max_assoc]

theorem le_newest {acc : List UInt64} {seq : UInt64} (member : seq ∈ acc) :
    seq.toNat ≤ newest acc := by
  induction acc with
  | nil => simp at member
  | cons head tail ih =>
    simp only [newest, List.map_cons, List.foldr_cons]
    rcases List.mem_cons.mp member with rfl | later
    · exact Nat.le_max_left _ _
    · exact Nat.le_trans (ih later) (Nat.le_max_right _ _)

/-- Distinct nonzero 64-bit numbers can be counted in 64 bits. -/
theorem length_lt_of_nodup {acc : List UInt64} (nodup : acc.Nodup) (nonzero : 0 ∉ acc) :
    acc.length < 2 ^ 64 := by
  have distinct : (acc.map UInt64.toNat).Nodup := nodup.map (fun _ _ => UInt64.toNat_inj.mp)
  have inside : (acc.map UInt64.toNat).toFinset ⊆ Finset.Ico 1 (2 ^ 64) := by
    intro n hn
    obtain ⟨seq, member, rfl⟩ := List.mem_map.mp (List.mem_toFinset.mp hn)
    have positive : seq.toNat ≠ 0 := by
      intro zero
      have same : seq = 0 := UInt64.toNat_inj.mp zero
      exact nonzero (same ▸ member)
    exact Finset.mem_Ico.mpr ⟨Nat.one_le_iff_ne_zero.mpr positive, seq.toNat_lt⟩
  have card := Finset.card_le_card inside
  rw [List.toFinset_card_of_nodup distinct, List.length_map, Nat.card_Ico] at card
  omega

variable {w : Window}

/-- The guard represents the numbers accepted: bit `p` stands for `highest - p`. -/
structure Records (g : ReplayGuard w) (acc : List UInt64) : Prop where
  highest : g.highest.toNat = newest acc
  count : g.accepted.toNat = acc.length
  nodup : acc.Nodup
  nonzero : 0 ∉ acc
  bits : ∀ p < w.size.toNat,
    bitAt g.bitmap p = true ↔ ∃ seq ∈ acc, seq.toNat + p = g.highest.toNat

theorem records_fresh : Records ({} : ReplayGuard w) [] where
  highest := rfl
  count := rfl
  nodup := List.nodup_nil
  nonzero := by simp
  bits p _ := by simp

/-- Inside the window the tested bit tells whether the number was accepted. -/
theorem Records.testBit_iff {g : ReplayGuard w} {acc : List UInt64} (h : Records g acc)
    {seq : UInt64} (le : seq ≤ g.highest)
    (inside : g.highest.toNat - seq.toNat < w.size.toNat) : g.testBit seq = true ↔ seq ∈ acc := by
  have le' := UInt64.le_iff_toNat_le.mp le
  rw [g.testBit_eq, g.indexOf_eq seq le inside, h.bits _ inside]
  constructor
  · rintro ⟨other, member, sum⟩
    have same : other = seq := UInt64.toNat_inj.mp (by omega)
    exact same ▸ member
  · exact fun member => ⟨seq, member, by omega⟩

/-- Everything `check_and_update` can do. -/
theorem checkAndUpdate_cases (g : ReplayGuard w) (seq : UInt64) :
    ((g.checkAndUpdate seq).2 = false ∧
      (seq = 0 ∨ seq ≤ g.highest ∧ (w.size.toNat ≤ g.highest.toNat - seq.toNat ∨
        g.highest.toNat - seq.toNat < w.size.toNat ∧ g.testBit seq = true)) ∧
      (g.checkAndUpdate seq).1.bitmap = g.bitmap ∧
      (g.checkAndUpdate seq).1.highest = g.highest ∧
      (g.checkAndUpdate seq).1.accepted = g.accepted) ∨
    ((g.checkAndUpdate seq).2 = true ∧ seq ≠ 0 ∧ g.highest < seq ∧
      (g.checkAndUpdate seq).1.bitmap = ({ g.advanceTo seq with highest := seq }.setBit seq).bitmap ∧
      (g.checkAndUpdate seq).1.highest = seq ∧
      (g.checkAndUpdate seq).1.accepted = g.accepted + 1) ∨
    ((g.checkAndUpdate seq).2 = true ∧ seq ≠ 0 ∧ seq ≤ g.highest ∧
      g.highest.toNat - seq.toNat < w.size.toNat ∧ g.testBit seq = false ∧
      (g.checkAndUpdate seq).1.bitmap = (g.setBit seq).bitmap ∧
      (g.checkAndUpdate seq).1.highest = g.highest ∧
      (g.checkAndUpdate seq).1.accepted = g.accepted + 1) := by
  have advanced : (g.advanceTo seq).accepted = g.accepted := by
    simp only [ReplayGuard.advanceTo]
    split <;> rfl
  unfold ReplayGuard.checkAndUpdate
  by_cases zero : seq = 0
  · exact Or.inl ⟨by simp [zero], Or.inl zero, by simp [zero]⟩
  · by_cases newer : seq > g.highest
    · refine Or.inr (Or.inl ?_)
      simp [zero, newer, ReplayGuard.setBit, advanced]
    · have le : seq ≤ g.highest := UInt64.not_lt.mp newer
      by_cases old : g.highest - seq ≥ w.kWindow
      · have old' : w.size.toNat ≤ g.highest.toNat - seq.toNat := by
          rwa [ge_iff_le, UInt64.le_iff_toNat_le, w.kWindow_toNat,
            UInt64.toNat_sub_of_le _ _ le] at old
        exact Or.inl ⟨by simp [zero, newer, old], Or.inr ⟨le, Or.inl old'⟩, by simp [zero, newer, old]⟩
      · have inside : g.highest.toNat - seq.toNat < w.size.toNat := by
          rwa [ge_iff_le, UInt64.le_iff_toNat_le, w.kWindow_toNat,
            UInt64.toNat_sub_of_le _ _ le, Nat.not_le] at old
        cases seen : g.testBit seq with
        | true =>
          exact Or.inl ⟨by simp [zero, newer, old], Or.inr ⟨le, Or.inr ⟨inside, rfl⟩⟩,
            by simp [zero, newer, old]⟩
        | false =>
          refine Or.inr (Or.inr ⟨?_, zero, le, inside, rfl, ?_⟩) <;>
            simp [zero, newer, old, ReplayGuard.setBit]

/-- The answer is the specified one. -/
theorem Records.answer {g : ReplayGuard w} {acc : List UInt64} (h : Records g acc) (seq : UInt64) :
    (g.checkAndUpdate seq).2 = true ↔ Admits w acc seq := by
  rw [Admits, ← h.highest]
  rcases checkAndUpdate_cases g seq with ⟨refused, why, _⟩ | ⟨ok, positive, newer, _⟩ |
    ⟨ok, positive, le, inside, unseen, _⟩
  · simp only [refused, Bool.false_eq_true, false_iff]
    rintro ⟨positive, unseen, window⟩
    rcases why with zero | ⟨le, old | ⟨inside, seen⟩⟩
    · exact positive zero
    · have := UInt64.le_iff_toNat_le.mp le
      omega
    · exact unseen ((h.testBit_iff le inside).mp seen)
  · have newer' := UInt64.lt_iff_toNat_lt.mp newer
    refine iff_of_true ok ⟨positive, fun member => ?_, Or.inl newer'⟩
    have := le_newest member
    rw [← h.highest] at this
    omega
  · have fresh : seq ∉ acc := fun member => by
      simp [(h.testBit_iff le inside).mpr member] at unseen
    exact iff_of_true ok ⟨positive, fresh, Or.inr inside⟩

/-- Accepting a new number: order, counter and duplicates, whatever happens to the bits. -/
theorem Records.accept {g g' : ReplayGuard w} {acc : List UInt64} (h : Records g acc) {seq : UInt64}
    (positive : seq ≠ 0) (fresh : seq ∉ acc) (accepted : g'.accepted = g.accepted + 1)
    (highest : g'.highest.toNat = max g.highest.toNat seq.toNat)
    (bits : ∀ p < w.size.toNat, bitAt g'.bitmap p = true ↔
      ∃ s ∈ acc ++ [seq], s.toNat + p = g'.highest.toNat) : Records g' (acc ++ [seq]) := by
  have nodup : (acc ++ [seq]).Nodup := by
    rw [List.nodup_append]
    refine ⟨h.nodup, List.nodup_singleton seq, ?_⟩
    rintro a ha b hb rfl
    exact fresh (List.mem_singleton.mp hb ▸ ha)
  have nonzero : 0 ∉ acc ++ [seq] := by
    simp [h.nonzero, positive.symm]
  have room := length_lt_of_nodup nodup nonzero
  refine ⟨?_, ?_, nodup, nonzero, bits⟩
  · rw [highest, newest_append, h.highest]
  · rw [List.length_append, List.length_singleton] at room ⊢
    rw [accepted, UInt64.toNat_add, h.count]
    exact Nat.mod_eq_of_lt room

theorem Records.step {g : ReplayGuard w} {acc : List UInt64} (h : Records g acc) (seq : UInt64) :
    Records (g.checkAndUpdate seq).1
      (if (g.checkAndUpdate seq).2 then acc ++ [seq] else acc) := by
  have answer := h.answer seq
  rcases checkAndUpdate_cases g seq with ⟨refused, _, bitmap, highest, accepted⟩ |
    ⟨ok, positive, newer, bitmap, highest, accepted⟩ |
    ⟨ok, positive, le, inside, unseen, bitmap, highest, accepted⟩
  · simp only [refused]
    exact ⟨by rw [highest]; exact h.highest, by rw [accepted]; exact h.count, h.nodup, h.nonzero,
      by rw [bitmap, highest]; exact h.bits⟩
  · -- a newer number: the window moves up, bit 0 is its own
    have newer' := UInt64.lt_iff_toNat_lt.mp newer
    obtain ⟨_, fresh, _⟩ := answer.mp ok
    rw [if_pos ok]
    refine h.accept positive fresh accepted (by rw [highest]; omega) (fun p hp => ?_)
    have own : (({ g.advanceTo seq with highest := seq } : ReplayGuard w).indexOf seq).toNat = 0 := by
      rw [ReplayGuard.indexOf_eq _ _ (UInt64.le_refl seq)] <;> simp only [Nat.sub_self]
      exact Nat.lt_of_lt_of_le (by decide) w.size_ge
    rw [bitmap, highest, ReplayGuard.bitAt_setBit, own]
    simp only [g.bitAt_advanceTo seq (UInt64.le_of_lt newer) hp, Bool.or_eq_true, Bool.and_eq_true,
      decide_eq_true_eq, beq_iff_eq, List.mem_append, List.mem_singleton]
    constructor
    · rintro (⟨reach, set⟩ | rfl)
      · obtain ⟨s, member, sum⟩ := (h.bits _ (by omega)).mp set
        exact ⟨s, Or.inl member, by omega⟩
      · exact ⟨seq, Or.inr rfl, by omega⟩
    · rintro ⟨s, member | rfl, sum⟩
      · have bound := le_newest member
        rw [← h.highest] at bound
        exact Or.inl ⟨by omega, (h.bits _ (by omega)).mpr ⟨s, member, by omega⟩⟩
      · exact Or.inr (by omega)
  · -- a number inside the window: only its bit is set
    have le' := UInt64.le_iff_toNat_le.mp le
    obtain ⟨_, fresh, _⟩ := answer.mp ok
    rw [if_pos ok]
    refine h.accept positive fresh accepted (by rw [highest]; omega) (fun p hp => ?_)
    rw [bitmap, highest, ReplayGuard.bitAt_setBit, g.indexOf_eq seq le inside]
    simp only [Bool.or_eq_true, beq_iff_eq, List.mem_append, List.mem_singleton, h.bits p hp]
    constructor
    · rintro (⟨s, member, sum⟩ | rfl)
      · exact ⟨s, Or.inl member, sum⟩
      · exact ⟨seq, Or.inr rfl, by omega⟩
    · rintro ⟨s, member | rfl, sum⟩
      · exact Or.inl ⟨s, member, sum⟩
      · exact Or.inr (by omega)

/-- In every run from a fresh guard the representation holds. -/
theorem records_run (w : Window) (seqs : List UInt64) :
    Records (run ReplayGuard.checkAndUpdate ({} : ReplayGuard w) seqs)
      (accepted ReplayGuard.checkAndUpdate ({} : ReplayGuard w) seqs) := by
  have kept : Records (run ReplayGuard.checkAndUpdate ({} : ReplayGuard w) seqs)
      ([] ++ accepted ReplayGuard.checkAndUpdate ({} : ReplayGuard w) seqs) :=
    run_accepted_invariant Records (fun _ _ seq h => h.step seq) seqs records_fresh
  simpa using kept

/-- The guard meets its specification after any run, for any window and any next number. -/
theorem replay_guard_meets_specification (w : Window) (seqs : List UInt64) (seq : UInt64) :
    let g := run ReplayGuard.checkAndUpdate ({} : ReplayGuard w) seqs
    let acc := accepted ReplayGuard.checkAndUpdate ({} : ReplayGuard w) seqs
    ((g.checkAndUpdate seq).2 = true ↔ Admits w acc seq) ∧
    g.wouldAccept seq = (g.checkAndUpdate seq).2 ∧
    g.highest.toNat = newest acc ∧
    g.accepted.toNat = acc.length := by
  have records := records_run w seqs
  exact ⟨records.answer seq, ReplayGuard.wouldAccept_eq _ seq, records.highest, records.count⟩

end SecureLink.Guarantees.ReplayWindow
