import Mathlib.Algebra.Order.BigOperators.Group.Finset
import SecureLink.Library.Chains

/-!
# Sums over chained hash tables

The sum of a weight over all entries of a table: what a new entry, a change in place and
a pass over all chains do to it, and that it is the sum over the keys that look-up finds.
-/
namespace SecureLink.Library.Chains

variable {κ ε σ : Type*} {bucketOf : κ → Nat} {key : ε → κ} {w : ε → Nat}

/-- The weight of a chain. -/
def load (w : ε → Nat) : List ε → Nat
  | [] => 0
  | e :: rest => w e + load w rest

/-- The weight of the first chains of a table. -/
def weigh (w : ε → Nat) (buckets : Nat) (t : Nat → List ε) : Nat :=
  ∑ b ∈ Finset.range buckets, load w (t b)

theorem load_map (h : ε → ε) (chain : List ε) :
    load w (chain.map h) = load (fun e => w (h e)) chain := by
  induction chain with
  | nil => rfl
  | cons e rest ih => rw [List.map_cons, load, load, ih]

theorem weigh_mono {v : ε → Nat} (le : ∀ e, w e ≤ v e) (buckets : Nat) (t : Nat → List ε) :
    weigh w buckets t ≤ weigh v buckets t := by
  unfold weigh
  apply Finset.sum_le_sum
  intro b _
  induction t b with
  | nil => exact Nat.le_refl _
  | cons e rest ih => exact Nat.add_le_add (le e) ih

theorem weigh_empty (w : ε → Nat) (buckets : Nat) : weigh w buckets (fun _ => []) = 0 := by
  unfold weigh
  exact Finset.sum_eq_zero (fun _ _ => rfl)

theorem weigh_update {buckets b : Nat} (inside : b < buckets) (t : Nat → List ε) (chain : List ε) :
    weigh w buckets (Function.update t b chain) + load w (t b) = weigh w buckets t + load w chain := by
  unfold weigh
  have member : b ∈ Finset.range buckets := Finset.mem_range.mpr inside
  rw [← Finset.add_sum_erase _ _ member, ← Finset.add_sum_erase (Finset.range buckets) _ member,
    Function.update_self]
  have others : ∑ x ∈ (Finset.range buckets).erase b, load w (Function.update t b chain x) =
      ∑ x ∈ (Finset.range buckets).erase b, load w (t x) := by
    apply Finset.sum_congr rfl
    intro x hx
    rw [Function.update_of_ne (Finset.ne_of_mem_erase hx)]
  rw [others]
  omega

theorem le_load {chain : List ε} {e : ε} (member : e ∈ chain) : w e ≤ load w chain := by
  induction chain with
  | nil => cases member
  | cons first rest ih =>
    rw [load]
    rcases List.mem_cons.mp member with rfl | later
    · exact Nat.le_add_right _ _
    · exact Nat.le_trans (ih later) (Nat.le_add_left _ _)

section Keys
variable [DecidableEq κ]

theorem load_modifyFirst {k : κ} {f : ε → ε} {chain : List ε} {e : ε}
    (found : chain.find? (fun e => key e = k) = some e) :
    load w (modifyFirst key k f chain) + w e = load w chain + w (f e) := by
  induction chain with
  | nil => cases found
  | cons first rest ih =>
    by_cases here : key first = k
    · obtain rfl : first = e := by simpa [List.find?_cons, here] using found
      rw [modifyFirst, if_pos here, load, load]
      omega
    · have later := ih (by simpa [List.find?_cons, here] using found)
      rw [modifyFirst, if_neg here, load, load]
      omega

variable {buckets : Nat} (inRange : ∀ k, bucketOf k < buckets)
include inRange

omit [DecidableEq κ] in
theorem weigh_push (t : Nat → List ε) (e : ε) :
    weigh w buckets (push bucketOf key t e) = weigh w buckets t + w e := by
  have sum := weigh_update (w := w) (inRange (key e)) t (e :: t (bucketOf (key e)))
  rw [load] at sum
  unfold push
  omega

theorem weigh_ensure (t : Nat → List ε) {e : ε} (weightless : w e = 0) :
    weigh w buckets (ensure bucketOf key t e) = weigh w buckets t := by
  unfold ensure
  split
  next => rfl
  next => rw [weigh_push inRange, weightless, Nat.add_zero]

/-- A change in place moves the sum by the change of the entry. -/
theorem weigh_modify {t : Nat → List ε} {k : κ} (f : ε → ε) {e : ε}
    (found : find bucketOf key t k = some e) :
    weigh w buckets (modify bucketOf key t k f) + w e = weigh w buckets t + w (f e) := by
  have sum := weigh_update (w := w) (inRange k) t (modifyFirst key k f (t (bucketOf k)))
  have chain := load_modifyFirst (w := w) (f := f) found
  unfold modify
  omega

theorem le_weigh {t : Nat → List ε} {k : κ} {e : ε} (found : find bucketOf key t k = some e) :
    w e ≤ weigh w buckets t := by
  have chain : w e ≤ load w (t (bucketOf k)) := le_load (List.mem_of_find?_eq_some found)
  have table : load w (t (bucketOf k)) ≤ weigh w buckets t :=
    Finset.single_le_sum (f := fun b => load w (t b)) (fun _ _ => Nat.zero_le _)
      (Finset.mem_range.mpr (inRange k))
  exact Nat.le_trans chain table

omit inRange

theorem load_eq_sum {chain : List ε} (nodup : (chain.map key).Nodup) :
    load w chain = ∑ k ∈ (chain.map key).toFinset,
      ((chain.find? (fun e => key e = k)).elim 0 w) := by
  induction chain with
  | nil => rfl
  | cons e rest ih =>
    rw [List.map_cons, List.nodup_cons] at nodup
    have absent : key e ∉ (rest.map key).toFinset := by simpa using nodup.1
    rw [List.map_cons, List.toFinset_cons, Finset.sum_insert absent, load, ih nodup.2]
    congr 1
    · simp
    · apply Finset.sum_congr rfl
      intro k hk
      have other : key e ≠ k := fun same => absent (same ▸ hk)
      simp [other]

include inRange

/-- The sum over the entries is the sum over the keys, of which only those in the table count. -/
theorem Placed.weigh_eq_sum {t : Nat → List ε} (placed : Placed bucketOf key t) :
    ∃ keys : Finset κ, (∀ k ∉ keys, find bucketOf key t k = none) ∧
      ∀ w, weigh w buckets t = ∑ k ∈ keys, (find bucketOf key t k).elim 0 w := by
  let keysIn : Nat → Finset κ := fun b => ((t b).map key).toFinset
  have home : ∀ b, ∀ k ∈ keysIn b, bucketOf k = b := by
    intro b k member
    obtain ⟨e, inChain, rfl⟩ := List.mem_map.mp (List.mem_toFinset.mp member)
    exact placed.home b e inChain
  refine ⟨(Finset.range buckets).biUnion keysIn, ?_, ?_⟩
  · intro k outside
    apply List.find?_eq_none.mpr
    intro e inChain same
    apply outside
    have member : k ∈ keysIn (bucketOf k) :=
      List.mem_toFinset.mpr (List.mem_map.mpr ⟨e, inChain, by simpa using same⟩)
    exact Finset.mem_biUnion.mpr ⟨_, Finset.mem_range.mpr (inRange k), member⟩
  · intro w
    rw [Finset.sum_biUnion, weigh]
    · apply Finset.sum_congr rfl
      intro b _
      rw [load_eq_sum (placed.nodup b)]
      apply Finset.sum_congr rfl
      intro k hk
      rw [find, home b k hk]
    · intro b _ b' _ apart
      apply Finset.disjoint_left.mpr
      intro k inB inB'
      exact apart ((home b k inB).symm.trans (home b' k inB'))

end Keys

section Pass
variable (f : σ → ε → σ × ε)

/-- One pass over a chain: every entry is changed in place, with a state carried along. -/
def visit : σ → List ε → σ × List ε
  | s, [] => (s, [])
  | s, e :: rest =>
    let here := f s e
    let later := visit here.1 rest
    (later.1, here.2 :: later.2)

/-- One pass over the first chains, in order. -/
def visitAll : Nat → σ → (Nat → List ε) → σ × (Nat → List ε)
  | 0, s, t => (s, t)
  | n + 1, s, t =>
    let before := visitAll n s t
    let chain := visit f before.1 (before.2 n)
    (chain.1, Function.update before.2 n chain.2)

variable {f} {h : ε → ε} (changes : ∀ s e, (f s e).2 = h e)
include changes

theorem visit_chain (s : σ) (chain : List ε) : (visit f s chain).2 = chain.map h := by
  induction chain generalizing s with
  | nil => rfl
  | cons e rest ih => rw [visit, ih, changes, List.map_cons]

theorem visitAll_chain (n : Nat) (s : σ) (t : Nat → List ε) (b : Nat) :
    (visitAll f n s t).2 b = if b < n then (t b).map h else t b := by
  induction n with
  | zero => rfl
  | succ n ih =>
    by_cases here : b = n
    · subst here
      simp only [visitAll, Function.update_self, visit_chain changes, ih, if_neg (Nat.lt_irrefl b),
        if_pos (Nat.lt_succ_self b)]
    · simp only [visitAll, Function.update_of_ne here, ih]
      have same : b < n ↔ b < n + 1 := by omega
      simp only [same]

/-- The table behind a pass weighs what the changed entries weigh. -/
theorem weigh_visitAll (n : Nat) (s : σ) (t : Nat → List ε) :
    weigh w n (visitAll f n s t).2 = weigh (fun e => w (h e)) n t := by
  unfold weigh
  apply Finset.sum_congr rfl
  intro b hb
  rw [visitAll_chain changes, if_pos (Finset.mem_range.mp hb), load_map]

section Keys
variable [DecidableEq κ] (keeps : ∀ e, key (h e) = key e)
include keeps

theorem find_visitAll {n : Nat} (inRange : ∀ k, bucketOf k < n) (s : σ) (t : Nat → List ε) (k : κ) :
    find bucketOf key (visitAll f n s t).2 k = (find bucketOf key t k).map h := by
  rw [find, visitAll_chain changes, if_pos (inRange k), List.find?_map, find]
  simp only [Function.comp_def, keeps]

omit [DecidableEq κ] in
theorem Placed.visitAll {t : Nat → List ε} (placed : Placed bucketOf key t) (n : Nat) (s : σ) :
    Placed bucketOf key (visitAll f n s t).2 := by
  have chains : ∀ b, ((Chains.visitAll f n s t).2 b).map key = (t b).map key := by
    intro b
    rw [visitAll_chain changes]
    split
    next => rw [List.map_map]; exact List.map_congr_left (fun e _ => keeps e)
    next => rfl
  constructor
  · intro b
    rw [chains]
    exact placed.nodup b
  · intro b e member
    have listed : key e ∈ (t b).map key := chains b ▸ List.mem_map_of_mem member
    obtain ⟨e', member', same⟩ := List.mem_map.mp listed
    rw [← same]
    exact placed.home b e' member'

end Keys

variable (value : σ → Nat)
  (pays : ∀ s e, w e ≤ value s → value (f s e).1 + w e = value s + w (h e))
include pays

omit changes in
/-- A pass that books every change of weight books the change of the whole chain. -/
theorem visit_value (s : σ) (chain : List ε) (enough : load w chain ≤ value s) :
    value (visit f s chain).1 + load w chain = value s + load (fun e => w (h e)) chain := by
  induction chain generalizing s with
  | nil => rfl
  | cons e rest ih =>
    rw [load] at enough
    have here := pays s e (by omega)
    have later := ih (f s e).1 (by omega)
    simp only [visit, load]
    omega

theorem visitAll_value {n : Nat} {s : σ} {t : Nat → List ε} (enough : weigh w n t ≤ value s) :
    value (visitAll f n s t).1 + weigh w n t = value s + weigh (fun e => w (h e)) n t := by
  induction n with
  | zero => rfl
  | succ n ih =>
    unfold weigh at ih enough ⊢
    rw [Finset.sum_range_succ] at enough ⊢
    rw [Finset.sum_range_succ]
    have before := ih (Nat.le_trans (Nat.le_add_right _ _) enough)
    -- the pass has not reached the chain of bucket `n` yet
    have rest : (visitAll f n s t).2 n = t n := by
      rw [visitAll_chain changes, if_neg (Nat.lt_irrefl n)]
    have chain := visit_value value pays (visitAll f n s t).1 (t n) (by omega)
    simp only [visitAll, rest]
    omega

omit changes pays in
/-- A pass that adds a weight for every entry adds the weight of the chain. -/
theorem visit_adds (adds : ∀ s e, value (f s e).1 = value s + w e) (s : σ) (chain : List ε) :
    value (visit f s chain).1 = value s + load w chain := by
  induction chain generalizing s with
  | nil => rfl
  | cons e rest ih =>
    simp only [visit, load, ih, adds]
    omega

omit pays in
theorem visitAll_adds (adds : ∀ s e, value (f s e).1 = value s + w e) (n : Nat) (s : σ)
    (t : Nat → List ε) : value (visitAll f n s t).1 = value s + weigh w n t := by
  induction n with
  | zero => rfl
  | succ n ih =>
    have rest : (visitAll f n s t).2 n = t n := by
      rw [visitAll_chain changes, if_neg (Nat.lt_irrefl n)]
    unfold weigh at ih ⊢
    rw [Finset.sum_range_succ]
    simp only [visitAll, rest, visit_adds value adds, ih]
    omega

end Pass

end SecureLink.Library.Chains
