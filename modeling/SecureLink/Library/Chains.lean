import Mathlib.Algebra.BigOperators.Group.Finset.Basic

/-!
# Chained hash tables

A table of chains of entries, each entry with its key, and a hash that says in which
chain a key is looked for. Look-up takes the first entry with the key, an entry is
changed in place, and a new one goes to the front of its chain. The entries counted
chain by chain are the keys that look-up finds.
-/
namespace SecureLink.Library.Chains

variable {κ ε : Type*} (bucketOf : κ → Nat) (key : ε → κ)

/-- Every entry is in the chain of its key, and no key has two entries. -/
structure Placed (t : Nat → List ε) : Prop where
  nodup : ∀ b, ((t b).map key).Nodup
  home : ∀ b, ∀ e ∈ t b, bucketOf (key e) = b

theorem placed_empty : Placed bucketOf key (fun _ => []) := ⟨by simp, by simp⟩

variable [DecidableEq κ]

def find (t : Nat → List ε) (k : κ) : Option ε := (t (bucketOf k)).find? (fun e => key e = k)

/-- Change the first entry with the key. -/
def modifyFirst (k : κ) (f : ε → ε) : List ε → List ε
  | [] => []
  | e :: rest => if key e = k then f e :: rest else e :: modifyFirst k f rest

def modify (t : Nat → List ε) (k : κ) (f : ε → ε) : Nat → List ε :=
  Function.update t (bucketOf k) (modifyFirst key k f (t (bucketOf k)))

def push (t : Nat → List ε) (e : ε) : Nat → List ε :=
  Function.update t (bucketOf (key e)) (e :: t (bucketOf (key e)))

/-- The table with an entry for the key of `e`, which is `e` itself if there was none. -/
def ensure (t : Nat → List ε) (e : ε) : Nat → List ε :=
  match find bucketOf key t (key e) with
  | some _ => t
  | none => push bucketOf key t e

/-- The entries of the first chains that satisfy `p`, counted in one pass. -/
def total (p : ε → Bool) (buckets : Nat) (t : Nat → List ε) : Nat :=
  (List.range buckets).foldl (fun seen b => seen + (t b).countP p) 0

variable {bucketOf key}

section Chain
variable {k : κ} {f : ε → ε} (keeps : ∀ e, key (f e) = key e)
include keeps

theorem map_modifyFirst (chain : List ε) : (modifyFirst key k f chain).map key = chain.map key := by
  induction chain with
  | nil => rfl
  | cons e rest ih =>
    by_cases here : key e = k
    · simp [modifyFirst, here, keeps]
    · simp [modifyFirst, here, ih]

theorem find_modifyFirst (chain : List ε) (k' : κ) :
    (modifyFirst key k f chain).find? (fun e => key e = k') =
      if k' = k then (chain.find? (fun e => key e = k)).map f
      else chain.find? (fun e => key e = k') := by
  induction chain with
  | nil => simp [modifyFirst]
  | cons e rest ih =>
    by_cases here : key e = k
    · by_cases same : k' = k
      · simp [modifyFirst, here, keeps, same]
      · have other : ¬ k = k' := fun eq => same eq.symm
        simp [modifyFirst, here, keeps, same, other]
    · by_cases same : k' = k
      · simp only [if_pos same] at ih
        simp [modifyFirst, here, same, ← ih]
      · simp only [if_neg same] at ih
        simp only [modifyFirst, if_neg here, List.find?_cons, ih, if_neg same]

theorem find_modify (t : Nat → List ε) (k' : κ) :
    find bucketOf key (modify bucketOf key t k f) k' =
      if k' = k then (find bucketOf key t k).map f else find bucketOf key t k' := by
  by_cases together : bucketOf k' = bucketOf k
  · simp only [find, modify, together, Function.update_self, find_modifyFirst keeps]
  · have different : k' ≠ k := fun same => together (congrArg bucketOf same)
    simp only [find, modify, Function.update_of_ne together, if_neg different]

theorem Placed.modify {t : Nat → List ε} (placed : Placed bucketOf key t) :
    Placed bucketOf key (modify bucketOf key t k f) := by
  have sameKeys : ∀ b, (Chains.modify bucketOf key t k f b).map key = (t b).map key := by
    intro b
    by_cases here : b = bucketOf k
    · subst here
      simp only [Chains.modify, Function.update_self, map_modifyFirst keeps]
    · simp only [Chains.modify, Function.update_of_ne here]
  constructor
  · intro b
    rw [sameKeys]
    exact placed.nodup b
  · intro b e member
    have listed : key e ∈ (t b).map key := sameKeys b ▸ List.mem_map_of_mem member
    obtain ⟨e', member', same⟩ := List.mem_map.mp listed
    rw [← same]
    exact placed.home b e' member'

end Chain

theorem find_push (t : Nat → List ε) (e : ε) (k : κ) :
    find bucketOf key (push bucketOf key t e) k =
      if k = key e then some e else find bucketOf key t k := by
  by_cases same : k = key e
  · simp [find, push, same]
  · by_cases together : bucketOf k = bucketOf (key e)
    · have other : ¬ key e = k := fun eq => same eq.symm
      simp [find, push, together, other, same]
    · simp only [find, push, Function.update_of_ne together, if_neg same]

theorem Placed.push {t : Nat → List ε} (placed : Placed bucketOf key t) {e : ε}
    (fresh : find bucketOf key t (key e) = none) : Placed bucketOf key (push bucketOf key t e) := by
  have absent : key e ∉ (t (bucketOf (key e))).map key := by
    simpa [find, List.find?_eq_none] using fresh
  constructor
  · intro b
    by_cases here : b = bucketOf (key e)
    · subst here
      simpa only [Chains.push, Function.update_self, List.map_cons, List.nodup_cons] using
        ⟨absent, placed.nodup _⟩
    · simpa only [Chains.push, Function.update_of_ne here] using placed.nodup b
  · intro b e' member
    by_cases here : b = bucketOf (key e)
    · subst here
      rw [Chains.push, Function.update_self] at member
      rcases List.mem_cons.mp member with rfl | older
      · rfl
      · exact placed.home _ e' older
    · rw [Chains.push, Function.update_of_ne here] at member
      exact placed.home b e' member

theorem find_ensure (t : Nat → List ε) (e : ε) (k : κ) :
    find bucketOf key (ensure bucketOf key t e) k =
      if k = key e then some ((find bucketOf key t (key e)).getD e) else find bucketOf key t k := by
  unfold ensure
  cases found : find bucketOf key t (key e) with
  | some e' =>
    by_cases same : k = key e
    · rw [if_pos same, same]
      exact found
    · rw [if_neg same]
  | none => exact find_push t e k

theorem Placed.ensure {t : Nat → List ε} (placed : Placed bucketOf key t) (e : ε) :
    Placed bucketOf key (ensure bucketOf key t e) := by
  unfold Chains.ensure
  cases found : find bucketOf key t (key e) with
  | some e' => exact placed
  | none => exact placed.push found

/-- In a placed table look-up finds every entry. -/
theorem Placed.find_iff {t : Nat → List ε} (placed : Placed bucketOf key t) {k : κ} {e : ε} :
    find bucketOf key t k = some e ↔ e ∈ t (bucketOf k) ∧ key e = k := by
  constructor
  · intro found
    exact ⟨List.mem_of_find?_eq_some found, by simpa using List.find?_some found⟩
  · rintro ⟨member, rfl⟩
    cases found : find bucketOf key t (key e) with
    | none =>
      have missed := List.find?_eq_none.mp found e member
      simp at missed
    | some e' =>
      have same : key e' = key e := by simpa using List.find?_some found
      exact congrArg some
        (List.inj_on_of_nodup_map (placed.nodup _) (List.mem_of_find?_eq_some found) member same)

theorem total_eq_sum (p : ε → Bool) (buckets : Nat) (t : Nat → List ε) :
    total p buckets t = ∑ b ∈ Finset.range buckets, (t b).countP p := by
  induction buckets with
  | zero => rfl
  | succ n ih =>
    rw [Finset.sum_range_succ, ← ih, total, total, List.range_succ, List.foldl_append]
    rfl

/-- The entries counted are the keys under which look-up finds one. -/
theorem Placed.total_eq_card {t : Nat → List ε} (placed : Placed bucketOf key t) {p : ε → Bool}
    {buckets : Nat} (inRange : ∀ k, bucketOf k < buckets) (keys : Finset κ)
    (found : ∀ k, k ∈ keys ↔ ∃ e, find bucketOf key t k = some e ∧ p e = true) :
    total p buckets t = keys.card := by
  let keysIn : Nat → Finset κ := fun b => (((t b).filter p).map key).toFinset
  have mem_keysIn : ∀ b k, k ∈ keysIn b ↔ ∃ e ∈ t b, p e = true ∧ key e = k := by
    intro b k
    simp [keysIn, and_assoc]
  have card : ∀ b, (t b).countP p = (keysIn b).card := by
    intro b
    have nodup : (((t b).filter p).map key).Nodup :=
      (placed.nodup b).sublist (List.filter_sublist.map key)
    rw [List.toFinset_card_of_nodup nodup, List.length_map, List.countP_eq_length_filter]
  have disjoint : ∀ b ∈ Finset.range buckets, ∀ b' ∈ Finset.range buckets, b ≠ b' →
      Disjoint (keysIn b) (keysIn b') := by
    intro b _ b' _ apart
    refine Finset.disjoint_left.mpr fun k inB inB' => apart ?_
    obtain ⟨e, member, _, rfl⟩ := (mem_keysIn b k).mp inB
    obtain ⟨e', member', _, same⟩ := (mem_keysIn b' _).mp inB'
    rw [← placed.home b e member, ← placed.home b' e' member', same]
  have union : keys = (Finset.range buckets).biUnion keysIn := by
    ext k
    simp only [found, placed.find_iff, Finset.mem_biUnion, Finset.mem_range, mem_keysIn]
    constructor
    · rintro ⟨e, ⟨member, same⟩, counted⟩
      exact ⟨bucketOf k, inRange k, e, member, counted, same⟩
    · rintro ⟨b, _, e, member, counted, rfl⟩
      exact ⟨e, ⟨placed.home b e member ▸ member, rfl⟩, counted⟩
  rw [total_eq_sum, union, Finset.card_biUnion disjoint]
  exact Finset.sum_congr rfl fun b _ => card b

end SecureLink.Library.Chains
