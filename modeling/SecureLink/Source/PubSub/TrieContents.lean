import SecureLink.Source.PubSub.Segments

/-!
# What a topic trie contains

The patterns under which a trie holds one subscriber, listed node by node. In a trie whose
tables have one entry for each edge, the list has no duplicates and `unsubscribe_all`
counts its length. On valid filters no two strings spell the same pattern, so patterns can
stand for filters.
-/
namespace SecureLink.Source.PubSub
open Library.BigEndian Library.Wildcard

namespace Node
variable {node child : Node} {branches : Branches} {e : Edge Bytes}

/-- Every table on the way down has one entry for each edge. -/
inductive Keyed : Node → Prop
  | mk {branches : Branches} {hashSubs exactSubs : List SubscriberId}
      (distinct : (branches.map Prod.fst).Nodup)
      (children : ∀ entry ∈ branches, Keyed entry.2) : Keyed (.mk branches hashSubs exactSubs)

theorem Keyed.distinct (h : node.Keyed) : (node.branches.map Prod.fst).Nodup := by
  cases h with
  | mk distinct _ => exact distinct

theorem Keyed.children (h : node.Keyed) : ∀ entry ∈ node.branches, entry.2.Keyed := by
  cases h with
  | mk _ children => exact children

theorem keyed_empty : empty.Keyed := .mk List.nodup_nil (by simp)

theorem mem_of_lookup (found : branches.lookup e = some child) : (e, child) ∈ branches := by
  induction branches with
  | nil => simp at found
  | cons entry rest ih =>
    obtain ⟨e₀, child₀⟩ := entry
    rw [lookup_branch] at found
    split at found
    next same =>
      cases found
      rw [same]
      exact List.mem_cons_self
    · exact List.mem_cons_of_mem _ (ih found)

theorem lookup_iff_mem (distinct : (branches.map Prod.fst).Nodup) :
    branches.lookup e = some child ↔ (e, child) ∈ branches := by
  refine ⟨mem_of_lookup, fun member => ?_⟩
  induction branches with
  | nil => simp at member
  | cons entry rest ih =>
    obtain ⟨e₀, child₀⟩ := entry
    obtain ⟨fresh, distinct⟩ := List.nodup_cons.mp distinct
    rw [lookup_branch]
    rcases List.mem_cons.mp member with same | later
    · cases same
      simp
    · have other : e ≠ e₀ := by
        rintro rfl
        exact fresh (List.mem_map.mpr ⟨_, later, rfl⟩)
      rw [if_neg other]
      exact ih distinct later

theorem keyed_child (h : node.Keyed) (found : node.child? e = some child) : child.Keyed :=
  h.children (e, child) (mem_of_lookup found)

/-- A child stored in place of another, or in a table without that edge. -/
theorem mem_putBranch {entry : Edge Bytes × Node} (member : entry ∈ putBranch branches e child) :
    entry = (e, child) ∨ entry ∈ branches := by
  induction branches with
  | nil => exact Or.inl (List.mem_singleton.mp member)
  | cons first rest ih =>
    simp only [putBranch] at member
    split at member
    · exact (List.mem_cons.mp member).imp_right (List.mem_cons_of_mem _)
    · rcases List.mem_cons.mp member with rfl | later
      · exact Or.inr List.mem_cons_self
      · exact (ih later).imp_right (List.mem_cons_of_mem _)

theorem putBranch_distinct (e : Edge Bytes) (child : Node)
    (distinct : (branches.map Prod.fst).Nodup) :
    ((putBranch branches e child).map Prod.fst).Nodup := by
  induction branches with
  | nil => simp [putBranch]
  | cons first rest ih =>
    obtain ⟨fresh, distinct⟩ := List.nodup_cons.mp distinct
    simp only [putBranch]
    split
    next same =>
      rw [same] at fresh
      exact List.nodup_cons.mpr ⟨fresh, distinct⟩
    next different =>
      refine List.nodup_cons.mpr ⟨fun again => ?_, ih distinct⟩
      obtain ⟨entry, member, same⟩ := List.mem_map.mp again
      rcases mem_putBranch member with rfl | old
      · exact different same.symm
      · exact fresh (same ▸ List.mem_map_of_mem old)

theorem Keyed.putChild (h : node.Keyed) (e : Edge Bytes) (hc : child.Keyed) :
    (node.putChild e child).Keyed := by
  refine .mk (putBranch_distinct e child h.distinct) fun entry member => ?_
  rcases mem_putBranch member with rfl | old
  · exact hc
  · exact h.children entry old

/-- The tables say nothing about the subscriber sets. -/
theorem Keyed.withSubs (h : node.Keyed) (hashSubs exactSubs : List SubscriberId) :
    (Node.mk node.branches hashSubs exactSubs).Keyed :=
  .mk h.distinct h.children

theorem subscribe_keyed (subId : SubscriberId) (segs : List Bytes) (h : node.Keyed) :
    (node.subscribe subId segs).1.Keyed := by
  induction segs generalizing node with
  | nil => exact h.withSubs _ _
  | cons seg rest ih =>
    simp only [subscribe]
    split
    · exact h.withSubs _ _
    · refine h.putChild _ (ih ?_)
      cases found : node.child? (edge seg) with
      | none => exact keyed_empty
      | some child => exact keyed_child h found

theorem unsubscribe_keyed (subId : SubscriberId) (segs : List Bytes) (h : node.Keyed) :
    (node.unsubscribe subId segs).1.Keyed := by
  induction segs generalizing node with
  | nil => exact h.withSubs _ _
  | cons seg rest ih =>
    simp only [unsubscribe]
    split
    · exact h.withSubs _ _
    · split
      · exact h
      next child found => exact h.putChild _ (ih (keyed_child h found))

theorem unsubscribeBranches_fst (subId : SubscriberId) (branches : Branches) :
    (unsubscribeBranches subId branches).1 =
      branches.map fun entry => (entry.1, (entry.2.unsubscribeAll subId).1) := by
  induction branches with
  | nil => simp [unsubscribeBranches]
  | cons entry rest ih => simp [unsubscribeBranches, ih]

theorem unsubscribeAll_keyed (subId : SubscriberId) (h : node.Keyed) :
    (node.unsubscribeAll subId).1.Keyed := by
  induction h with
  | mk distinct children ih =>
    simp only [unsubscribeAll, unsubscribeBranches_fst]
    refine .mk ?_ ?_
    · simpa [List.map_map, Function.comp_def] using distinct
    · intro entry member
      obtain ⟨old, there, rfl⟩ := List.mem_map.mp member
      exact ih old there

/-! ## Answers -/

/-- `subscribe` reports a new subscription exactly when there was none under its pattern. -/
theorem subscribe_answer (subId : SubscriberId) (segs : List Bytes) (node : Node) :
    (node.subscribe subId segs).2 = true ↔
      ¬ node.Holds (pattern segs).edges (pattern segs).tail subId := by
  induction segs generalizing node with
  | nil => simp [subscribe, pattern, Holds]
  | cons seg rest ih =>
    by_cases isHash : seg = [hash]
    · simp [subscribe, isHash, pattern, Holds]
    · have walk : (node.subscribe subId (seg :: rest)).2 =
          (((node.child? (edge seg)).getD empty).subscribe subId rest).2 := by
        simp [subscribe, isHash]
      rw [walk, ih, pattern_cons isHash, holds_getD]
      rfl

theorem unsubscribe_answer (subId : SubscriberId) (segs : List Bytes) (node : Node) :
    (node.unsubscribe subId segs).2 = true ↔
      node.Holds (pattern segs).edges (pattern segs).tail subId := by
  induction segs generalizing node with
  | nil => simp [unsubscribe, pattern, Holds]
  | cons seg rest ih =>
    by_cases isHash : seg = [hash]
    · simp [unsubscribe, isHash, pattern, Holds]
    · rw [pattern_cons isHash]
      cases found : node.child? (edge seg) with
      | none => simp [unsubscribe, isHash, found, Pattern.cons, Holds]
      | some child => simp [unsubscribe, isHash, found, Pattern.cons, Holds, ih]

/-! ## The patterns of one subscriber -/

mutual

/-- The patterns under which a node holds the subscriber, the node's own first. -/
def patterns (subId : SubscriberId) : Node → List (Pattern Bytes)
  | .mk branches hashSubs exactSubs =>
    (if exactSubs.contains subId then [⟨[], false⟩] else []) ++
      (if hashSubs.contains subId then [⟨[], true⟩] else []) ++ patternsBelow subId branches

def patternsBelow (subId : SubscriberId) : List (Edge Bytes × Node) → List (Pattern Bytes)
  | [] => []
  | (e, child) :: rest => (patterns subId child).map (Pattern.cons e) ++ patternsBelow subId rest

end

theorem patternsBelow_eq (subId : SubscriberId) (branches : Branches) :
    patternsBelow subId branches =
      branches.flatMap fun entry => (entry.2.patterns subId).map (Pattern.cons entry.1) := by
  induction branches with
  | nil => simp [patternsBelow]
  | cons entry rest ih => simp [patternsBelow, ih]

theorem unsubscribeBranches_count (subId : SubscriberId) (branches : Branches)
    (children : ∀ entry ∈ branches,
      (entry.2.unsubscribeAll subId).2 = (entry.2.patterns subId).length) :
    (unsubscribeBranches subId branches).2 = (patternsBelow subId branches).length := by
  induction branches with
  | nil => simp [unsubscribeBranches, patternsBelow]
  | cons entry rest ih =>
    have here := children entry List.mem_cons_self
    have later := ih fun entry member => children entry (List.mem_cons_of_mem _ member)
    simp [unsubscribeBranches, patternsBelow, here, later]

/-- The number that `unsubscribe_all` returns. -/
theorem unsubscribeAll_count (subId : SubscriberId) (h : node.Keyed) :
    (node.unsubscribeAll subId).2 = (node.patterns subId).length := by
  induction h with
  | @mk branches hashSubs exactSubs _ _ ih =>
    have below := unsubscribeBranches_count subId branches ih
    by_cases isExact : subId ∈ exactSubs <;> by_cases isOpen : subId ∈ hashSubs <;>
      simp [unsubscribeAll, patterns, below, isExact, isOpen] <;> omega

theorem mem_patterns (subId : SubscriberId) (h : node.Keyed) (p : Pattern Bytes) :
    p ∈ node.patterns subId ↔ node.Holds p.edges p.tail subId := by
  induction h generalizing p with
  | @mk table hashes exacts distinct _ ih =>
    obtain ⟨es, tail⟩ := p
    cases es with
    | nil =>
      cases tail <;> simp [patterns, patternsBelow_eq, Holds, hashSubs, exactSubs, Pattern.cons]
    | cons e es =>
      have here : ∀ own : Pattern Bytes, own.edges = [] → ⟨e :: es, tail⟩ ≠ own := by
        rintro own absent rfl
        cases absent
      simp only [patterns, patternsBelow_eq, Holds, child?, branches, lookup_iff_mem distinct,
        List.mem_append, List.mem_flatMap, List.mem_map]
      constructor
      · rintro ((own | own) | ⟨⟨e', child⟩, member, q, held, same⟩)
        · split at own
          · exact absurd (List.mem_singleton.mp own) (here _ rfl)
          · simp at own
        · split at own
          · exact absurd (List.mem_singleton.mp own) (here _ rfl)
          · simp at own
        · cases same
          exact ⟨child, member, (ih _ member q).mp held⟩
      · rintro ⟨child, member, held⟩
        exact Or.inr ⟨(e, child), member, ⟨es, tail⟩, (ih _ member ⟨es, tail⟩).mpr held, rfl⟩

theorem patterns_nodup (subId : SubscriberId) (h : node.Keyed) : (node.patterns subId).Nodup := by
  induction h with
  | @mk branches hashSubs exactSubs distinct _ ih =>
    have below : (patternsBelow subId branches).Nodup := by
      rw [patternsBelow_eq, List.nodup_flatMap]
      refine ⟨fun entry member => ?_, ?_⟩
      · refine (ih entry member).map fun p q same => ?_
        exact Pattern.ext (List.cons.inj (Pattern.mk.inj same).1).2 (Pattern.mk.inj same).2
      · refine (List.pairwise_map.mp distinct).imp fun different p left right => ?_
        obtain ⟨q, _, rfl⟩ := List.mem_map.mp left
        obtain ⟨q', _, same⟩ := List.mem_map.mp right
        exact different (List.cons.inj (Pattern.mk.inj same).1).1.symm
    have deeper : ∀ p ∈ patternsBelow subId branches, p.edges ≠ [] := by
      intro p member
      rw [patternsBelow_eq] at member
      obtain ⟨entry, _, inside⟩ := List.mem_flatMap.mp member
      obtain ⟨q, _, rfl⟩ := List.mem_map.mp inside
      simp
    have fresh : ∀ tail, (⟨[], tail⟩ : Pattern Bytes) ∉ patternsBelow subId branches :=
      fun tail member => deeper _ member rfl
    by_cases isExact : subId ∈ exactSubs <;> by_cases isOpen : subId ∈ hashSubs <;>
      simp [patterns, isExact, isOpen, below, fresh]

end Node

/-! ## Patterns of valid filters -/

/-- The segment an edge is spelled with. -/
def spelledEdge : Edge Bytes → Bytes
  | .exact seg => seg
  | .one => [plus]

theorem spelledEdge_edge (seg : Bytes) : spelledEdge (edge seg) = seg := by
  by_cases isPlus : seg = [plus] <;> simp [edge, isPlus, spelledEdge]

/-- The segments a pattern is spelled with. -/
def spelled (p : Pattern Bytes) : List Bytes :=
  p.edges.map spelledEdge ++ if p.tail then [[hash]] else []

/-- A `#` has nothing behind it. -/
def HashLast : List Bytes → Prop
  | [] => True
  | seg :: rest => (seg = [hash] → rest = []) ∧ HashLast rest

theorem spelled_pattern {segs : List Bytes} (h : HashLast segs) : spelled (pattern segs) = segs := by
  induction segs with
  | nil => simp [spelled, pattern]
  | cons seg rest ih =>
    obtain ⟨last, later⟩ := h
    by_cases isHash : seg = [hash]
    · simp [spelled, pattern, isHash, last isHash]
    · have front : spelled ((pattern rest).cons (edge seg)) =
          spelledEdge (edge seg) :: spelled (pattern rest) := rfl
      rw [pattern_cons isHash, front, spelledEdge_edge, ih later]

/-- One round of the scan of a filter: a `#` passes only where the string ends. -/
theorem validFilterLoop_step {fuel : Nat} {s : Bytes} (some : s ≠ [])
    (valid : validFilterLoop (fuel + 1) s = true) :
    (segment s = [hash] → (segment s).length = s.length) ∧
      validFilterLoop fuel (pastSegment s) = true := by
  simp only [validFilterLoop, List.isEmpty_iff, if_neg some] at valid
  split at valid
  · cases valid
  · split at valid
    next isPlus =>
      have different : [plus] ≠ [hash] := by decide
      exact ⟨fun isHash => absurd ((beq_iff_eq.mp isPlus).symm.trans isHash) different, valid⟩
    · split at valid
      next isHash =>
        split at valid
        · cases valid
        next whole => exact ⟨fun _ => by simpa using whole, valid⟩
      next notHash =>
        split at valid
        · cases valid
        · exact ⟨fun isHash => absurd (beq_iff_eq.mpr isHash) notHash, valid⟩

theorem hashLast_of_validLoop {fuel : Nat} {s : Bytes} (enough : s.length ≤ fuel)
    (closed : Closed s) (valid : validFilterLoop fuel s = true) : HashLast (segmentsAhead s) := by
  induction fuel generalizing s with
  | zero =>
    obtain rfl : s = [] := List.length_eq_zero_iff.mp (by omega)
    trivial
  | succ fuel ih =>
    by_cases empty : s = []
    · subst empty
      trivial
    · obtain ⟨ahead, closed'⟩ := segmentsAhead_step empty closed
      obtain ⟨last, later⟩ := validFilterLoop_step empty valid
      have shorter := pastSegment_length empty
      rw [ahead]
      refine ⟨fun isHash => ?_, ih (by omega) closed' later⟩
      rw [pastSegment_eq_nil (Nat.not_lt.mpr (Nat.le_of_eq (last isHash).symm))]
      rfl

/-- Valid filters that spell one pattern are one filter. -/
theorem pattern_split_injOn : Set.InjOn (fun filter => pattern (split filter))
    {filter | slTopicIsValidFilter filter = true} := by
  have hashLast : ∀ filter, slTopicIsValidFilter filter = true → HashLast (split filter) := by
    intro filter valid
    obtain ⟨some, closed⟩ := validFilter_ends valid
    rw [← segmentsAhead_of_ne some]
    refine hashLast_of_validLoop le_rfl closed ?_
    unfold slTopicIsValidFilter at valid
    split at valid
    · simp at valid
    · exact valid
  intro filter valid filter' valid' same
  have spell := congrArg spelled same
  rw [spelled_pattern (hashLast filter valid), spelled_pattern (hashLast filter' valid')] at spell
  exact split_injective spell

end SecureLink.Source.PubSub
