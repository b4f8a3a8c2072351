import Mathlib.Data.Finset.Card
import SecureLink.Library.Runs
import SecureLink.Source.PubSub.TrieContents

/-!
# The topic trie as a set of subscriptions

What src/topic_trie.cpp is for: a set of pairs of a filter and a subscriber. With valid
filters every call answers as that set does, the counter is its size, and `match` finds
each subscriber that has some matching filter once.
-/
namespace SecureLink.Guarantees.TrieRefinement
open Library.BigEndian Library.Runs Source.PubSub

inductive TrieOp where
  | subscribe (filter : Bytes) (subId : SubscriberId)
  | unsubscribe (filter : Bytes) (subId : SubscriberId)
  | unsubscribeAll (subId : SubscriberId)

/-- What a call returns: whether the set changed, or how many pairs it lost. -/
inductive Answer where
  | changed (yes : Bool)
  | removed (n : Nat)
  deriving DecidableEq, Repr

def trieStep (trie : TopicTrie) : TrieOp → TopicTrie × Answer
  | .subscribe filter subId =>
    ((trie.subscribe filter subId).1, .changed (trie.subscribe filter subId).2)
  | .unsubscribe filter subId =>
    ((trie.unsubscribe filter subId).1, .changed (trie.unsubscribe filter subId).2)
  | .unsubscribeAll subId => ((trie.unsubscribeAll subId).1, .removed (trie.unsubscribeAll subId).2)

/-- The abstract trie. -/
abbrev Subscriptions := Finset (Bytes × SubscriberId)

variable {trie : TopicTrie} {pairs : Subscriptions} {filter : Bytes}

def setStep (pairs : Subscriptions) : TrieOp → Subscriptions × Answer
  | .subscribe filter subId =>
    (insert (filter, subId) pairs, .changed (decide ((filter, subId) ∉ pairs)))
  | .unsubscribe filter subId =>
    (pairs.erase (filter, subId), .changed (decide ((filter, subId) ∈ pairs)))
  | .unsubscribeAll subId =>
    (pairs.filter (·.2 ≠ subId), .removed (pairs.filter (·.2 = subId)).card)

def TrieOp.Valid : TrieOp → Prop
  | .subscribe filter _ | .unsubscribe filter _ => slTopicIsValidFilter filter = true
  | .unsubscribeAll _ => True

/-- The trie stands for the set. -/
structure Refines (trie : TopicTrie) (pairs : Subscriptions) : Prop where
  keyed : trie.root.Keyed
  valid : ∀ pair ∈ pairs, slTopicIsValidFilter pair.1 = true
  subscribed : ∀ p subId, trie.Subscribed p subId ↔
    ∃ filter, (filter, subId) ∈ pairs ∧ p = pattern (split filter)
  count : trie.totalSubs = pairs.card

theorem refines_empty : Refines {} ∅ where
  keyed := Node.keyed_empty
  valid := by simp
  subscribed p subId := iff_of_false (TopicTrie.subscribed_empty p subId) (by simp)
  count := rfl

/-- For a valid filter the pair can be read off the trie. -/
theorem Refines.mem_iff (h : Refines trie pairs) (valid : slTopicIsValidFilter filter = true)
    (subId : SubscriberId) :
    (filter, subId) ∈ pairs ↔ trie.Subscribed (pattern (split filter)) subId := by
  rw [h.subscribed]
  constructor
  · intro member
    exact ⟨filter, member, rfl⟩
  · rintro ⟨filter', member, same⟩
    rw [pattern_split_injOn valid (h.valid _ member) same]
    exact member

theorem subscribe_follows (h : Refines trie pairs) (valid : slTopicIsValidFilter filter = true)
    (subId : SubscriberId) :
    Refines (trie.subscribe filter subId).1 (insert (filter, subId) pairs) ∧
    (trie.subscribe filter subId).2 = decide ((filter, subId) ∉ pairs) := by
  have answer : (trie.subscribe filter subId).2 = decide ((filter, subId) ∉ pairs) := by
    rw [Bool.eq_iff_iff, decide_eq_true_eq, h.mem_iff valid]
    exact Node.subscribe_answer subId (split filter) trie.root
  have counted : (trie.subscribe filter subId).1.totalSubs =
      if (trie.subscribe filter subId).2 then trie.totalSubs + 1 else trie.totalSubs := rfl
  refine ⟨⟨Node.subscribe_keyed subId (split filter) h.keyed, ?_, fun p other => ?_, ?_⟩, answer⟩
  · intro pair member
    rcases Finset.mem_insert.mp member with rfl | old
    · exact valid
    · exact h.valid pair old
  · rw [TopicTrie.subscribed_subscribe, h.subscribed]
    constructor
    · rintro (⟨filter', member, same⟩ | ⟨rfl, rfl⟩)
      · exact ⟨filter', Finset.mem_insert_of_mem member, same⟩
      · exact ⟨filter, Finset.mem_insert_self _ _, rfl⟩
    · rintro ⟨filter', member, rfl⟩
      rcases Finset.mem_insert.mp member with new | old
      · cases new
        exact Or.inr ⟨rfl, rfl⟩
      · exact Or.inl ⟨filter', old, rfl⟩
  · rw [counted, answer, h.count]
    by_cases member : (filter, subId) ∈ pairs
    · simp [member]
    · simp [member, Finset.card_insert_of_notMem member]

theorem unsubscribe_follows (h : Refines trie pairs) (valid : slTopicIsValidFilter filter = true)
    (subId : SubscriberId) :
    Refines (trie.unsubscribe filter subId).1 (pairs.erase (filter, subId)) ∧
    (trie.unsubscribe filter subId).2 = decide ((filter, subId) ∈ pairs) := by
  have answer : (trie.unsubscribe filter subId).2 = decide ((filter, subId) ∈ pairs) := by
    rw [Bool.eq_iff_iff, decide_eq_true_eq, h.mem_iff valid]
    exact Node.unsubscribe_answer subId (split filter) trie.root
  have counted : (trie.unsubscribe filter subId).1.totalSubs =
      if (trie.unsubscribe filter subId).2 then trie.totalSubs - 1 else trie.totalSubs := rfl
  refine ⟨⟨Node.unsubscribe_keyed subId (split filter) h.keyed,
    fun pair member => h.valid pair (Finset.mem_of_mem_erase member), fun p other => ?_, ?_⟩, answer⟩
  · rw [TopicTrie.subscribed_unsubscribe, h.subscribed]
    constructor
    · rintro ⟨⟨filter', member, rfl⟩, other⟩
      refine ⟨filter', Finset.mem_erase.mpr ⟨fun same => other ?_, member⟩, rfl⟩
      cases same
      exact ⟨rfl, rfl⟩
    · rintro ⟨filter', member, rfl⟩
      obtain ⟨different, old⟩ := Finset.mem_erase.mp member
      refine ⟨⟨filter', old, rfl⟩, ?_⟩
      rintro ⟨same, rfl⟩
      -- two filters with one pattern would be one
      have filters : filter' = filter := pattern_split_injOn (h.valid _ old) valid same
      exact different (by rw [filters])
  · rw [counted, answer, h.count]
    by_cases member : (filter, subId) ∈ pairs
    · simp [member, Finset.card_erase_of_mem member]
    · simp [member]

/-- The pairs of a subscriber are as many as the patterns the trie holds it under. -/
theorem Refines.card_of (h : Refines trie pairs) (subId : SubscriberId) :
    (pairs.filter (·.2 = subId)).card = (trie.root.patterns subId).length := by
  have injective : Set.InjOn (fun pair : Bytes × SubscriberId => pattern (split pair.1))
      (pairs.filter (·.2 = subId)) := by
    rintro ⟨filter, s⟩ left ⟨filter', s'⟩ right same
    obtain ⟨member, rfl⟩ := Finset.mem_filter.mp left
    obtain ⟨member', there⟩ := Finset.mem_filter.mp right
    cases there
    have filters : filter = filter' :=
      pattern_split_injOn (h.valid _ member) (h.valid _ member') same
    rw [filters]
  have image : (pairs.filter (·.2 = subId)).image (fun pair => pattern (split pair.1)) =
      (trie.root.patterns subId).toFinset := by
    ext p
    rw [List.mem_toFinset, Node.mem_patterns subId h.keyed]
    refine Iff.trans ?_ (h.subscribed p subId).symm
    simp only [Finset.mem_image, Finset.mem_filter]
    constructor
    · rintro ⟨⟨filter, s⟩, ⟨member, rfl⟩, rfl⟩
      exact ⟨filter, member, rfl⟩
    · rintro ⟨filter, member, rfl⟩
      exact ⟨(filter, subId), ⟨member, rfl⟩, rfl⟩
  rw [← Finset.card_image_of_injOn injective, image,
    List.toFinset_card_of_nodup (Node.patterns_nodup subId h.keyed)]

theorem unsubscribeAll_follows (h : Refines trie pairs) (subId : SubscriberId) :
    Refines (trie.unsubscribeAll subId).1 (pairs.filter (·.2 ≠ subId)) ∧
    (trie.unsubscribeAll subId).2 = (pairs.filter (·.2 = subId)).card := by
  have answer : (trie.unsubscribeAll subId).2 = (pairs.filter (·.2 = subId)).card := by
    rw [h.card_of]
    exact Node.unsubscribeAll_count subId h.keyed
  have counted : (trie.unsubscribeAll subId).1.totalSubs =
      trie.totalSubs - (trie.unsubscribeAll subId).2 := rfl
  refine ⟨⟨Node.unsubscribeAll_keyed subId h.keyed,
    fun pair member => h.valid pair (Finset.mem_filter.mp member).1, fun p other => ?_, ?_⟩, answer⟩
  · rw [TopicTrie.subscribed_unsubscribeAll, h.subscribed]
    constructor
    · rintro ⟨⟨filter, member, rfl⟩, different⟩
      exact ⟨filter, Finset.mem_filter.mpr ⟨member, different⟩, rfl⟩
    · rintro ⟨filter, member, rfl⟩
      obtain ⟨old, different⟩ := Finset.mem_filter.mp member
      exact ⟨⟨filter, old, rfl⟩, different⟩
  · have parts := Finset.card_filter_add_card_filter_not (s := pairs) (fun pair => pair.2 = subId)
    rw [counted, answer, h.count]
    simp only [ne_eq]
    omega

theorem step_follows (trie : TopicTrie) (pairs : Subscriptions) (op : TrieOp)
    (h : Refines trie pairs) (valid : op.Valid) :
    Refines (trieStep trie op).1 (setStep pairs op).1 ∧
      (trieStep trie op).2 = (setStep pairs op).2 := by
  cases op with
  | subscribe filter subId =>
    obtain ⟨next, answer⟩ := subscribe_follows h valid subId
    exact ⟨next, congrArg Answer.changed answer⟩
  | unsubscribe filter subId =>
    obtain ⟨next, answer⟩ := unsubscribe_follows h valid subId
    exact ⟨next, congrArg Answer.changed answer⟩
  | unsubscribeAll subId =>
    obtain ⟨next, answer⟩ := unsubscribeAll_follows h subId
    exact ⟨next, congrArg Answer.removed answer⟩

/-- Who is found is who has some matching filter. -/
theorem Refines.mem_matchTopic (h : Refines trie pairs) (topic : Bytes) (subId : SubscriberId) :
    subId ∈ trie.matchTopic topic ↔ ∃ filter, (filter, subId) ∈ pairs ∧ Matches topic filter := by
  rw [TopicTrie.mem_matchTopic]
  constructor
  · rintro ⟨p, held, accepts⟩
    obtain ⟨filter, member, rfl⟩ := (h.subscribed p subId).mp held
    exact ⟨filter, member, accepts⟩
  · rintro ⟨filter, member, accepts⟩
    exact ⟨_, (h.subscribed _ subId).mpr ⟨filter, member, rfl⟩, accepts⟩

/-- After any calls with valid filters on an empty trie: every answer is that of the set of
pairs, the counter is its size, and a match lists the subscribers with a matching filter
without repetition. -/
theorem trie_refines_set (ops : List TrieOp) (valid : ∀ op ∈ ops, op.Valid) :
    let trie := run trieStep {} ops
    let pairs := run setStep ∅ ops
    outputs trieStep {} ops = outputs setStep ∅ ops ∧
    trie.subscriptionCount = pairs.card ∧
    ∀ topic, (trie.matchTopic topic).Nodup ∧
      ∀ subId, subId ∈ trie.matchTopic topic ↔
        ∃ filter, (filter, subId) ∈ pairs ∧ Matches topic filter := by
  intro trie pairs
  obtain ⟨refines, answers⟩ : Refines trie pairs ∧ outputs trieStep {} ops = outputs setStep ∅ ops :=
    run_simulates Refines step_follows refines_empty (AllSteps.of_forall valid _)
  exact ⟨answers, refines.count, fun topic =>
    ⟨Node.matchInto_nodup _ _ List.nodup_nil, refines.mem_matchTopic topic⟩⟩

/-- One subscriber with two filters that both match `a/b`, and a second one. -/
def sampleOps : List TrieOp :=
  [.subscribe (ascii "a/#") 1, .subscribe (ascii "+/b") 1, .subscribe (ascii "a/b") 2,
    .unsubscribeAll 1]

theorem sample_refines_set :
    outputs trieStep {} sampleOps = [.changed true, .changed true, .changed true, .removed 2] ∧
    outputs trieStep {} sampleOps = outputs setStep ∅ sampleOps := by
  refine ⟨by decide +kernel, (trie_refines_set sampleOps ?_).1⟩
  simp only [sampleOps, List.forall_mem_cons, List.not_mem_nil, TrieOp.Valid, false_imp_iff,
    implies_true, and_true]
  decide +kernel

end SecureLink.Guarantees.TrieRefinement
