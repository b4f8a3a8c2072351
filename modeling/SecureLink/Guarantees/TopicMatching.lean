import SecureLink.Source.PubSub.Segments

/-!
# The two topic matchers

Live delivery walks the trie of src/topic_trie.cpp; retained replay, ACL rules and
client-side dispatch use the scan of src/sl_topic.c:62-92. The trie follows the
documented rule. The scan stops as soon as the topic is used up, so it refuses a filter
of which only the final `#` is left; there, and nowhere else, the two disagree.
-/
namespace SecureLink.Guarantees.TopicMatching
open Library.BigEndian Source.PubSub

/-- The subscriber has this one filter in the trie, whatever others are subscribed to. -/
def SubscribedOnly (trie : TopicTrie) (subId : SubscriberId) (filter : Bytes) : Prop :=
  ∀ p, trie.Subscribed p subId ↔ p = pattern (split filter)

theorem subscribedOnly_first (filter : Bytes) (subId : SubscriberId) :
    SubscribedOnly (TopicTrie.subscribe {} filter subId).1 subId filter := by
  intro p
  simp [TopicTrie.subscribed_subscribe, TopicTrie.subscribed_empty]

/-- The trie returns a subscriber of one filter exactly under the documented rule. -/
theorem mem_matchTopic_iff {trie : TopicTrie} {subId : SubscriberId} {filter : Bytes}
    (only : SubscribedOnly trie subId filter) (topic : Bytes) :
    subId ∈ trie.matchTopic topic ↔ Matches topic filter := by
  rw [TopicTrie.mem_matchTopic]
  constructor
  · rintro ⟨p, held, accepts⟩
    rwa [(only p).mp held] at accepts
  · intro accepts
    exact ⟨_, (only _).mpr rfl, accepts⟩

/-- Trie and scan agree with each other and with the documented rule. -/
structure Agree (trie : TopicTrie) (subId : SubscriberId) (topic filter : Bytes) : Prop where
  matchers : subId ∈ trie.matchTopic topic ↔ slTopicMatches topic filter = true
  trieRule : subId ∈ trie.matchTopic topic ↔ Matches topic filter
  scanRule : slTopicMatches topic filter = true ↔ Matches topic filter

/-- For valid strings the matchers agree exactly when the filter does not end in a `#`
that would have to stand for no segment. -/
theorem matchers_agree_iff (trie : TopicTrie) (subId : SubscriberId) (topic filter : Bytes)
    (topicOk : slTopicIsValidPublish topic = true) (filterOk : slTopicIsValidFilter filter = true)
    (only : SubscribedOnly trie subId filter) :
    Agree trie subId topic filter ↔ ¬ HashAtEnd topic filter := by
  have scan : slTopicMatches topic filter = true ↔
      Matches topic filter ∧ ¬ HashAtEnd topic filter := by
    simp [slTopicMatches_spec, topicOk, filterOk]
  have rule := mem_matchTopic_iff only topic
  constructor
  · intro agree atEnd
    have accepted := agree.scanRule.mpr atEnd.accepts
    exact (scan.mp accepted).2 atEnd
  · intro inside
    have scanRule : slTopicMatches topic filter = true ↔ Matches topic filter := by
      simp [scan, inside]
    exact ⟨rule.trans scanRule.symm, rule, scanRule⟩

theorem matchers_agree_iff_plus :
    Agree (TopicTrie.subscribe {} (ascii "a/+") 7).1 7 (ascii "a/b") (ascii "a/+") :=
  (matchers_agree_iff _ 7 (ascii "a/b") (ascii "a/+") (by decide +kernel) (by decide +kernel)
    (subscribedOnly_first _ _)).mpr fun atEnd => absurd atEnd.1 (by decide +kernel)

/-- `a/#` covers `a` for the trie and by the documentation, but not for the scan. -/
theorem matchers_disagree_on_parent :
    ∃ (trie : TopicTrie) (subId : SubscriberId) (topic filter : Bytes),
      slTopicIsValidPublish topic = true ∧ slTopicIsValidFilter filter = true ∧
        SubscribedOnly trie subId filter ∧ subId ∈ trie.matchTopic topic ∧
          slTopicMatches topic filter = false :=
  ⟨(TopicTrie.subscribe {} (ascii "a/#") 7).1, 7, ascii "a", ascii "a/#", by decide +kernel,
    by decide +kernel, subscribedOnly_first _ _, by decide +kernel, by decide +kernel⟩

end SecureLink.Guarantees.TopicMatching
