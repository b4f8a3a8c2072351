import SecureLink.Source.PubSub.PubSubBroker

/-!
# Granted filters

An allow rule is consulted through the topic matcher (src/topic_acl.cpp:42-50), which takes no
wildcard on its left side (src/sl_topic.c:64). A rule therefore does not speak about its own filter
when that has a wildcard, and the subscription it seems to grant is left to the default.
-/
namespace SecureLink.Guarantees.GrantedFilters
open Library.BigEndian Source.PubSub

/-- The access check permits the filter, and no broker with this access list denies it. -/
structure Usable (acl : TopicAcl) (fp : Fingerprint) (filter : Bytes) : Prop where
  permitted : acl.check fp .subscribe filter = true
  subscribed : ∀ (broker : PubSubBroker) (subId : SubscriberId), broker.acl = some acl →
    (broker.subscribe fp subId filter).1.trie = (broker.trie.subscribe filter subId).1 ∧
    (broker.subscribe fp subId filter).1.stats.subscribesDenied = broker.stats.subscribesDenied

/-- A permitted filter is subscribed. -/
theorem usable_iff {acl : TopicAcl} {fp : Fingerprint} {filter : Bytes}
    (valid : slTopicIsValidFilter filter = true) :
    Usable acl fp filter ↔ acl.check fp .subscribe filter = true := by
  constructor
  · intro usable
    exact usable.permitted
  · intro permitted
    refine ⟨permitted, ?_⟩
    intro broker subId here
    have admitted : broker.Admits fp filter := ⟨valid, by rw [PubSubBroker.permits, here]; exact permitted⟩
    refine ⟨(PubSubBroker.subscribe_admitted admitted subId).2.1, ?_⟩
    simp [PubSubBroker.subscribe, PubSubBroker.replay, admitted.1, admitted.2]

/-- The first rule decides about its own filter exactly if that has no wildcard. -/
theorem check_granted {acl : TopicAcl} {fp : Fingerprint} {filter : Bytes}
    (valid : slTopicIsValidFilter filter = true)
    (granted : (acl.rulesFor fp .subscribe).head? = some { filter, allow := true })
    (tame : hasWildcard filter = false) : acl.check fp .subscribe filter = true := by
  obtain ⟨further, rules⟩ := List.head?_eq_some_iff.mp granted
  have decides : TopicAcl.decidingRule (acl.rulesFor fp .subscribe) filter =
      some { filter, allow := true } := by
    rw [rules]
    simp [TopicAcl.decidingRule, tame_matches_itself valid tame]
  rw [TopicAcl.check_eq, decides]

/-- A filter that the first subscribe rule of an identity allows can be used exactly if it has no
wildcard or the default allows everything. -/
theorem granted_filter_usable_iff {acl : TopicAcl} {fp : Fingerprint} {filter : Bytes}
    (valid : slTopicIsValidFilter filter = true)
    (granted : (acl.rulesFor fp .subscribe).head? = some { filter, allow := true }) :
    Usable acl fp filter ↔ (hasWildcard filter = true → acl.defaultAllow = true) := by
  rw [usable_iff valid]
  cases wild : hasWildcard filter with
  | true => simp [check_wildcard wild]
  | false => simp [check_granted valid granted wild]

def reader : Fingerprint := ⟨List.replicate 32 0x0C, by decide⟩

/-- A grant of one topic, and a rule after it that takes it back. -/
def oneTopic : TopicAcl :=
  (TopicAcl.allow {} reader .subscribe (ascii "a/b")).deny reader .subscribe (ascii "a/#")

theorem granted_topic_usable : Usable oneTopic reader (ascii "a/b") := by
  have granted : (oneTopic.rulesFor reader .subscribe).head? =
      some { filter := ascii "a/b", allow := true } := by decide +kernel
  exact (granted_filter_usable_iff (by decide +kernel) granted).mpr fun wild =>
    absurd wild (by decide +kernel)

/-- A grant of everything below `a`, under the default of a new access list. -/
def everythingBelow : TopicAcl := TopicAcl.allow {} reader .subscribe (ascii "a/#")

/-- The filter of the grant is refused. -/
theorem granted_wildcard_denied :
    slTopicIsValidFilter (ascii "a/#") = true ∧
    everythingBelow.rulesFor reader .subscribe = [{ filter := ascii "a/#", allow := true }] ∧
    everythingBelow.check reader .subscribe (ascii "a/#") = false ∧
    (PubSubBroker.subscribe { acl := some everythingBelow } reader 1
      (ascii "a/#")).1.stats.subscribesDenied = 1 := by
  decide +kernel

end SecureLink.Guarantees.GrantedFilters
