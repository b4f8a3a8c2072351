import SecureLink.Source.PubSub.TopicAcl

/-!
# Publish/subscribe broker

src/pubsub_broker.cpp:7-123. `publish` and `subscribe` work in two sections, one under the
trie's mutex and one under the broker's own; each section is a function of its own here.
The retained messages are replayed in the order of the table, which the source leaves
unspecified.
-/
namespace SecureLink.Source.PubSub
open Library.BigEndian

structure PubSubDelivery where
  subscriber : SubscriberId
  topic : Bytes
  payload : Bytes
  retained : Bool := false
  deriving DecidableEq, Repr

structure PubSubBrokerStats where
  publishesTotal : UInt64 := 0
  publishesDenied : UInt64 := 0
  publishesNoMatch : UInt64 := 0
  subscribesTotal : UInt64 := 0
  subscribesDenied : UInt64 := 0
  unsubscribesTotal : UInt64 := 0
  deliveriesQueued : UInt64 := 0
  retainedReplays : UInt64 := 0
  deriving DecidableEq, Repr

structure PubSubBroker where
  acl : Option TopicAcl := none
  trie : TopicTrie := {}
  retained : AList (fun _ : Bytes => Bytes) := ∅
  stats : PubSubBrokerStats := {}

namespace PubSubBroker

/-- Without an access list everything is permitted. -/
def permits (broker : PubSubBroker) (fp : Fingerprint) (op : TopicOp) (s : Bytes) : Bool :=
  match broker.acl with
  | none => true
  | some acl => acl.check fp op s

def publishDenied (broker : PubSubBroker) : PubSubBroker :=
  { broker with stats := { broker.stats with
      publishesTotal := broker.stats.publishesTotal + 1
      publishesDenied := broker.stats.publishesDenied + 1 } }

/-- The locked part of `publish`: retain the message and hand it to the subscribers found. -/
def retainAndDeliver (broker : PubSubBroker) (subs : List SubscriberId) (topic payload : Bytes)
    (retain : Bool) : PubSubBroker × List PubSubDelivery :=
  let stats := { broker.stats with publishesTotal := broker.stats.publishesTotal + 1 }
  let retained := if retain then broker.retained.insert topic payload else broker.retained
  if subs.isEmpty then
    let stats := { stats with publishesNoMatch := stats.publishesNoMatch + 1 }
    ({ broker with retained, stats }, [])
  else
    let out := subs.map fun s => { subscriber := s, topic, payload, retained := false }
    let stats := { stats with
      deliveriesQueued := stats.deliveriesQueued + UInt64.ofNat out.length }
    ({ broker with retained, stats }, out)

def publish (broker : PubSubBroker) (publisher : Fingerprint) (topic payload : Bytes)
    (retain : Bool) : PubSubBroker × List PubSubDelivery :=
  if !slTopicIsValidPublish topic then (broker.publishDenied, [])
  else if !broker.permits publisher .publish topic then (broker.publishDenied, [])
  else
    let subs := broker.trie.matchTopic topic
    broker.retainAndDeliver subs topic payload retain

def subscribeDenied (broker : PubSubBroker) : PubSubBroker :=
  { broker with stats := { broker.stats with
      subscribesTotal := broker.stats.subscribesTotal + 1
      subscribesDenied := broker.stats.subscribesDenied + 1 } }

/-- The locked part of `subscribe`: every retained message the new filter matches. -/
def replay (broker : PubSubBroker) (subId : SubscriberId) (filter : Bytes) :
    PubSubBroker × List PubSubDelivery :=
  let found := broker.retained.entries.filter fun entry => slTopicMatches entry.1 filter
  let replays := found.map fun entry =>
    { subscriber := subId, topic := entry.1, payload := entry.2, retained := true }
  ({ broker with stats := { broker.stats with
      subscribesTotal := broker.stats.subscribesTotal + 1
      retainedReplays := broker.stats.retainedReplays + UInt64.ofNat replays.length } }, replays)

def subscribe (broker : PubSubBroker) (subscriberFp : Fingerprint) (subId : SubscriberId)
    (filter : Bytes) : PubSubBroker × List PubSubDelivery :=
  if !slTopicIsValidFilter filter then (broker.subscribeDenied, [])
  else if !broker.permits subscriberFp .subscribe filter then (broker.subscribeDenied, [])
  else
    let broker := { broker with trie := (broker.trie.subscribe filter subId).1 }
    broker.replay subId filter

def unsubscribe (broker : PubSubBroker) (subId : SubscriberId) (filter : Bytes) :
    PubSubBroker × Bool :=
  let (trie, ok) := broker.trie.unsubscribe filter subId
  let stats := if ok then
      { broker.stats with unsubscribesTotal := broker.stats.unsubscribesTotal + 1 }
    else broker.stats
  ({ broker with trie, stats }, ok)

def dropSubscriber (broker : PubSubBroker) (subId : SubscriberId) : PubSubBroker × Nat :=
  let (trie, n) := broker.trie.unsubscribeAll subId
  let stats := if n > 0 then
      { broker.stats with unsubscribesTotal := broker.stats.unsubscribesTotal + UInt64.ofNat n }
    else broker.stats
  ({ broker with trie, stats }, n)

/-- A subscription gets past both checks. -/
def Admits (broker : PubSubBroker) (fp : Fingerprint) (filter : Bytes) : Prop :=
  slTopicIsValidFilter filter = true ∧ broker.permits fp .subscribe filter = true

instance (broker : PubSubBroker) (fp : Fingerprint) (filter : Bytes) :
    Decidable (broker.Admits fp filter) := inferInstanceAs (Decidable (_ ∧ _))

/-- What `publish` leaves alone, and where its deliveries come from. -/
theorem publish_spec (broker : PubSubBroker) (publisher : Fingerprint) (topic payload : Bytes)
    (retain : Bool) :
    (broker.publish publisher topic payload retain).1.acl = broker.acl ∧
      (broker.publish publisher topic payload retain).1.trie = broker.trie ∧
      ∀ d ∈ (broker.publish publisher topic payload retain).2,
        d.topic = topic ∧ slTopicIsValidPublish topic = true ∧
          d.subscriber ∈ broker.trie.matchTopic topic := by
  unfold publish
  split
  · exact ⟨rfl, rfl, by simp⟩
  next valid =>
    have topicOk : slTopicIsValidPublish topic = true := by simpa using valid
    split
    · exact ⟨rfl, rfl, by simp⟩
    · unfold retainAndDeliver
      dsimp only
      split
      · exact ⟨rfl, rfl, by simp⟩
      · refine ⟨rfl, rfl, ?_⟩
        intro d member
        obtain ⟨s, found, rfl⟩ := List.mem_map.mp member
        exact ⟨rfl, topicOk, found⟩

/-- A permitted publish reaches every subscriber the trie finds. -/
theorem publish_delivers {broker : PubSubBroker} {publisher : Fingerprint} {topic : Bytes}
    (topicOk : slTopicIsValidPublish topic = true)
    (permitted : broker.permits publisher .publish topic = true) {subId : SubscriberId}
    (found : subId ∈ broker.trie.matchTopic topic) (payload : Bytes) (retain : Bool) :
    ∃ d ∈ (broker.publish publisher topic payload retain).2,
      d.subscriber = subId ∧ d.topic = topic := by
  have some : (broker.trie.matchTopic topic).isEmpty = false := by
    cases subs : broker.trie.matchTopic topic with
    | nil => simp [subs] at found
    | cons => rfl
  refine ⟨{ subscriber := subId, topic, payload, retained := false }, ?_, rfl, rfl⟩
  simpa [publish, topicOk, permitted, retainAndDeliver, some] using found

theorem subscribe_refused {broker : PubSubBroker} {fp : Fingerprint} {filter : Bytes}
    (refused : ¬ broker.Admits fp filter) (subId : SubscriberId) :
    broker.subscribe fp subId filter = (broker.subscribeDenied, []) := by
  unfold subscribe
  split
  · rfl
  next valid =>
    have denied : broker.permits fp .subscribe filter = false := by
      by_contra permitted
      exact refused ⟨by simpa using valid, by simpa using permitted⟩
    simp [denied]

/-- An admitted subscription enters the trie and is sent what its filter matches. -/
theorem subscribe_admitted {broker : PubSubBroker} {fp : Fingerprint} {filter : Bytes}
    (admitted : broker.Admits fp filter) (subId : SubscriberId) :
    (broker.subscribe fp subId filter).1.acl = broker.acl ∧
      (broker.subscribe fp subId filter).1.trie = (broker.trie.subscribe filter subId).1 ∧
      ∀ d ∈ (broker.subscribe fp subId filter).2,
        d.subscriber = subId ∧ slTopicMatches d.topic filter = true := by
  simp only [subscribe, replay, admitted.1, admitted.2, Bool.not_true, Bool.false_eq_true,
    if_false, true_and]
  intro d member
  obtain ⟨entry, found, rfl⟩ := List.mem_map.mp member
  exact ⟨rfl, (List.mem_filter.mp found).2⟩

end PubSubBroker

end SecureLink.Source.PubSub
