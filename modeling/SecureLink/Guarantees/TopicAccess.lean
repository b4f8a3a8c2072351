import SecureLink.Library.Runs
import SecureLink.Source.PubSub.PubSubBroker

/-!
# Topic access at the broker

src/pubsub_broker.cpp:53-91 asks the access list once, about the filter string. An exact
filter is the one topic it can deliver, so the answer covers all deliveries. A wildcard
filter is no publish topic, no rule speaks about it (src/topic_acl.cpp:42-62), and under
a permissive default it is admitted over topics that are denied.
-/
namespace SecureLink.Guarantees.TopicAccess
open Library.BigEndian Library.Runs Source.PubSub

variable {acl : TopicAcl} {fp : Fingerprint} {subId : SubscriberId} {filter : Bytes}

inductive BrokerOp where
  | publish (publisher : Fingerprint) (topic payload : Bytes) (retain : Bool)
  | subscribe (fp : Fingerprint) (subId : SubscriberId) (filter : Bytes)
  | unsubscribe (subId : SubscriberId) (filter : Bytes)
  | dropSubscriber (subId : SubscriberId)

/-- The broker, and who was ever subscribed with which fingerprint. -/
structure Session where
  broker : PubSubBroker
  subscribedWith : List (Fingerprint × SubscriberId) := []

/-- One operation; refused subscriptions leave no trace in the history. -/
def step (s : Session) : BrokerOp → Session × List PubSubDelivery
  | .publish publisher topic payload retain =>
    let (broker, out) := s.broker.publish publisher topic payload retain
    ({ s with broker }, out)
  | .subscribe fp subId filter =>
    let (broker, out) := s.broker.subscribe fp subId filter
    let subscribedWith :=
      if s.broker.Admits fp filter then (fp, subId) :: s.subscribedWith else s.subscribedWith
    ({ broker, subscribedWith }, out)
  | .unsubscribe subId filter => ({ s with broker := (s.broker.unsubscribe subId filter).1 }, [])
  | .dropSubscriber subId => ({ s with broker := (s.broker.dropSubscriber subId).1 }, [])

/-- Some topic the filter matches falls under a deny rule of the identity. -/
def ReachesDenied (acl : TopicAcl) (fp : Fingerprint) (filter : Bytes) : Prop :=
  ∃ topic, slTopicIsValidPublish topic = true ∧ Matches topic filter ∧
    acl.Denies fp .subscribe topic

/-- A subscription is made with the fingerprint the subscriber has always used, and a
permissive default admits no wildcard filter that reaches under a deny rule. -/
def Careful (acl : TopicAcl) (s : Session) : BrokerOp → Prop
  | .subscribe fp subId filter =>
    s.broker.Admits fp filter →
      (∀ used, (used, subId) ∈ s.subscribedWith → used = fp) ∧
        ¬ (acl.defaultAllow = true ∧ hasWildcard filter = true ∧ ReachesDenied acl fp filter)
  | _ => True

/-- The deliveries of a step are permitted to every fingerprint their subscriber has used. -/
def Permitted (acl : TopicAcl) (result : Session × List PubSubDelivery) : Prop :=
  ∀ d ∈ result.2, ∀ fp, (fp, d.subscriber) ∈ result.1.subscribedWith →
    acl.check fp .subscribe d.topic = true

/-- Every topic the filter can match is permitted to the identity. -/
def Covers (acl : TopicAcl) (fp : Fingerprint) (filter : Bytes) : Prop :=
  ∀ topic, slTopicIsValidPublish topic = true → Matches topic filter →
    acl.check fp .subscribe topic = true

/-- Everything in the trie was subscribed by an identity that may see all it matches. -/
structure Covered (acl : TopicAcl) (s : Session) : Prop where
  acl_eq : s.broker.acl = some acl
  one_fp : ∀ fp fp' subId, (fp, subId) ∈ s.subscribedWith → (fp', subId) ∈ s.subscribedWith →
    fp' = fp
  trie : ∀ p subId, s.broker.trie.Subscribed p subId →
    ∃ fp filter, (fp, subId) ∈ s.subscribedWith ∧ p = pattern (split filter) ∧ Covers acl fp filter

/-- An admitted filter reaches permitted topics only: an exact one is the topic itself. -/
theorem covers_of_admits {broker : PubSubBroker} (here : broker.acl = some acl)
    (admitted : broker.Admits fp filter)
    (careful : ¬ (acl.defaultAllow = true ∧ hasWildcard filter = true ∧
      ReachesDenied acl fp filter)) : Covers acl fp filter := by
  have allowed : acl.check fp .subscribe filter = true := by
    simpa [PubSubBroker.permits, here] using admitted.2
  intro topic topicOk matched
  by_cases wild : hasWildcard filter = true
  · -- no rule decided about the filter itself, so it was the default that admitted it
    have permissive : acl.defaultAllow = true := by rwa [check_wildcard wild] at allowed
    apply TopicAcl.check_of_not_denies permissive
    intro denied
    exact careful ⟨permissive, wild, topic, topicOk, matched, denied⟩
  · rw [(matches_exact (by simpa using wild)).mp matched]
    exact allowed

theorem start_covered (acl : TopicAcl) : Covered acl { broker := { acl := some acl } } where
  acl_eq := rfl
  one_fp := by simp
  trie p subId held := absurd held (TopicTrie.subscribed_empty p subId)

/-- A change that only removes subscriptions keeps the rest covered. -/
theorem Covered.of_subset {s : Session} (covered : Covered acl s) {broker : PubSubBroker}
    (sameAcl : broker.acl = s.broker.acl)
    (fewer : ∀ p subId, broker.trie.Subscribed p subId → s.broker.trie.Subscribed p subId) :
    Covered acl { s with broker } where
  acl_eq := sameAcl.trans covered.acl_eq
  one_fp := covered.one_fp
  trie p subId held := covered.trie p subId (fewer p subId held)

/-- A permitted topic for one fingerprint of a subscriber is permitted for all it has used. -/
theorem Covered.permitted {s : Session} (covered : Covered acl s) {topic : Bytes}
    (used : (fp, subId) ∈ s.subscribedWith) (allowed : acl.check fp .subscribe topic = true) :
    ∀ fp', (fp', subId) ∈ s.subscribedWith → acl.check fp' .subscribe topic = true := by
  intro fp' used'
  rwa [covered.one_fp fp fp' subId used used']

theorem publish_permitted {s : Session} (covered : Covered acl s) (publisher : Fingerprint)
    (topic payload : Bytes) (retain : Bool) :
    Covered acl (step s (.publish publisher topic payload retain)).1 ∧
      Permitted acl (step s (.publish publisher topic payload retain)) := by
  obtain ⟨sameAcl, sameTrie, deliveries⟩ := s.broker.publish_spec publisher topic payload retain
  refine ⟨covered.of_subset sameAcl fun _ _ held => sameTrie ▸ held, ?_⟩
  intro d member
  obtain ⟨sameTopic, topicOk, matched⟩ := deliveries d member
  obtain ⟨p, held, accepts⟩ := (TopicTrie.mem_matchTopic _ _ _).mp matched
  obtain ⟨fp, filter, used, rfl, covers⟩ := covered.trie p d.subscriber held
  have allowed := covers topic topicOk accepts
  rw [sameTopic]
  exact covered.permitted used allowed

theorem subscribe_permitted {s : Session} (covered : Covered acl s)
    (careful : Careful acl s (.subscribe fp subId filter)) :
    Covered acl (step s (.subscribe fp subId filter)).1 ∧
      Permitted acl (step s (.subscribe fp subId filter)) := by
  by_cases admitted : s.broker.Admits fp filter
  · obtain ⟨sameFp, wild⟩ := careful admitted
    obtain ⟨sameAcl, grown, deliveries⟩ := PubSubBroker.subscribe_admitted admitted subId
    have covers := covers_of_admits covered.acl_eq admitted wild
    have history : (step s (.subscribe fp subId filter)).1.subscribedWith =
        (fp, subId) :: s.subscribedWith := by simp [step, admitted]
    have after : Covered acl (step s (.subscribe fp subId filter)).1 := by
      refine ⟨sameAcl.trans covered.acl_eq, ?_, ?_⟩
      · rw [history]
        have := covered.one_fp
        grind
      · intro p other held
        rw [history]
        rcases (TopicTrie.subscribed_subscribe _ _ _ _ _).mp (grown ▸ held) with before | ⟨rfl, rfl⟩
        · obtain ⟨fp', filter', used, shape, covers'⟩ := covered.trie p other before
          exact ⟨fp', filter', List.mem_cons_of_mem _ used, shape, covers'⟩
        · exact ⟨fp, filter, List.mem_cons_self, rfl, covers⟩
    refine ⟨after, ?_⟩
    intro d member
    obtain ⟨rfl, matched⟩ := deliveries d member
    obtain ⟨topicOk, _, accepts, _⟩ := slTopicMatches_spec.mp matched
    exact after.permitted (by rw [history]; exact List.mem_cons_self) (covers _ topicOk accepts)
  · have refused := PubSubBroker.subscribe_refused admitted subId
    have stays : step s (.subscribe fp subId filter) =
        ({ s with broker := s.broker.subscribeDenied }, []) := by
      simp [step, refused, admitted]
    rw [stays]
    exact ⟨covered.of_subset rfl fun _ _ held => held, by simp [Permitted]⟩

/-- Every careful operation keeps the trie covered and delivers permitted topics only. -/
theorem step_permitted {s : Session} (covered : Covered acl s) (op : BrokerOp)
    (careful : Careful acl s op) : Covered acl (step s op).1 ∧ Permitted acl (step s op) := by
  cases op with
  | publish publisher topic payload retain =>
    exact publish_permitted covered publisher topic payload retain
  | subscribe fp subId filter => exact subscribe_permitted covered careful
  | unsubscribe subId filter =>
    refine ⟨covered.of_subset rfl fun p other held => ?_, by simp [Permitted, step]⟩
    exact ((TopicTrie.subscribed_unsubscribe _ _ _ _ _).mp held).1
  | dropSubscriber subId =>
    refine ⟨covered.of_subset rfl fun p other held => ?_, by simp [Permitted, step]⟩
    exact ((TopicTrie.subscribed_unsubscribeAll _ _ _ _).mp held).1

/-- In every run of careful operations, each delivery of each operation is on a topic its
subscriber may subscribe to. -/
theorem deliveries_permitted (acl : TopicAcl) (ops : List BrokerOp) (op : BrokerOp)
    (careful : AllSteps step (Careful acl) { broker := { acl := some acl } } (ops ++ [op])) :
    Permitted acl (step (run step { broker := { acl := some acl } } ops) op) := by
  obtain ⟨before, last, _⟩ := allSteps_append.mp careful
  have covered := before.invariant (Covered acl)
    (fun s op covered careful => (step_permitted covered op careful).1) (start_covered acl)
  exact (step_permitted covered op last).2

/-- Nothing less will do: an admitted filter that reaches under a deny rule delivers the
denied topic at the next publish of it. -/
theorem reached_topic_leaks {s : Session} {publisher : Fingerprint} {topic : Bytes}
    (here : s.broker.acl = some acl) (admitted : s.broker.Admits fp filter)
    (topicOk : slTopicIsValidPublish topic = true) (matched : Matches topic filter)
    (denied : acl.Denies fp .subscribe topic) (allowed : acl.check publisher .publish topic = true)
    (payload : Bytes) (retain : Bool) :
    ¬ Permitted acl (step (step s (.subscribe fp subId filter)).1
      (.publish publisher topic payload retain)) := by
  obtain ⟨sameAcl, grown, _⟩ := PubSubBroker.subscribe_admitted admitted subId
  have found : subId ∈ (s.broker.subscribe fp subId filter).1.trie.matchTopic topic := by
    rw [grown, TopicTrie.mem_matchTopic]
    exact ⟨_, (TopicTrie.subscribed_subscribe _ _ _ _ _).mpr (Or.inr ⟨rfl, rfl⟩), matched⟩
  have permits : (s.broker.subscribe fp subId filter).1.permits publisher .publish topic = true := by
    simpa [PubSubBroker.permits, sameAcl, here] using allowed
  obtain ⟨d, member, rfl, rfl⟩ := PubSubBroker.publish_delivers topicOk permits found payload retain
  intro permitted
  have seen := permitted d member fp (by simp [step, admitted])
  rw [TopicAcl.check_of_denies denied] at seen
  cases seen

def auditor : Fingerprint := ⟨List.replicate 32 0x0A, by decide⟩
def writer : Fingerprint := ⟨List.replicate 32 0x0B, by decide⟩

/-- Under a default of deny, one rule lets the auditor subscribe below `admin`. -/
def strictAcl : TopicAcl :=
  (TopicAcl.allow {} auditor .subscribe (ascii "admin/#")).allow writer .publish (ascii "#")

theorem deliveries_permitted_strict :
    (step (run step { broker := { acl := some strictAcl } }
        [.subscribe auditor 1 (ascii "admin/audit")])
      (.publish writer (ascii "admin/audit") [5] false)).2 =
        [{ subscriber := 1, topic := ascii "admin/audit", payload := [5] }] ∧
      Permitted strictAcl (step (run step { broker := { acl := some strictAcl } }
        [.subscribe auditor 1 (ascii "admin/audit")])
      (.publish writer (ascii "admin/audit") [5] false)) :=
  ⟨by decide +kernel, deliveries_permitted strictAcl [.subscribe auditor 1 (ascii "admin/audit")]
    (.publish writer (ascii "admin/audit") [5] false)
    ⟨fun _ => ⟨by simp, fun reaches => absurd reaches.1 (by decide +kernel)⟩, trivial, trivial⟩⟩

/-- Everything is allowed but what lies below `admin` is denied to the auditor. -/
def permissiveAcl : TopicAcl :=
  TopicAcl.deny { defaultAllow := true } auditor .subscribe (ascii "admin/#")

/-- The filter `#` is admitted and delivers a topic below `admin`. -/
theorem wildcard_reaches_denied_topic :
    ∃ (acl : TopicAcl) (ops : List BrokerOp) (op : BrokerOp),
      ¬ Permitted acl (step (run step { broker := { acl := some acl } } ops) op) := by
  refine ⟨permissiveAcl, [.subscribe auditor 1 (ascii "#")],
    .publish writer (ascii "admin/audit") [5] false, fun permitted => ?_⟩
  have denied := permitted { subscriber := 1, topic := ascii "admin/audit", payload := [5] }
    (by decide +kernel) auditor (by decide +kernel)
  exact absurd denied (by decide +kernel)

end SecureLink.Guarantees.TopicAccess
