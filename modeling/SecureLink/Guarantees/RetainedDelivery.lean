import SecureLink.Library.Runs
import SecureLink.Source.PubSub.PubSubBroker

/-!
# A retained publish next to a subscribe

`publish` looks up its subscribers in the trie and then stores and delivers the message
under another mutex; `subscribe` enters the trie and then replays the stored messages.
Each call has two sections, and those of two calls may interleave. One of the six orders
loses the message: the subscriber is not in the trie yet when it is searched, and the
message is not stored yet when the stored ones are replayed.
-/
namespace SecureLink.Guarantees.RetainedDelivery
open Library.BigEndian Library.Runs Source.PubSub

/-- The arguments of the two calls; the message is to be retained. -/
structure Calls where
  publisher : Fingerprint
  topic : Bytes
  payload : Bytes
  subscriberFp : Fingerprint
  subId : SubscriberId
  filter : Bytes

inductive Section where
  | publishMatch | publishDeliver | subscribeInsert | subscribeReplay
  deriving DecidableEq, Repr

/-- The broker, and what the two calls carry from their first section to the second: the
subscribers found, and whether the subscription was admitted. -/
structure Race where
  broker : PubSubBroker
  subs : Option (List SubscriberId) := none
  inserted : Bool := false

/-- One section, with what its call returns. A denied call is over after its first. -/
def act (c : Calls) (race : Race) : Section → Race × List PubSubDelivery
  | .publishMatch =>
    if !slTopicIsValidPublish c.topic then ({ race with broker := race.broker.publishDenied }, [])
    else if !race.broker.permits c.publisher .publish c.topic then
      ({ race with broker := race.broker.publishDenied }, [])
    else ({ race with subs := some (race.broker.trie.matchTopic c.topic) }, [])
  | .publishDeliver =>
    match race.subs with
    | none => (race, [])
    | some subs =>
      let done := race.broker.retainAndDeliver subs c.topic c.payload true
      ({ race with broker := done.1 }, done.2)
  | .subscribeInsert =>
    if !slTopicIsValidFilter c.filter then
      ({ race with broker := race.broker.subscribeDenied }, [])
    else if !race.broker.permits c.subscriberFp .subscribe c.filter then
      ({ race with broker := race.broker.subscribeDenied }, [])
    else
      ({ race with
         broker := { race.broker with trie := (race.broker.trie.subscribe c.filter c.subId).1 }
         inserted := true }, [])
  | .subscribeReplay =>
    if race.inserted then
      let done := race.broker.replay c.subId c.filter
      ({ race with broker := done.1 }, done.2)
    else (race, [])

def publishSections : List Section := [.publishMatch, .publishDeliver]

def subscribeSections : List Section := [.subscribeInsert, .subscribeReplay]

/-- The sections of `publish` in a row are `publish`. -/
theorem publish_eq_sections (c : Calls) (broker : PubSubBroker) :
    broker.publish c.publisher c.topic c.payload true =
      ((run (act c) { broker } publishSections).broker,
        (outputs (act c) { broker } publishSections).flatten) := by
  simp only [PubSubBroker.publish, publishSections, run, outputs, act]
  split
  · rfl
  · split <;> simp

theorem subscribe_eq_sections (c : Calls) (broker : PubSubBroker) :
    broker.subscribe c.subscriberFp c.subId c.filter =
      ((run (act c) { broker } subscribeSections).broker,
        (outputs (act c) { broker } subscribeSections).flatten) := by
  simp only [PubSubBroker.subscribe, subscribeSections, run, outputs, act]
  split
  · rfl
  · split <;> simp

/-- Some delivery hands the message to the subscriber. -/
def Received (c : Calls) (out : List PubSubDelivery) : Prop :=
  ∃ d ∈ out, d.subscriber = c.subId ∧ d.topic = c.topic ∧ d.payload = c.payload

theorem received_append (c : Calls) (a b : List PubSubDelivery) :
    Received c (a ++ b) ↔ Received c a ∨ Received c b := by
  simp only [Received, List.mem_append, or_and_right, exists_or]

/-- The delivering section serves exactly the subscribers found before. -/
theorem received_deliver (c : Calls) (broker : PubSubBroker) (subs : List SubscriberId) :
    Received c (broker.retainAndDeliver subs c.topic c.payload true).2 ↔ c.subId ∈ subs := by
  unfold PubSubBroker.retainAndDeliver
  cases subs with
  | nil => simp [Received]
  | cons s rest => simp [Received, eq_comm]

/-- The replaying section sends exactly the stored messages that the filter matches. -/
theorem received_replay (c : Calls) (broker : PubSubBroker)
    (matched : slTopicMatches c.topic c.filter = true) :
    Received c (broker.replay c.subId c.filter).2 ↔
      broker.retained.lookup c.topic = some c.payload := by
  rw [← Option.mem_def, AList.mem_lookup_iff]
  simp only [Received, PubSubBroker.replay, List.mem_map, List.mem_filter]
  constructor
  · rintro ⟨_, ⟨⟨t, p⟩, ⟨stored, -⟩, rfl⟩, -, rfl, rfl⟩
    exact stored
  · intro stored
    exact ⟨_, ⟨_, ⟨stored, matched⟩, rfl⟩, rfl, rfl, rfl⟩

theorem retainAndDeliver_frame (c : Calls) (broker : PubSubBroker) (subs : List SubscriberId) :
    (broker.retainAndDeliver subs c.topic c.payload true).1.acl = broker.acl ∧
    (broker.retainAndDeliver subs c.topic c.payload true).1.trie = broker.trie ∧
    (broker.retainAndDeliver subs c.topic c.payload true).1.retained =
      broker.retained.insert c.topic c.payload := by
  unfold PubSubBroker.retainAndDeliver
  dsimp only
  split <;> exact ⟨rfl, rfl, rfl⟩

theorem replay_frame (c : Calls) (broker : PubSubBroker) :
    (broker.replay c.subId c.filter).1.acl = broker.acl ∧
    (broker.replay c.subId c.filter).1.trie = broker.trie := ⟨rfl, rfl⟩

/-- A filter that matches a topic is found by it once it is in the trie. -/
theorem inserted_found (c : Calls) (trie : TopicTrie) (matched : Matches c.topic c.filter) :
    c.subId ∈ (trie.subscribe c.filter c.subId).1.matchTopic c.topic :=
  (TopicTrie.mem_matchTopic _ _ _).mpr
    ⟨_, (TopicTrie.subscribed_subscribe _ _ _ _ _).mpr (Or.inr ⟨rfl, rfl⟩), matched⟩

theorem interleaving_cases {schedule : List Section}
    (h : Interleaves publishSections subscribeSections schedule) :
    schedule = [.publishMatch, .publishDeliver, .subscribeInsert, .subscribeReplay] ∨
    schedule = [.publishMatch, .subscribeInsert, .publishDeliver, .subscribeReplay] ∨
    schedule = [.publishMatch, .subscribeInsert, .subscribeReplay, .publishDeliver] ∨
    schedule = [.subscribeInsert, .publishMatch, .publishDeliver, .subscribeReplay] ∨
    schedule = [.subscribeInsert, .publishMatch, .subscribeReplay, .publishDeliver] ∨
    schedule = [.subscribeInsert, .subscribeReplay, .publishMatch, .publishDeliver] := by
  simp only [publishSections, subscribeSections, interleaves_cons_cons, interleaves_nil_left,
    interleaves_nil_right] at h
  grind

/-- The order in which the message can be missed. -/
def lossyOrder : List Section :=
  [.publishMatch, .subscribeInsert, .subscribeReplay, .publishDeliver]

/-- Both calls permitted and the filter matching the topic: in every order of their sections
the subscriber receives the message, except in the lossy one, and there only if neither an
older subscription nor an equal stored message makes up for it. -/
theorem retained_received_iff (c : Calls) (broker : PubSubBroker) (schedule : List Section)
    (publishOk : broker.permits c.publisher .publish c.topic = true)
    (subscribeOk : broker.permits c.subscriberFp .subscribe c.filter = true)
    (matched : slTopicMatches c.topic c.filter = true)
    (interleaved : Interleaves publishSections subscribeSections schedule) :
    Received c (outputs (act c) { broker } schedule).flatten ↔
      ¬ (schedule = lossyOrder ∧ c.subId ∉ broker.trie.matchTopic c.topic ∧
        broker.retained.lookup c.topic ≠ some c.payload) := by
  obtain ⟨topicOk, filterOk, matches_, -⟩ := slTopicMatches_spec.mp matched
  -- the two checks look at the access list only, which no section changes
  have mayPublish : ∀ b : PubSubBroker, b.acl = broker.acl →
      b.permits c.publisher .publish c.topic = true := by
    intro b same
    rw [← publishOk, PubSubBroker.permits, PubSubBroker.permits, same]
  have maySubscribe : ∀ b : PubSubBroker, b.acl = broker.acl →
      b.permits c.subscriberFp .subscribe c.filter = true := by
    intro b same
    rw [← subscribeOk, PubSubBroker.permits, PubSubBroker.permits, same]
  have found := inserted_found c broker.trie matches_
  have stored : (broker.retained.insert c.topic c.payload).lookup c.topic = some c.payload :=
    AList.lookup_insert _
  rcases interleaving_cases interleaved with rfl | rfl | rfl | rfl | rfl | rfl
  all_goals
    simp [outputs, act, topicOk, filterOk, mayPublish, maySubscribe, retainAndDeliver_frame,
      replay_frame, received_append, received_deliver, received_replay _ _ matched, found, stored,
      lossyOrder]
  -- the lossy order is left: the message can only come from what was there before
  rw [or_comm, or_iff_not_imp_left]

/-- A publish and a subscribe without access list, on an exact topic. -/
def plainCalls : Calls where
  publisher := ⟨List.replicate 32 0, by decide⟩
  topic := ascii "a"
  payload := [1]
  subscriberFp := ⟨List.replicate 32 0, by decide⟩
  subId := 7
  filter := ascii "a"

theorem retained_received_after_insert :
    Received plainCalls (outputs (act plainCalls) { broker := {} }
      [.subscribeInsert, .publishMatch, .subscribeReplay, .publishDeliver]).flatten :=
  (retained_received_iff plainCalls {} _ rfl rfl (by decide +kernel)
    (.right (.left (.right (.left .nil))))).mpr fun h => absurd h.1 (by decide)

/-- Publish searches the trie, subscribe enters it and replays nothing, publish stores the
message and delivers it to nobody. -/
theorem retained_missed :
    PubSubBroker.permits {} plainCalls.publisher .publish plainCalls.topic = true ∧
    PubSubBroker.permits {} plainCalls.subscriberFp .subscribe plainCalls.filter = true ∧
    slTopicMatches plainCalls.topic plainCalls.filter = true ∧
    Interleaves publishSections subscribeSections lossyOrder ∧
    ¬ Received plainCalls (outputs (act plainCalls) { broker := {} } lossyOrder).flatten := by
  refine ⟨rfl, rfl, by decide +kernel, .left (.right (.right (.left .nil))), ?_⟩
  have nothing : (outputs (act plainCalls) { broker := {} } lossyOrder).flatten = [] := by
    decide +kernel
  rw [nothing]
  simp [Received]

end SecureLink.Guarantees.RetainedDelivery
