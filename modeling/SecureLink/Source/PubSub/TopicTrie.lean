import Mathlib.Data.List.Nodup
import SecureLink.Library.Wildcard
import SecureLink.Source.PubSub.Topic

/-!
# Topic trie

src/topic_trie.cpp:7-125, each operation under its mutex as one step. A node's `children` map
and its `plus` pointer are one table, keyed by the edge that leads to the child; a
subscriber set is the list of its elements. Nodes are never removed.
-/
namespace SecureLink.Source.PubSub
open Library.BigEndian Library.Wildcard

abbrev SubscriberId := UInt64

inductive Node where
  | mk (branches : List (Edge Bytes × Node)) (hashSubs exactSubs : List SubscriberId)

abbrev Branches := List (Edge Bytes × Node)

namespace Node

def branches : Node → Branches
  | mk branches _ _ => branches

def hashSubs : Node → List SubscriberId
  | mk _ hashSubs _ => hashSubs

def exactSubs : Node → List SubscriberId
  | mk _ _ exactSubs => exactSubs

def empty : Node := mk [] [] []

/-- The child behind an edge: `plus` for a single-segment wildcard, else an entry of `children`. -/
def child? (node : Node) (e : Edge Bytes) : Option Node := node.branches.lookup e

end Node

/-- Store the child behind an edge, in place of the one that is there. -/
def putBranch : Branches → Edge Bytes → Node → Branches
  | [], e, child => [(e, child)]
  | (e', child') :: rest, e, child =>
    if e' = e then (e, child) :: rest else (e', child') :: putBranch rest e child

def Node.putChild (node : Node) (e : Edge Bytes) (child : Node) : Node :=
  .mk (putBranch node.branches e child) node.hashSubs node.exactSubs

/-- `split` with the segment collected since the last separator. -/
def splitLoop : Bytes → Bytes → List Bytes
  | seg, [] => [seg]
  | seg, c :: rest => if c == slash then seg :: splitLoop [] rest else splitLoop (seg ++ [c]) rest

def split (s : Bytes) : List Bytes := splitLoop [] s

/-- The branch a filter segment selects. -/
def edge (seg : Bytes) : Edge Bytes := if seg == [plus] then .one else .exact seg

namespace Node

def subscribe (subId : SubscriberId) : List Bytes → Node → Node × Bool
  | [], node =>
    (.mk node.branches node.hashSubs (node.exactSubs.insert subId), !node.exactSubs.contains subId)
  | seg :: rest, node =>
    if seg == [hash] then
      (.mk node.branches (node.hashSubs.insert subId) node.exactSubs,
        !node.hashSubs.contains subId)
    else
      -- a missing child is created on the way down, whatever the outcome
      let (child, inserted) := subscribe subId rest ((node.child? (edge seg)).getD empty)
      (node.putChild (edge seg) child, inserted)

def unsubscribe (subId : SubscriberId) : List Bytes → Node → Node × Bool
  | [], node =>
    (.mk node.branches node.hashSubs (node.exactSubs.filter (· != subId)),
      node.exactSubs.contains subId)
  | seg :: rest, node =>
    if seg == [hash] then
      (.mk node.branches (node.hashSubs.filter (· != subId)) node.exactSubs,
        node.hashSubs.contains subId)
    else
      match node.child? (edge seg) with
      | none => (node, false)
      | some child =>
        let (child, removed) := unsubscribe subId rest child
        (node.putChild (edge seg) child, removed)

mutual

/-- The walk over all nodes. The source keeps the nodes to visit on a stack of its own. -/
def unsubscribeAll (subId : SubscriberId) : Node → Node × Nat
  | .mk branches hashSubs exactSubs =>
    let (branches, below) := unsubscribeBranches subId branches
    (.mk branches (hashSubs.filter (· != subId)) (exactSubs.filter (· != subId)),
      (exactSubs.contains subId).toNat + (hashSubs.contains subId).toNat + below)

def unsubscribeBranches (subId : SubscriberId) : List (Edge Bytes × Node) → Branches × Nat
  | [] => ([], 0)
  | (e, child) :: rest =>
    let (child, removed) := unsubscribeAll subId child
    let (rest, more) := unsubscribeBranches subId rest
    ((e, child) :: rest, removed + more)

end

def matchInto : List Bytes → Node → List SubscriberId → List SubscriberId
  | [], node, out => node.exactSubs ∪ (node.hashSubs ∪ out)
  | seg :: rest, node, out =>
    let out := node.hashSubs ∪ out
    let out := match node.child? (.exact seg) with
      | none => out
      | some child => matchInto rest child out
    match node.child? .one with
    | none => out
    | some child => matchInto rest child out

end Node

structure TopicTrie where
  root : Node := .empty
  totalSubs : Nat := 0

namespace TopicTrie

def subscribe (trie : TopicTrie) (filter : Bytes) (subId : SubscriberId) : TopicTrie × Bool :=
  let (root, inserted) := trie.root.subscribe subId (split filter)
  ({ root, totalSubs := if inserted then trie.totalSubs + 1 else trie.totalSubs }, inserted)

def unsubscribe (trie : TopicTrie) (filter : Bytes) (subId : SubscriberId) : TopicTrie × Bool :=
  let (root, removed) := trie.root.unsubscribe subId (split filter)
  ({ root, totalSubs := if removed then trie.totalSubs - 1 else trie.totalSubs }, removed)

def unsubscribeAll (trie : TopicTrie) (subId : SubscriberId) : TopicTrie × Nat :=
  let (root, removed) := trie.root.unsubscribeAll subId
  ({ root, totalSubs := trie.totalSubs - removed }, removed)

def matchTopic (trie : TopicTrie) (topic : Bytes) : List SubscriberId :=
  trie.root.matchInto (split topic) []

def subscriptionCount (trie : TopicTrie) : Nat := trie.totalSubs

end TopicTrie

/-- The pattern a filter spells. Segments after a `#` are not looked at. -/
def pattern : List Bytes → Pattern Bytes
  | [] => ⟨[], false⟩
  | seg :: rest => if seg == [hash] then ⟨[], true⟩ else (pattern rest).cons (edge seg)

theorem pattern_cons {seg : Bytes} (other : seg ≠ [hash]) (rest : List Bytes) :
    pattern (seg :: rest) = (pattern rest).cons (edge seg) := by
  simp [pattern, other]

/-- The subscriber is stored where the path of edges ends, in the set of the end's kind. -/
def Node.Holds : List (Edge Bytes) → Bool → SubscriberId → Node → Prop
  | [], tail, subId, node => subId ∈ if tail then node.hashSubs else node.exactSubs
  | e :: es, tail, subId, node => ∃ child, node.child? e = some child ∧ child.Holds es tail subId

/-- The pairs of a pattern and a subscriber that a trie stands for. -/
def TopicTrie.Subscribed (trie : TopicTrie) (p : Pattern Bytes) (subId : SubscriberId) : Prop :=
  trie.root.Holds p.edges p.tail subId

theorem lookup_branch (e e' : Edge Bytes) (child : Node) (rest : Branches) :
    List.lookup e' ((e, child) :: rest) = if e' = e then some child else rest.lookup e' := by
  by_cases same : e' = e
  · simp [same]
  · simp [List.lookup_cons, same, beq_eq_false_iff_ne.mpr same]

theorem lookup_putBranch (branches : Branches) (e e' : Edge Bytes) (child : Node) :
    (putBranch branches e child).lookup e' =
      if e' = e then some child else branches.lookup e' := by
  induction branches with
  | nil => simp [putBranch, lookup_branch]
  | cons entry rest ih =>
    obtain ⟨e₀, child₀⟩ := entry
    by_cases here : e₀ = e
    · subst here
      by_cases same : e' = e₀ <;> simp [putBranch, lookup_branch, same]
    · by_cases same : e' = e₀
      · subst same
        simp [putBranch, here]
      · simp [putBranch, lookup_branch, here, same, ih]

namespace Node

@[simp] theorem child?_putChild (node child : Node) (e e' : Edge Bytes) :
    (node.putChild e child).child? e' = if e' = e then some child else node.child? e' :=
  lookup_putBranch _ _ _ _

@[simp] theorem hashSubs_putChild (node child : Node) (e : Edge Bytes) :
    (node.putChild e child).hashSubs = node.hashSubs := rfl

@[simp] theorem exactSubs_putChild (node child : Node) (e : Edge Bytes) :
    (node.putChild e child).exactSubs = node.exactSubs := rfl

theorem holds_empty (es : List (Edge Bytes)) (tail : Bool) (subId : SubscriberId) :
    ¬ empty.Holds es tail subId := by
  cases es <;> cases tail <;>
    simp [Holds, empty, child?, branches, hashSubs, exactSubs]

/-- A missing child holds what the child created in its place holds: nothing. -/
theorem holds_getD (node : Node) (e : Edge Bytes) (es : List (Edge Bytes)) (tail : Bool)
    (subId : SubscriberId) :
    ((node.child? e).getD empty).Holds es tail subId ↔ node.Holds (e :: es) tail subId := by
  cases found : node.child? e <;> simp [Holds, found, holds_empty]

/-- Replacing a child changes what is held below its edge and nothing else. -/
theorem holds_putChild (node child : Node) (e e' : Edge Bytes) (es : List (Edge Bytes))
    (tail : Bool) (subId : SubscriberId) :
    (node.putChild e child).Holds (e' :: es) tail subId ↔
      if e' = e then child.Holds es tail subId else node.Holds (e' :: es) tail subId := by
  by_cases same : e' = e <;> simp [Holds, same]

theorem holds_putChild_nil (node child : Node) (e : Edge Bytes) (tail : Bool)
    (subId : SubscriberId) :
    (node.putChild e child).Holds [] tail subId ↔ node.Holds [] tail subId := by
  simp [Holds]

theorem subscribe_holds (subId : SubscriberId) (segs : List Bytes) (node : Node)
    (es : List (Edge Bytes)) (tail : Bool) (other : SubscriberId) :
    (node.subscribe subId segs).1.Holds es tail other ↔
      node.Holds es tail other ∨ (⟨es, tail⟩ = pattern segs ∧ other = subId) := by
  induction segs generalizing node es with
  | nil =>
    cases es <;> cases tail <;>
      simp [subscribe, pattern, Holds, child?, branches, hashSubs, exactSubs, or_comm]
  | cons seg rest ih =>
    by_cases isHash : seg = [hash]
    · cases es <;> cases tail <;>
        simp [subscribe, pattern, isHash, Holds, child?, branches, hashSubs, exactSubs, or_comm]
    · have walk : (node.subscribe subId (seg :: rest)).1 = node.putChild (edge seg)
          (((node.child? (edge seg)).getD empty).subscribe subId rest).1 := by
        simp [subscribe, isHash]
      rw [walk, pattern_cons isHash]
      cases es with
      | nil => simp [holds_putChild_nil, Pattern.cons]
      | cons e es =>
        rw [holds_putChild, ih, holds_getD]
        by_cases same : e = edge seg
        · subst same
          simp [Pattern.cons, Pattern.ext_iff]
        · simp [same, Pattern.cons]

theorem unsubscribe_holds (subId : SubscriberId) (segs : List Bytes) (node : Node)
    (es : List (Edge Bytes)) (tail : Bool) (other : SubscriberId) :
    (node.unsubscribe subId segs).1.Holds es tail other ↔
      node.Holds es tail other ∧ ¬ (⟨es, tail⟩ = pattern segs ∧ other = subId) := by
  induction segs generalizing node es with
  | nil =>
    cases es <;> cases tail <;>
      simp [unsubscribe, pattern, Holds, child?, branches, hashSubs, exactSubs]
  | cons seg rest ih =>
    by_cases isHash : seg = [hash]
    · cases es <;> cases tail <;>
        simp [unsubscribe, pattern, isHash, Holds, child?, branches, hashSubs, exactSubs]
    · rw [pattern_cons isHash]
      cases found : node.child? (edge seg) with
      | none =>
        have stays : (node.unsubscribe subId (seg :: rest)).1 = node := by
          simp [unsubscribe, isHash, found]
        rw [stays]
        refine ⟨fun held => ⟨held, ?_⟩, And.left⟩
        rintro ⟨same, -⟩
        obtain ⟨rfl, -⟩ := Pattern.mk.inj same
        obtain ⟨child, here, -⟩ := held
        simp [found] at here
      | some child =>
        have walk : (node.unsubscribe subId (seg :: rest)).1 =
            node.putChild (edge seg) (child.unsubscribe subId rest).1 := by
          simp [unsubscribe, isHash, found]
        rw [walk]
        cases es with
        | nil => simp [holds_putChild_nil, Pattern.cons]
        | cons e es =>
          rw [holds_putChild, ih]
          by_cases same : e = edge seg
          · subst same
            simp [Pattern.cons, Pattern.ext_iff, Holds, found]
          · simp [same, Pattern.cons]

theorem lookup_unsubscribeBranches (subId : SubscriberId) (branches : Branches)
    (e : Edge Bytes) :
    (unsubscribeBranches subId branches).1.lookup e =
      (branches.lookup e).map (fun child => (child.unsubscribeAll subId).1) := by
  induction branches with
  | nil => simp [unsubscribeBranches]
  | cons entry rest ih =>
    obtain ⟨e₀, child₀⟩ := entry
    by_cases same : e = e₀ <;> simp [unsubscribeBranches, lookup_branch, same, ih]

theorem unsubscribeAll_holds (subId : SubscriberId) (es : List (Edge Bytes)) (node : Node)
    (tail : Bool) (other : SubscriberId) :
    (node.unsubscribeAll subId).1.Holds es tail other ↔
      node.Holds es tail other ∧ other ≠ subId := by
  induction es generalizing node with
  | nil =>
    obtain ⟨branches, hashes, exacts⟩ := node
    cases tail <;> simp [unsubscribeAll, Holds, hashSubs, exactSubs]
  | cons e es ih =>
    obtain ⟨table, hashes, exacts⟩ := node
    simp only [Holds, child?, unsubscribeAll, branches, lookup_unsubscribeBranches,
      Option.map_eq_some_iff]
    constructor
    · rintro ⟨_, ⟨child, found, rfl⟩, held⟩
      obtain ⟨before, another⟩ := (ih child).mp held
      exact ⟨⟨child, found, before⟩, another⟩
    · rintro ⟨⟨child, found, held⟩, another⟩
      exact ⟨_, ⟨child, found, rfl⟩, (ih child).mpr ⟨held, another⟩⟩

/-- The walk collects exactly the subscribers stored under a pattern that accepts the topic. -/
theorem mem_matchInto (segs : List Bytes) (node : Node) (out : List SubscriberId)
    (subId : SubscriberId) :
    subId ∈ node.matchInto segs out ↔
      subId ∈ out ∨ ∃ p : Pattern Bytes, node.Holds p.edges p.tail subId ∧ p.Accepts segs := by
  induction segs generalizing node out with
  | nil =>
    simp only [matchInto, List.mem_union_iff, accepts_empty]
    constructor
    · rintro (atEnd | atHash | already)
      · exact .inr ⟨⟨[], false⟩, by simpa [Holds] using atEnd, rfl⟩
      · exact .inr ⟨⟨[], true⟩, by simpa [Holds] using atHash, rfl⟩
      · exact .inl already
    · rintro (already | ⟨⟨es, tail⟩, held, rfl⟩)
      · exact .inr (.inr already)
      · cases tail
        · exact .inl (by simpa [Holds] using held)
        · exact .inr (.inl (by simpa [Holds] using held))
  | cons seg rest ih =>
    have step : ∀ e out, subId ∈ (match node.child? e with
        | none => out
        | some child => matchInto rest child out) ↔
        subId ∈ out ∨ ∃ p : Pattern Bytes, node.Holds (e :: p.edges) p.tail subId ∧
          p.Accepts rest := by
      intro e out
      cases found : node.child? e <;> simp [Holds, found, ih]
    simp only [matchInto, step, List.mem_union_iff]
    constructor
    · rintro (((atHash | already) | ⟨p, held, accepts⟩) | ⟨p, held, accepts⟩)
      · exact .inr ⟨⟨[], true⟩, by simpa [Holds] using atHash, by simp [accepts_nil]⟩
      · exact .inl already
      · exact .inr ⟨p.cons (.exact seg), held, accepts_cons.mpr ⟨rfl, accepts⟩⟩
      · exact .inr ⟨p.cons .one, held, accepts_cons.mpr ⟨trivial, accepts⟩⟩
    · rintro (already | ⟨⟨es, tail⟩, held, accepts⟩)
      · exact .inl (.inl (.inr already))
      · cases es with
        | nil =>
          cases tail
          · simp [accepts_nil] at accepts
          · exact .inl (.inl (.inl (by simpa [Holds] using held)))
        | cons e es =>
          obtain ⟨fits, later⟩ := accepts_cons.mp accepts
          cases e with
          | exact item =>
            cases fits
            exact .inl (.inr ⟨⟨es, tail⟩, held, later⟩)
          | one => exact .inr ⟨⟨es, tail⟩, held, later⟩

/-- Subscribers are collected in a set. -/
theorem matchInto_nodup (segs : List Bytes) (node : Node) {out : List SubscriberId}
    (h : out.Nodup) : (node.matchInto segs out).Nodup := by
  induction segs generalizing node out with
  | nil => exact (h.union _).union _
  | cons seg rest ih =>
    have step : ∀ (e : Edge Bytes) (out : List SubscriberId), out.Nodup →
        (match node.child? e with
          | none => out
          | some child => matchInto rest child out).Nodup := by
      intro e out h
      split
      · exact h
      · exact ih _ h
    exact step _ _ (step _ _ (h.union _))

end Node

namespace TopicTrie

theorem subscribed_empty (p : Pattern Bytes) (subId : SubscriberId) :
    ¬ ({} : TopicTrie).Subscribed p subId :=
  Node.holds_empty _ _ _

theorem subscribed_subscribe (trie : TopicTrie) (filter : Bytes) (subId : SubscriberId)
    (p : Pattern Bytes) (other : SubscriberId) :
    (trie.subscribe filter subId).1.Subscribed p other ↔
      trie.Subscribed p other ∨ (p = pattern (split filter) ∧ other = subId) :=
  Node.subscribe_holds subId (split filter) trie.root p.edges p.tail other

theorem subscribed_unsubscribe (trie : TopicTrie) (filter : Bytes) (subId : SubscriberId)
    (p : Pattern Bytes) (other : SubscriberId) :
    (trie.unsubscribe filter subId).1.Subscribed p other ↔
      trie.Subscribed p other ∧ ¬ (p = pattern (split filter) ∧ other = subId) :=
  Node.unsubscribe_holds subId (split filter) trie.root p.edges p.tail other

theorem subscribed_unsubscribeAll (trie : TopicTrie) (subId : SubscriberId)
    (p : Pattern Bytes) (other : SubscriberId) :
    (trie.unsubscribeAll subId).1.Subscribed p other ↔
      trie.Subscribed p other ∧ other ≠ subId :=
  Node.unsubscribeAll_holds subId p.edges trie.root p.tail other

theorem mem_matchTopic (trie : TopicTrie) (topic : Bytes) (subId : SubscriberId) :
    subId ∈ trie.matchTopic topic ↔
      ∃ p, trie.Subscribed p subId ∧ p.Accepts (split topic) := by
  simp [matchTopic, Node.mem_matchInto, Subscribed]

end TopicTrie

end SecureLink.Source.PubSub
