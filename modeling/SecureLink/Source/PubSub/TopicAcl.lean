import Mathlib.Data.List.AList
import SecureLink.Source.PubSub.Segments

/-!
# Topic access rules

src/topic_acl.cpp:9-62. Rules of one identity are kept in insertion order and the first one
whose filter matches decides; without one the default does. `check` is called with a
publish topic or with a subscription filter.
-/
namespace SecureLink.Source.PubSub
open Library.BigEndian Library.Wildcard

abbrev Fingerprint := FixedBytes 32

inductive TopicOp where
  | publish | subscribe
  deriving DecidableEq, Repr

structure TopicRule where
  filter : Bytes
  allow : Bool
  deriving DecidableEq, Repr

structure AclEntry where
  publishRules : List TopicRule := []
  subscribeRules : List TopicRule := []
  deriving DecidableEq, Repr

structure TopicAcl where
  byFp : AList (fun _ : Bytes => AclEntry) := ∅
  defaultAllow : Bool := false

namespace TopicAcl

def fpKey (fp : Fingerprint) : Bytes :=
  let d := ascii "0123456789abcdef"
  fp.val.flatMap fun (b : UInt8) =>
    [d.getD ((b >>> 4) &&& 0x0F).toNat 0, d.getD (b &&& 0x0F).toNat 0]

/-- Append a rule to the list of the operation, creating the entry on first use. -/
def addRule (acl : TopicAcl) (fp : Fingerprint) (op : TopicOp) (rule : TopicRule) : TopicAcl :=
  let e := (acl.byFp.lookup (fpKey fp)).getD {}
  let e := match op with
    | .publish => { e with publishRules := e.publishRules ++ [rule] }
    | .subscribe => { e with subscribeRules := e.subscribeRules ++ [rule] }
  { acl with byFp := acl.byFp.insert (fpKey fp) e }

def allow (acl : TopicAcl) (fp : Fingerprint) (op : TopicOp) (filter : Bytes) : TopicAcl :=
  acl.addRule fp op { filter, allow := true }

def deny (acl : TopicAcl) (fp : Fingerprint) (op : TopicOp) (filter : Bytes) : TopicAcl :=
  acl.addRule fp op { filter, allow := false }

def eval (acl : TopicAcl) : List TopicRule → Bytes → Bool
  | [], _ => acl.defaultAllow
  | r :: rest, s => if slTopicMatches s r.filter then r.allow else acl.eval rest s

def check (acl : TopicAcl) (fp : Fingerprint) (op : TopicOp) (topicOrFilter : Bytes) : Bool :=
  match acl.byFp.lookup (fpKey fp) with
  | none => acl.defaultAllow
  | some e =>
    acl.eval (match op with
      | .publish => e.publishRules
      | .subscribe => e.subscribeRules) topicOrFilter

/-- The rules of an identity for an operation; none without an entry. -/
def rulesFor (acl : TopicAcl) (fp : Fingerprint) (op : TopicOp) : List TopicRule :=
  match acl.byFp.lookup (fpKey fp) with
  | none => []
  | some e =>
    match op with
    | .publish => e.publishRules
    | .subscribe => e.subscribeRules

/-- The rule that decides about a string, if one does. -/
def decidingRule (rules : List TopicRule) (s : Bytes) : Option TopicRule :=
  rules.find? fun r => slTopicMatches s r.filter

/-- A deny rule of the identity decides about the string. -/
def Denies (acl : TopicAcl) (fp : Fingerprint) (op : TopicOp) (s : Bytes) : Prop :=
  ∃ r, decidingRule (acl.rulesFor fp op) s = some r ∧ r.allow = false

theorem check_eq (acl : TopicAcl) (fp : Fingerprint) (op : TopicOp) (s : Bytes) :
    acl.check fp op s =
      match decidingRule (acl.rulesFor fp op) s with
      | none => acl.defaultAllow
      | some r => r.allow := by
  have first : ∀ rules, acl.eval rules s =
      match decidingRule rules s with
      | none => acl.defaultAllow
      | some r => r.allow := by
    intro rules
    induction rules with
    | nil => rfl
    | cons r rest ih =>
      cases here : slTopicMatches s r.filter with
      | true => simp [eval, decidingRule, here]
      | false => simpa [eval, decidingRule, here] using ih
  rw [← first]
  cases entry : acl.byFp.lookup (fpKey fp) with
  | none => simp [check, rulesFor, entry, eval]
  | some e => cases op <;> simp [check, rulesFor, entry]

theorem check_of_denies {acl : TopicAcl} {fp : Fingerprint} {op : TopicOp} {s : Bytes}
    (denied : acl.Denies fp op s) : acl.check fp op s = false := by
  obtain ⟨r, rule, refuses⟩ := denied
  rw [check_eq, rule]
  exact refuses

/-- Under a permissive default, whatever no deny rule decides is permitted. -/
theorem check_of_not_denies {acl : TopicAcl} {fp : Fingerprint} {op : TopicOp} {s : Bytes}
    (permissive : acl.defaultAllow = true) (free : ¬ acl.Denies fp op s) :
    acl.check fp op s = true := by
  rw [check_eq]
  cases rule : decidingRule (acl.rulesFor fp op) s with
  | none => exact permissive
  | some r =>
    by_contra refused
    exact free ⟨r, rule, by simpa using refused⟩

/-- No rule ever speaks about a string that is not a publish topic: the default decides. -/
theorem check_of_not_publish {s : Bytes} (bad : slTopicIsValidPublish s = false) (acl : TopicAcl)
    (fp : Fingerprint) (op : TopicOp) : acl.check fp op s = acl.defaultAllow := by
  have silent : decidingRule (acl.rulesFor fp op) s = none := by
    simp [decidingRule, slTopicMatches, bad]
  rw [check_eq, silent]

end TopicAcl

/-- The filter has a wildcard segment; the validator lets these characters stand nowhere else. -/
def hasWildcard (filter : Bytes) : Bool := filter.contains plus || filter.contains hash

theorem pattern_exact {segs : List Bytes} (tame : ∀ seg ∈ segs, seg ≠ [plus] ∧ seg ≠ [hash]) :
    pattern segs = ⟨segs.map .exact, false⟩ := by
  induction segs with
  | nil => rfl
  | cons seg rest ih =>
    obtain ⟨notPlus, notHash⟩ := tame seg List.mem_cons_self
    have later := ih fun other member => tame other (List.mem_cons_of_mem _ member)
    simp [pattern_cons notHash, edge, notPlus, later, Pattern.cons]

theorem pattern_tame {filter : Bytes} (tame : hasWildcard filter = false) :
    pattern (split filter) = ⟨(split filter).map .exact, false⟩ := by
  have clean : plus ∉ filter ∧ hash ∉ filter := by simpa [hasWildcard] using tame
  apply pattern_exact
  intro seg member
  constructor <;> rintro rfl
  · exact clean.1 (mem_of_mem_split member List.mem_cons_self)
  · exact clean.2 (mem_of_mem_split member List.mem_cons_self)

/-- A filter without wildcards matches itself and nothing else. -/
theorem matches_exact {topic filter : Bytes} (tame : hasWildcard filter = false) :
    Matches topic filter ↔ topic = filter := by
  rw [Matches, pattern_tame tame, accepts_exact, split_injective.eq_iff]

/-- A filter without wildcards is a publish topic. -/
theorem validPublish_of_tame {filter : Bytes} (valid : slTopicIsValidFilter filter = true)
    (tame : hasWildcard filter = false) : slTopicIsValidPublish filter = true := by
  have clean : plus ∉ filter ∧ hash ∉ filter := by simpa [hasWildcard] using tame
  obtain ⟨some, closed⟩ := validFilter_ends valid
  unfold slTopicIsValidFilter at valid
  unfold slTopicIsValidPublish
  cases structured : commonStructureOk filter with
  | false => simp [structured] at valid
  | true =>
    rw [structured] at valid
    exact validPublishLoop_of_filter some closed (Nat.le_refl _) clean.1 clean.2 valid

/-- The scanner finds such a filter to match itself. -/
theorem tame_matches_itself {filter : Bytes} (valid : slTopicIsValidFilter filter = true)
    (tame : hasWildcard filter = false) : slTopicMatches filter filter = true := by
  have closed : ¬ HashAtEnd filter filter := by
    rw [HashAtEnd, pattern_tame tame]
    intro atEnd
    exact Bool.false_ne_true atEnd.1
  exact slTopicMatches_spec.mpr
    ⟨validPublish_of_tame valid tame, valid, (matches_exact tame).mpr rfl, closed⟩

/-- A wildcard filter is judged by the default alone. -/
theorem check_wildcard {filter : Bytes} (wild : hasWildcard filter = true) (acl : TopicAcl)
    (fp : Fingerprint) (op : TopicOp) : acl.check fp op filter = acl.defaultAllow := by
  refine TopicAcl.check_of_not_publish ?_ acl fp op
  by_contra valid
  have chars := validPublish_chars (by simpa using valid : slTopicIsValidPublish filter = true)
  simp only [hasWildcard, Bool.or_eq_true, List.contains_iff_mem] at wild
  rcases wild with found | found
  · exact (chars _ found).1 rfl
  · exact (chars _ found).2 rfl

end SecureLink.Source.PubSub
