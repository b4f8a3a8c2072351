import SecureLink.Library.BigEndian

/-!
# Topic strings

src/sl_topic.c:6-92. The scanners walk with an index into the string; here the index is the
part of the string that still lies ahead, so `i < len` reads as "something is ahead".
Character classes are those of the C locale.
-/
namespace SecureLink.Source.PubSub
open Library.BigEndian

def slTopicMaxLen : Nat := 256
def slTopicMaxSegments : Nat := 16

def slash : UInt8 := 0x2F
def plus : UInt8 := 0x2B
def hash : UInt8 := 0x23

def isalnum (c : UInt8) : Bool :=
  (0x30 ≤ c && c ≤ 0x39) || (0x41 ≤ c && c ≤ 0x5A) || (0x61 ≤ c && c ≤ 0x7A)

def segCharOk (c : UInt8) : Bool := isalnum c || c == 0x5F || c == 0x2D

def commonStructureOk (s : Bytes) : Bool :=
  if s.length == 0 || s.length > slTopicMaxLen then false
  else if s.head? == some slash || s.getLast? == some slash then false
  else 1 + s.count slash ≤ slTopicMaxSegments

/-- The loop over the characters with `seg_len`, the length of the segment so far. -/
def validPublishLoop : Bytes → Nat → Bool
  | [], segLen => segLen > 0
  | c :: rest, segLen =>
    if c == slash then
      if segLen == 0 then false else validPublishLoop rest 0
    else if !segCharOk c then false
    else validPublishLoop rest (segLen + 1)

def slTopicIsValidPublish (topic : Bytes) : Bool :=
  if !commonStructureOk topic then false else validPublishLoop topic 0

/-- The segment ahead: everything up to the next separator. -/
def segment (ahead : Bytes) : Bytes := ahead.takeWhile (· != slash)

/-- What is ahead once the segment, and the separator if one ends it, are passed. -/
def pastSegment (ahead : Bytes) : Bytes := ahead.drop ((segment ahead).length + 1)

/-- Each pass moves past at least one character, so the length of the string bounds them. -/
def validFilterLoop : Nat → Bytes → Bool
  | 0, _ => true
  | fuel + 1, ahead =>
    if ahead.isEmpty then true
    else
      let seg := segment ahead
      if seg.length == 0 then false
      else if seg == [plus] then validFilterLoop fuel (pastSegment ahead)
      else if seg == [hash] then
        if seg.length != ahead.length then false else validFilterLoop fuel (pastSegment ahead)
      else if !seg.all segCharOk then false
      else validFilterLoop fuel (pastSegment ahead)

def slTopicIsValidFilter (filter : Bytes) : Bool :=
  if !commonStructureOk filter then false else validFilterLoop filter.length filter

/-- The two-index scan. It ends when either string is used up. -/
def matchesLoop : Nat → Bytes → Bytes → Bool
  | 0, topic, filter => topic.isEmpty && filter.isEmpty
  | fuel + 1, topic, filter =>
    if topic.isEmpty || filter.isEmpty then topic.isEmpty && filter.isEmpty
    else
      let fseg := segment filter
      if fseg == [hash] then true
      else
        let tseg := segment topic
        if fseg != [plus] && fseg != tseg then false
        else matchesLoop fuel (pastSegment topic) (pastSegment filter)

def slTopicMatches (topic filter : Bytes) : Bool :=
  if !slTopicIsValidPublish topic then false
  else if !slTopicIsValidFilter filter then false
  else matchesLoop topic.length topic filter

theorem slTopicIsValidPublish_iff {topic : Bytes} :
    slTopicIsValidPublish topic = true ↔
      commonStructureOk topic = true ∧ validPublishLoop topic 0 = true := by
  rw [slTopicIsValidPublish]
  cases commonStructureOk topic <;> simp

theorem slTopicIsValidFilter_iff {filter : Bytes} :
    slTopicIsValidFilter filter = true ↔
      commonStructureOk filter = true ∧ validFilterLoop filter.length filter = true := by
  rw [slTopicIsValidFilter]
  cases commonStructureOk filter <;> simp

theorem slTopicMatches_iff {topic filter : Bytes} :
    slTopicMatches topic filter = true ↔
      slTopicIsValidPublish topic = true ∧ slTopicIsValidFilter filter = true ∧
        matchesLoop topic.length topic filter = true := by
  unfold slTopicMatches
  cases slTopicIsValidPublish topic <;> cases slTopicIsValidFilter filter <;> simp

/-- A string of the common structure is not empty and does not end in a separator. -/
theorem commonStructureOk_ends {s : Bytes} (ok : commonStructureOk s = true) :
    s ≠ [] ∧ s.getLast? ≠ some slash := by
  unfold commonStructureOk at ok
  split at ok
  · simp at ok
  next fits =>
    split at ok
    · simp at ok
    next ends => exact ⟨fun empty => by simp [empty] at fits, by simp at ends; exact ends.2⟩

theorem validPublish_ends {topic : Bytes} (valid : slTopicIsValidPublish topic = true) :
    topic ≠ [] ∧ topic.getLast? ≠ some slash :=
  commonStructureOk_ends (slTopicIsValidPublish_iff.mp valid).1

theorem validFilter_ends {filter : Bytes} (valid : slTopicIsValidFilter filter = true) :
    filter ≠ [] ∧ filter.getLast? ≠ some slash :=
  commonStructureOk_ends (slTopicIsValidFilter_iff.mp valid).1

theorem validPublishLoop_chars {s : Bytes} {segLen : Nat}
    (valid : validPublishLoop s segLen = true) : ∀ c ∈ s, c = slash ∨ segCharOk c = true := by
  induction s generalizing segLen with
  | nil => simp
  | cons c rest ih =>
    simp only [validPublishLoop] at valid
    intro d member
    rcases List.mem_cons.mp member with rfl | later
    · grind
    · grind

/-- A publish topic has no wildcard character anywhere. -/
theorem validPublish_chars {topic : Bytes} (valid : slTopicIsValidPublish topic = true) :
    ∀ c ∈ topic, c ≠ plus ∧ c ≠ hash := by
  intro c member
  rcases validPublishLoop_chars (slTopicIsValidPublish_iff.mp valid).2 c member with rfl | ok
  · decide
  · constructor <;> rintro rfl <;> revert ok <;> decide

end SecureLink.Source.PubSub
