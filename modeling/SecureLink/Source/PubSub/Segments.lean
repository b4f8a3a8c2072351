import SecureLink.Source.PubSub.TopicTrie

/-!
# The byte scanner, segment by segment

The scan of src/sl_topic.c:62-92 walks raw characters, the trie of src/topic_trie.cpp walks
the list `split` returns. As long as a string does not end in a separator, what the
scanner has ahead is a list of segments too, and its verdict is one on patterns.
-/
namespace SecureLink.Source.PubSub
open Library.BigEndian Library.Wildcard

/-- The string is not cut off right behind a separator. -/
def Closed (s : Bytes) : Prop := s.getLast? ≠ some slash

@[simp] theorem segment_slash (rest : Bytes) : segment (slash :: rest) = [] := by
  simp [segment]

theorem segment_cons {c : UInt8} (other : c ≠ slash) (rest : Bytes) :
    segment (c :: rest) = c :: segment rest := by
  simp [segment, other]

theorem pastSegment_cons {c : UInt8} (other : c ≠ slash) (rest : Bytes) :
    pastSegment (c :: rest) = pastSegment rest := by
  simp [pastSegment, segment_cons other]

/-- The loop of `split` cuts where the scanner does. -/
theorem splitLoop_eq (seg s : Bytes) :
    splitLoop seg s = (seg ++ segment s) ::
      if (segment s).length < s.length then split (pastSegment s) else [] := by
  induction s generalizing seg with
  | nil => simp [splitLoop, segment]
  | cons c rest ih =>
    by_cases separator : c = slash
    · subst separator
      simp [splitLoop, pastSegment, split]
    · simp [splitLoop, separator, ih, segment_cons, pastSegment_cons]

theorem split_eq (s : Bytes) :
    split s = segment s :: if (segment s).length < s.length then split (pastSegment s) else [] :=
  splitLoop_eq [] s

/-- A segment that does not reach the end of the string is followed by a separator. -/
theorem segment_append {s : Bytes} (more : (segment s).length < s.length) :
    s = segment s ++ slash :: pastSegment s := by
  induction s with
  | nil => simp at more
  | cons c rest ih =>
    by_cases separator : c = slash
    · subst separator
      simp [pastSegment]
    · rw [segment_cons separator, pastSegment_cons separator, List.cons_append, ← ih]
      simpa [segment_cons separator] using more

theorem pastSegment_eq_nil {s : Bytes} (all : ¬ (segment s).length < s.length) :
    pastSegment s = [] :=
  List.drop_eq_nil_of_le (by omega)

theorem modifyHead_nil_append (segs : List Bytes) : segs.modifyHead ([] ++ ·) = segs := by
  cases segs <;> rfl

theorem splitLoop_eq_splitOn (seg s : Bytes) :
    splitLoop seg s = (s.splitOn slash).modifyHead (seg ++ ·) := by
  induction s generalizing seg with
  | nil => simp [splitLoop]
  | cons c rest ih =>
    rw [splitLoop, List.splitOn, List.splitOnP_cons_eq_if_modifyHead]
    by_cases separator : (c == slash) = true
    · rw [if_pos separator, if_pos separator, ih, modifyHead_nil_append, List.modifyHead_cons,
        List.append_nil, List.splitOn]
    · rw [if_neg separator, if_neg separator, ih, List.modifyHead_modifyHead, List.splitOn]
      congr 1
      funext seg'
      simp

theorem split_eq_splitOn (s : Bytes) : split s = s.splitOn slash := by
  rw [split, splitLoop_eq_splitOn, modifyHead_nil_append]

/-- Joining the segments with separators gives the string back. -/
theorem intercalate_split (s : Bytes) : [slash].intercalate (split s) = s := by
  rw [split_eq_splitOn, List.intercalate_splitOn]

theorem split_injective : Function.Injective split :=
  Function.LeftInverse.injective intercalate_split

/-- Splitting what was joined from segments without a separator gives them back. -/
theorem split_intercalate {segs : List Bytes} (some : segs ≠ []) (whole : ∀ seg ∈ segs, slash ∉ seg) :
    split ([slash].intercalate segs) = segs := by
  rw [split_eq_splitOn, List.splitOn_intercalate slash whole some]

theorem split_append_slash (s rest : Bytes) : split (s ++ slash :: rest) = split s ++ split rest := by
  simp only [split_eq_splitOn, List.splitOn_append_cons_self]

theorem length_split (s : Bytes) : (split s).length = 1 + s.count slash := by
  have loop : ∀ seg s, (splitLoop seg s).length = 1 + s.count slash := by
    intro seg s
    induction s generalizing seg with
    | nil => rfl
    | cons c rest ih =>
      rw [splitLoop, List.count_cons]
      split
      next => rw [List.length_cons, ih, Nat.add_assoc]
      next => rw [ih, Nat.add_zero]
  exact loop [] s

theorem mem_of_mem_split {s seg : Bytes} {c : UInt8} (member : seg ∈ split s) (inside : c ∈ seg) :
    c ∈ s := by
  have loop : ∀ start s, seg ∈ splitLoop start s → c ∈ start ++ s := by
    intro start s
    induction s generalizing start with
    | nil =>
      intro here
      simp only [splitLoop, List.mem_singleton] at here
      simpa [← here] using inside
    | cons d rest ih =>
      by_cases separator : d = slash
      · simp only [splitLoop, separator, BEq.rfl, if_true, List.mem_cons]
        rintro (rfl | later)
        · exact List.mem_append_left _ inside
        · exact List.mem_append_right _ (List.mem_cons_of_mem _ (by simpa using ih [] later))
      · intro later
        simp only [splitLoop, beq_iff_eq, separator, if_false] at later
        simpa using ih _ later
  simpa using loop [] s member

/-- The segments the scanner has ahead: none once the string is used up. -/
def segmentsAhead (s : Bytes) : List Bytes := if s = [] then [] else split s

@[simp] theorem segmentsAhead_nil : segmentsAhead [] = [] := rfl

theorem segmentsAhead_of_ne {s : Bytes} (some : s ≠ []) : segmentsAhead s = split s := by
  simp [segmentsAhead, some]

/-- Something lies behind the separator. -/
theorem pastSegment_ne_nil {s : Bytes} (closed : Closed s) (more : (segment s).length < s.length) :
    pastSegment s ≠ [] := by
  intro nothing
  have whole := segment_append more
  rw [nothing] at whole
  exact closed (by rw [whole]; simp)

/-- One pass of the scanner takes off one segment. -/
theorem segmentsAhead_step {s : Bytes} (some : s ≠ []) (closed : Closed s) :
    segmentsAhead s = segment s :: segmentsAhead (pastSegment s) ∧ Closed (pastSegment s) := by
  rw [segmentsAhead_of_ne some, split_eq]
  by_cases more : (segment s).length < s.length
  · have last := pastSegment_ne_nil closed more
    refine ⟨by rw [if_pos more, segmentsAhead_of_ne last], fun ends => closed ?_⟩
    rw [segment_append more, List.getLast?_append, List.getLast?_cons_of_ne_nil last, ends]
    rfl
  · rw [if_neg more, pastSegment_eq_nil more]
    exact ⟨by simp, by simp [Closed]⟩

theorem pastSegment_length {s : Bytes} (some : s ≠ []) : (pastSegment s).length < s.length := by
  have := List.length_pos_iff.mpr some
  simp only [pastSegment, List.length_drop]
  omega

/-- The publish check passes over the characters of a segment. -/
theorem validPublishLoop_segment {seg : Bytes} (ok : ∀ c ∈ seg, segCharOk c = true) (rest : Bytes)
    (segLen : Nat) :
    validPublishLoop (seg ++ rest) segLen = validPublishLoop rest (segLen + seg.length) := by
  induction seg generalizing segLen with
  | nil => rfl
  | cons c more ih =>
    have here := ok c List.mem_cons_self
    have separator : (c == slash) = false := by
      rw [beq_eq_false_iff_ne]
      rintro rfl
      exact absurd here (by decide)
    have later := ih (fun d member => ok d (List.mem_cons_of_mem c member)) (segLen + 1)
    rw [List.cons_append, validPublishLoop, separator, here, List.length_cons, ← Nat.add_assoc,
      Nat.add_right_comm]
    exact later

/-- Where the filter check meets no wildcard it checks what the publish check does. -/
theorem validPublishLoop_of_filter {fuel : Nat} {s : Bytes} (some : s ≠ []) (closed : Closed s)
    (enough : s.length ≤ fuel) (noPlus : plus ∉ s) (noHash : hash ∉ s)
    (valid : validFilterLoop fuel s = true) : validPublishLoop s 0 = true := by
  induction fuel generalizing s with
  | zero => exact absurd (List.eq_nil_of_length_eq_zero (Nat.le_zero.mp enough)) some
  | succ fuel ih =>
    have inside : ∀ c ∈ segment s, c ∈ s := fun c member => (List.takeWhile_prefix _).subset member
    have notPlus : segment s ≠ [plus] := by
      intro wild
      exact noPlus (inside plus (by simp [wild]))
    have notHash : segment s ≠ [hash] := by
      intro wild
      exact noHash (inside hash (by simp [wild]))
    simp only [validFilterLoop, List.isEmpty_iff, some, if_false, beq_iff_eq, notPlus, notHash] at valid
    by_cases empty : (segment s).length = 0
    · simp [empty] at valid
    · by_cases chars : (segment s).all segCharOk = true
      · have later : validFilterLoop fuel (pastSegment s) = true := by
          simpa [empty, chars] using valid
        have ok := List.all_eq_true.mp chars
        by_cases more : (segment s).length < s.length
        · have past : ∀ c ∈ pastSegment s, c ∈ s := fun c member => List.mem_of_mem_drop member
          have shorter := pastSegment_length some
          have rest := ih (pastSegment_ne_nil closed more) (segmentsAhead_step some closed).2 (by omega)
            (fun member => noPlus (past plus member)) (fun member => noHash (past hash member)) later
          rw [segment_append more, validPublishLoop_segment ok, validPublishLoop]
          simpa [empty] using rest
        · have whole : segment s = s := (List.takeWhile_prefix _).eq_of_length_le (Nat.not_lt.mp more)
          have reads := validPublishLoop_segment ok [] 0
          rw [List.append_nil, whole] at reads
          rw [reads, validPublishLoop, ← whole]
          simpa using Nat.pos_of_ne_zero empty
      · simp [empty, chars] at valid

theorem pattern_eq_closed_iff {segs : List Bytes} :
    ((pattern segs).edges = [] ∧ (pattern segs).tail = false) ↔ segs = [] := by
  cases segs with
  | nil => simp [pattern]
  | cons seg rest => by_cases isHash : seg = [hash] <;> simp [pattern, isHash]

theorem edge_fits {fseg tseg : Bytes} :
    (edge fseg).Fits tseg ↔ fseg = [plus] ∨ fseg = tseg := by
  by_cases isPlus : fseg = [plus] <;> simp [edge, isPlus, Edge.Fits]

/-- The scan accepts what the filter's pattern does, but its `#` insists on one more segment. -/
theorem matchesLoop_iff {fuel : Nat} {topic filter : Bytes} (enough : topic.length ≤ fuel)
    (topicClosed : Closed topic) (filterClosed : Closed filter) :
    matchesLoop fuel topic filter = true ↔
      (pattern (segmentsAhead filter)).AcceptsMore (segmentsAhead topic) := by
  have usedUp : ∀ filter : Bytes, filter.isEmpty = true ↔
      (pattern (segmentsAhead filter)).AcceptsMore [] := by
    intro filter
    rw [acceptsMore_empty, pattern_eq_closed_iff]
    by_cases empty : filter = []
    · simp [empty]
    · simp [empty, segmentsAhead_of_ne empty, split_eq filter]
  induction fuel generalizing topic filter with
  | zero =>
    obtain rfl : topic = [] := List.length_eq_zero_iff.mp (by omega)
    simpa [matchesLoop] using usedUp filter
  | succ fuel ih =>
    by_cases topicDone : topic = []
    · subst topicDone
      simpa [matchesLoop] using usedUp filter
    obtain ⟨topicAhead, topicRest⟩ := segmentsAhead_step topicDone topicClosed
    by_cases filterDone : filter = []
    · subst filterDone
      simp [matchesLoop, topicDone, topicAhead, pattern, acceptsMore_nil]
    obtain ⟨filterAhead, filterRest⟩ := segmentsAhead_step filterDone filterClosed
    have later : matchesLoop fuel (pastSegment topic) (pastSegment filter) = true ↔
        (pattern (segmentsAhead (pastSegment filter))).AcceptsMore
          (segmentsAhead (pastSegment topic)) :=
      ih (by have := pastSegment_length topicDone; omega) topicRest filterRest
    rw [topicAhead, filterAhead]
    by_cases isHash : segment filter = [hash]
    · simp [matchesLoop, topicDone, filterDone, isHash, pattern, acceptsMore_nil]
    · rw [pattern_cons isHash, Pattern.cons, acceptsMore_cons, edge_fits, ← later]
      by_cases isPlus : segment filter = [plus]
      · have other : plus ≠ hash := by decide
        simp [matchesLoop, topicDone, filterDone, isPlus, other]
      · simp [matchesLoop, topicDone, filterDone, isHash, isPlus]

/-- The documented rule: `+` is exactly one segment, a final `#` is zero or more. -/
def Matches (topic filter : Bytes) : Prop := (pattern (split filter)).Accepts (split topic)

/-- The filter ends in `#` and its other segments match the whole topic, so that the `#`
stands for no segment. -/
def HashAtEnd (topic filter : Bytes) : Prop := (pattern (split filter)).TailEmpty (split topic)

theorem slTopicMatches_spec {topic filter : Bytes} :
    slTopicMatches topic filter = true ↔
      slTopicIsValidPublish topic = true ∧ slTopicIsValidFilter filter = true ∧
        Matches topic filter ∧ ¬ HashAtEnd topic filter := by
  rw [slTopicMatches_iff]
  refine and_congr_right fun topicOk => and_congr_right fun filterOk => ?_
  obtain ⟨topicSome, topicClosed⟩ := validPublish_ends topicOk
  obtain ⟨filterSome, filterClosed⟩ := validFilter_ends filterOk
  rw [matchesLoop_iff le_rfl topicClosed filterClosed, segmentsAhead_of_ne topicSome,
    segmentsAhead_of_ne filterSome, acceptsMore_iff]
  rfl

end SecureLink.Source.PubSub
