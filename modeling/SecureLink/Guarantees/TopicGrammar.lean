import SecureLink.Source.PubSub.Segments

/-!
# The grammar of topics and filters

The two scanners of src/sl_topic.c against the grammar of its header: segments between single
separators, the number and the characters of the segments, and where a wildcard may stand.
-/
namespace SecureLink.Guarantees.TopicGrammar
open Library.BigEndian Source.PubSub

/-- A character of `[A-Za-z0-9_-]`. -/
def TopicChar (c : UInt8) : Prop :=
  (0x41 ≤ c ∧ c ≤ 0x5A) ∨ (0x61 ≤ c ∧ c ≤ 0x7A) ∨ (0x30 ≤ c ∧ c ≤ 0x39) ∨ c = 0x5F ∨ c = 0x2D

def Word (seg : Bytes) : Prop := seg ≠ [] ∧ ∀ c ∈ seg, TopicChar c

/-- At most 256 bytes: one to 16 words, with a separator between each and the next. -/
def PublishTopic (s : Bytes) : Prop :=
  s.length ≤ 256 ∧ ∃ segs : List Bytes, s = [slash].intercalate segs ∧
    1 ≤ segs.length ∧ segs.length ≤ 16 ∧ ∀ seg ∈ segs, Word seg

/-- In a filter any segment may be `+`, and the last one `#`. -/
def TopicFilter (s : Bytes) : Prop :=
  s.length ≤ 256 ∧ ∃ (init : List Bytes) (last : Bytes), s = [slash].intercalate (init ++ [last]) ∧
    init.length + 1 ≤ 16 ∧ (∀ seg ∈ init, Word seg ∨ seg = [plus]) ∧
    (Word last ∨ last = [plus] ∨ last = [hash])

/-! ## Characters and words -/

theorem segCharOk_iff (c : UInt8) : segCharOk c = true ↔ TopicChar c := by
  simp only [segCharOk, isalnum, TopicChar, Bool.or_eq_true, Bool.and_eq_true, decide_eq_true_eq,
    beq_iff_eq]
  constructor
  · intro class_
    rcases class_ with (((digit | upper) | lower) | underscore) | dash
    · exact Or.inr (Or.inr (Or.inl digit))
    · exact Or.inl upper
    · exact Or.inr (Or.inl lower)
    · exact Or.inr (Or.inr (Or.inr (Or.inl underscore)))
    · exact Or.inr (Or.inr (Or.inr (Or.inr dash)))
  · intro class_
    rcases class_ with upper | lower | digit | underscore | dash
    · exact Or.inl (Or.inl (Or.inl (Or.inr upper)))
    · exact Or.inl (Or.inl (Or.inr lower))
    · exact Or.inl (Or.inl (Or.inl (Or.inl digit)))
    · exact Or.inl (Or.inr underscore)
    · exact Or.inr dash

theorem word_iff (seg : Bytes) : Word seg ↔ seg ≠ [] ∧ seg.all segCharOk = true := by
  simp only [Word, List.all_eq_true, segCharOk_iff]

theorem Word.no_slash {seg : Bytes} (word : Word seg) : slash ∉ seg := by
  intro member
  exact absurd ((segCharOk_iff slash).mpr (word.2 slash member)) (by decide)

/-- A filter segment of any kind has characters, and no separator among them. -/
theorem segment_shape {seg : Bytes} (shape : Word seg ∨ seg = [plus] ∨ seg = [hash]) :
    seg ≠ [] ∧ slash ∉ seg := by
  rcases shape with word | rfl | rfl
  · exact ⟨word.1, word.no_slash⟩
  · decide
  · decide

/-! ## The common structure -/

/-- The segments have characters, so the string neither begins nor ends with a separator. -/
theorem ends_of_segments {s : Bytes} (nonempty : ∀ seg ∈ split s, seg ≠ []) :
    s ≠ [] ∧ s.head? ≠ some slash ∧ s.getLast? ≠ some slash := by
  refine ⟨?_, ?_, ?_⟩
  · intro empty
    exact nonempty [] (by rw [empty]; exact List.mem_singleton_self _) rfl
  · intro first
    obtain ⟨rest, rfl⟩ : ∃ rest, s = slash :: rest := by
      cases s with
      | nil => cases first
      | cons c rest => exact ⟨rest, by rw [Option.some.inj first]⟩
    refine nonempty [] ?_ rfl
    rw [show slash :: rest = [] ++ slash :: rest from rfl, split_append_slash]
    exact List.mem_append_left _ (List.mem_singleton_self _)
  · intro last
    obtain ⟨init, rfl⟩ := List.getLast?_eq_some_iff.mp last
    refine nonempty [] ?_ rfl
    rw [split_append_slash]
    exact List.mem_append_right _ (List.mem_singleton_self _)

theorem commonStructureOk_iff (s : Bytes) :
    commonStructureOk s = true ↔ s ≠ [] ∧ s.length ≤ 256 ∧ s.head? ≠ some slash ∧
      s.getLast? ≠ some slash ∧ (split s).length ≤ 16 := by
  rw [length_split, commonStructureOk]
  split
  next size =>
    simp only [Bool.or_eq_true, beq_iff_eq, List.length_eq_zero_iff, decide_eq_true_eq] at size
    refine iff_of_false Bool.false_ne_true ?_
    intro ⟨nonempty, short, _⟩
    exact size.elim nonempty (Nat.not_lt.mpr short)
  next size =>
    simp only [Bool.or_eq_true, beq_iff_eq, List.length_eq_zero_iff, decide_eq_true_eq, not_or] at size
    split
    next ends =>
      simp only [Bool.or_eq_true, beq_iff_eq] at ends
      refine iff_of_false Bool.false_ne_true ?_
      intro ⟨_, _, first, last, _⟩
      exact ends.elim first last
    next ends =>
      simp only [Bool.or_eq_true, beq_iff_eq, not_or] at ends
      rw [decide_eq_true_eq, slTopicMaxSegments]
      constructor
      · intro few
        exact ⟨size.1, Nat.le_of_not_lt size.2, ends.1, ends.2, few⟩
      · intro ⟨_, _, _, _, few⟩
        exact few

/-- A property of segments that have no separator holds of the segments of the string. -/
theorem exists_segments_iff {s : Bytes} {p : List Bytes → Prop}
    (shape : ∀ segs, p segs → segs ≠ [] ∧ ∀ seg ∈ segs, slash ∉ seg) :
    (∃ segs, s = [slash].intercalate segs ∧ p segs) ↔ p (split s) := by
  constructor
  · intro ⟨segs, joined, holds⟩
    obtain ⟨some, whole⟩ := shape segs holds
    rw [joined, split_intercalate some whole]
    exact holds
  · intro holds
    exact ⟨split s, (intercalate_split s).symm, holds⟩

/-! ## The scan of a publish topic -/

/-- The loop, with the segment that it is in. -/
theorem validPublishLoop_iff {seg : Bytes} (ok : ∀ c ∈ seg, TopicChar c) (s : Bytes) :
    validPublishLoop s seg.length = true ↔ ∀ w ∈ splitLoop seg s, Word w := by
  induction s generalizing seg with
  | nil =>
    rw [splitLoop, List.forall_mem_singleton, validPublishLoop, decide_eq_true_eq, Word, and_iff_left ok,
      gt_iff_lt, List.length_pos_iff]
  | cons c rest ih =>
    by_cases separator : (c == slash) = true
    · rw [splitLoop, if_pos separator, List.forall_mem_cons, validPublishLoop, if_pos separator, Word,
        and_iff_left ok, ← @ih [] (by simp)]
      by_cases empty : seg = []
      · simp [empty]
      · simp [empty]
    · rw [splitLoop, if_neg separator, validPublishLoop, if_neg separator]
      by_cases char : segCharOk c = true
      · have longer : ∀ d ∈ seg ++ [c], TopicChar d := by
          intro d member
          rcases List.mem_append.mp member with old | new
          · exact ok d old
          · rw [List.mem_singleton.mp new]
            exact (segCharOk_iff c).mp char
        rw [if_neg (by simp [char]), ← ih longer, List.length_append, List.length_singleton]
      · refine iff_of_false (by simp [char]) ?_
        intro words
        rw [splitLoop_eq] at words
        have here := (words _ List.mem_cons_self).2 c (by simp)
        exact char ((segCharOk_iff c).mpr here)

/-! ## The scan of a filter -/

/-- Each segment is allowed, and no `#` is followed by another. -/
def FilterSegments (segs : List Bytes) : Prop :=
  (∀ seg ∈ segs, Word seg ∨ seg = [plus] ∨ seg = [hash]) ∧ [hash] ∉ segs.dropLast

theorem filterSegments_cons {seg : Bytes} {rest : List Bytes} :
    FilterSegments (seg :: rest) ↔
      (Word seg ∨ seg = [plus] ∨ seg = [hash]) ∧ (seg = [hash] → rest = []) ∧ FilterSegments rest := by
  cases rest with
  | nil => simp [FilterSegments]
  | cons next rest =>
    rw [FilterSegments, FilterSegments, List.forall_mem_cons, List.dropLast_cons_cons, List.mem_cons, not_or,
      eq_comm (a := [hash])]
    simp only [reduceCtorEq, imp_false]
    constructor
    · intro ⟨⟨here, later⟩, notHash, noHash⟩
      exact ⟨here, notHash, later, noHash⟩
    · intro ⟨here, notHash, later, noHash⟩
      exact ⟨⟨here, later⟩, notHash, noHash⟩

/-- The loop takes off one segment at a time. -/
theorem validFilterLoop_iff {fuel : Nat} {s : Bytes} (enough : s.length ≤ fuel) (closed : Closed s) :
    validFilterLoop fuel s = true ↔ FilterSegments (segmentsAhead s) := by
  induction fuel generalizing s with
  | zero =>
    rw [List.eq_nil_of_length_eq_zero (Nat.le_zero.mp enough)]
    exact iff_of_true rfl ⟨by simp, by simp⟩
  | succ fuel ih =>
    by_cases done : s = []
    · rw [done]
      exact iff_of_true rfl ⟨by simp, by simp⟩
    obtain ⟨ahead, restClosed⟩ := segmentsAhead_step done closed
    have shorter := pastSegment_length done
    have later := ih (Nat.le_of_lt_succ (Nat.lt_of_lt_of_le shorter enough)) restClosed
    rw [ahead, filterSegments_cons, ← later, validFilterLoop, if_neg (by simpa using done)]
    dsimp only
    by_cases empty : segment s = []
    · simp [empty, Word]
    rw [if_neg (by simpa using empty)]
    by_cases isPlus : segment s = [plus]
    · have other : [plus] ≠ [hash] := by decide
      simp [isPlus, other]
    rw [if_neg (by simpa using isPlus)]
    by_cases isHash : segment s = [hash]
    · rw [if_pos (by simpa using isHash)]
      by_cases more : (segment s).length < s.length
      · -- something follows the `#`
        have follows : segmentsAhead (pastSegment s) ≠ [] := by
          rw [segmentsAhead_of_ne (pastSegment_ne_nil closed more), split_eq]
          exact List.cons_ne_nil _ _
        have apart : (segment s).length ≠ s.length := Nat.ne_of_lt more
        rw [if_pos (by simpa using apart)]
        exact iff_of_false Bool.false_ne_true fun segments => follows (segments.2.1 isHash)
      · have whole : (segment s).length = s.length :=
          Nat.le_antisymm (List.takeWhile_prefix _).length_le (Nat.not_lt.mp more)
        rw [if_neg (by simpa using whole), pastSegment_eq_nil more]
        exact ⟨fun rest => ⟨Or.inr (Or.inr isHash), fun _ => rfl, rest⟩, fun segments => segments.2.2⟩
    · rw [if_neg (by simpa using isHash)]
      by_cases chars : (segment s).all segCharOk = true
      · have word : Word (segment s) := (word_iff _).mpr ⟨empty, chars⟩
        rw [if_neg (by simp [chars])]
        simp [word, isHash]
      · have notWord : ¬ Word (segment s) := fun word => chars ((word_iff _).mp word).2
        rw [if_pos (by simp [chars])]
        simp [notWord, isPlus, isHash]

/-! ## Both validators -/

theorem slTopicIsValidPublish_segments (s : Bytes) :
    slTopicIsValidPublish s = true ↔
      s.length ≤ 256 ∧ 1 ≤ (split s).length ∧ (split s).length ≤ 16 ∧ ∀ seg ∈ split s, Word seg := by
  have loop := @validPublishLoop_iff [] (by simp) s
  have positive : 1 ≤ (split s).length := by
    rw [length_split]
    exact Nat.le_add_right _ _
  rw [slTopicIsValidPublish_iff, commonStructureOk_iff]
  constructor
  · intro accepted
    obtain ⟨⟨_, short, _, _, few⟩, scanned⟩ := accepted
    exact ⟨short, positive, few, loop.mp scanned⟩
  · intro grammar
    obtain ⟨short, _, few, words⟩ := grammar
    obtain ⟨nonempty, first, last⟩ := ends_of_segments fun seg member => (words seg member).1
    exact ⟨⟨nonempty, short, first, last, few⟩, loop.mpr words⟩

theorem slTopicIsValidFilter_segments (s : Bytes) :
    slTopicIsValidFilter s = true ↔
      s.length ≤ 256 ∧ (split s).length ≤ 16 ∧ FilterSegments (split s) := by
  rw [slTopicIsValidFilter_iff, commonStructureOk_iff]
  constructor
  · intro accepted
    obtain ⟨⟨nonempty, short, _, last, few⟩, scanned⟩ := accepted
    rw [validFilterLoop_iff (Nat.le_refl _) last, segmentsAhead_of_ne nonempty] at scanned
    exact ⟨short, few, scanned⟩
  · intro grammar
    obtain ⟨short, few, segments⟩ := grammar
    obtain ⟨nonempty, first, last⟩ :=
      ends_of_segments fun seg member => (segment_shape (segments.1 seg member)).1
    refine ⟨⟨nonempty, short, first, last, few⟩, ?_⟩
    rw [validFilterLoop_iff (Nat.le_refl _) last, segmentsAhead_of_ne nonempty]
    exact segments

/-- The last segment apart. -/
theorem filterSegments_append {init : List Bytes} {last : Bytes} :
    FilterSegments (init ++ [last]) ↔
      (∀ seg ∈ init, Word seg ∨ seg = [plus]) ∧ (Word last ∨ last = [plus] ∨ last = [hash]) := by
  rw [FilterSegments, List.dropLast_concat]
  constructor
  · intro ⟨shapes, noHash⟩
    refine ⟨fun seg member => ?_, shapes last (List.mem_append_right _ (List.mem_singleton_self _))⟩
    rcases shapes seg (List.mem_append_left _ member) with word | isPlus | isHash
    · exact Or.inl word
    · exact Or.inr isPlus
    · exact absurd (isHash ▸ member) noHash
  · intro ⟨front, back⟩
    constructor
    · intro seg member
      rcases List.mem_append.mp member with inFront | atEnd
      · exact (front seg inFront).elim Or.inl fun isPlus => Or.inr (Or.inl isPlus)
      · rw [List.mem_singleton.mp atEnd]
        exact back
    · intro member
      rcases front _ member with word | isPlus
      · exact absurd ((segCharOk_iff hash).mpr (word.2 hash (List.mem_singleton_self _))) (by decide)
      · exact absurd isPlus (by decide)

/-- The validators accept exactly the grammar. -/
theorem validators_accept_grammar (s : Bytes) :
    (slTopicIsValidPublish s = true ↔ PublishTopic s) ∧
      (slTopicIsValidFilter s = true ↔ TopicFilter s) := by
  constructor
  · rw [slTopicIsValidPublish_segments, PublishTopic, exists_segments_iff]
    intro segs ⟨nonempty, _, words⟩
    exact ⟨List.length_pos_iff.mp nonempty, fun seg member => (words seg member).no_slash⟩
  · have joined : (∃ segs, s = [slash].intercalate segs ∧ segs ≠ [] ∧ segs.length ≤ 16 ∧
        FilterSegments segs) ↔ split s ≠ [] ∧ (split s).length ≤ 16 ∧ FilterSegments (split s) := by
      rw [exists_segments_iff]
      intro segs ⟨nonempty, _, segments⟩
      exact ⟨nonempty, fun seg member => (segment_shape (segments.1 seg member)).2⟩
    have pieces : split s ≠ [] := by
      rw [split_eq]
      exact List.cons_ne_nil _ _
    rw [and_iff_right pieces] at joined
    rw [slTopicIsValidFilter_segments, TopicFilter, ← joined]
    apply and_congr_right
    intro _
    constructor
    · intro ⟨segs, same, nonempty, few, segments⟩
      obtain ⟨init, last, rfl⟩ : ∃ init last, segs = init ++ [last] :=
        ⟨_, _, (List.dropLast_append_getLast nonempty).symm⟩
      refine ⟨init, last, same, ?_, filterSegments_append.mp segments⟩
      rwa [List.length_append] at few
    · intro ⟨init, last, same, few, segments⟩
      refine ⟨init ++ [last], same, by simp, ?_, filterSegments_append.mpr segments⟩
      rwa [List.length_append]

end SecureLink.Guarantees.TopicGrammar
