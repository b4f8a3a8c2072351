import Mathlib.Data.List.Infix
import Mathlib.Data.List.TakeWhile
import SecureLink.Library.Pieces

/-!
# Substrings of rewritten texts

A scanner writes a text for each piece that it takes off its input. Where the pieces are words
and single symbols between them, a substring of its output that could stand in a word stands in
what was written for one. Where it writes the one symbol it took or a mark of other symbols, a
substring of its output that has nothing of a mark was copied as it stands, and the scanner
looked at the place where it begins.
-/
namespace SecureLink.Library.Substrings
open Pieces

variable {σ : Type*}

/-! ## Separators -/

/-- A substring without the separator lies on one side of it. -/
theorem infix_separated {a b w : List σ} {c : σ} (inside : w <:+: a ++ c :: b) (without : c ∉ w) :
    w <:+: a ∨ w <:+: b := by
  have behind : ∀ l : List σ, l <+: c :: b → c ∉ l → l = [] := by
    intro l front absent
    cases l with
    | nil => rfl
    | cons x l =>
      obtain ⟨rfl, _⟩ := List.cons_prefix_cons.mp front
      exact absurd List.mem_cons_self absent
  rcases List.infix_append_iff.mp inside with left | right | ⟨u, v, rfl, left, right⟩
  · exact Or.inl left
  · rcases List.infix_cons_iff.mp right with front | later
    · rw [behind w front without]
      exact Or.inl (List.nil_infix)
    · exact Or.inr later
  · rw [behind v right fun member => without (List.mem_append_right u member), List.append_nil]
    exact Or.inl left.isInfix

/-- What lies in front of the first separator, and what lies behind it. -/
theorem first_separator_unique {a a' b b' : List σ} {c : σ} (first : c ∉ a) (first' : c ∉ a')
    (same : a ++ c :: b = a' ++ c :: b') : a = a' ∧ b = b' := by
  induction a generalizing a' with
  | nil =>
    cases a' with
    | nil => exact ⟨rfl, (List.cons.inj same).2⟩
    | cons x a' =>
      obtain ⟨rfl, _⟩ := List.cons.inj same
      exact absurd List.mem_cons_self first'
  | cons x a ih =>
    cases a' with
    | nil =>
      obtain ⟨rfl, _⟩ := List.cons.inj same
      exact absurd List.mem_cons_self first
    | cons y a' =>
      obtain ⟨rfl, later⟩ := List.cons.inj same
      obtain ⟨rfl, rest⟩ :=
        ih (fun member => first (List.mem_cons_of_mem _ member))
          (fun member => first' (List.mem_cons_of_mem _ member)) later
      exact ⟨rfl, rest⟩

theorem intercalate_cons (c : σ) (item : List σ) (tail : List (List σ)) :
    [c].intercalate (item :: tail) = item ++ tail.flatMap (c :: ·) := by
  induction tail generalizing item with
  | nil => simp only [List.intercalate_singleton, List.flatMap_nil, List.append_nil]
  | cons next tail ih =>
    rw [List.intercalate_cons_cons, ih, List.flatMap_cons, List.append_assoc, List.singleton_append,
      List.cons_append]

/-- Items joined by a separator, around one of them. -/
theorem intercalate_middle (c : σ) (front : List (List σ)) (item : List σ) (tail : List (List σ)) :
    [c].intercalate (front ++ item :: tail) =
      front.flatMap (· ++ [c]) ++ (item ++ tail.flatMap (c :: ·)) := by
  induction front with
  | nil => exact intercalate_cons c item tail
  | cons first front ih =>
    have more : front ++ item :: tail ≠ [] := List.append_ne_nil_of_right_ne_nil _ (List.cons_ne_nil _ _)
    rw [List.cons_append, List.intercalate_cons_of_ne_nil more, ih, List.flatMap_cons]
    simp only [List.append_assoc]

/-- Lines that each end with a terminator. -/
theorem splitOn_terminated [BEq σ] [LawfulBEq σ] {c : σ} {lines : List (List σ)}
    (whole : ∀ line ∈ lines, c ∉ line) : (lines.flatMap (· ++ [c])).splitOn c = lines ++ [[]] := by
  induction lines with
  | nil => rfl
  | cons line lines ih =>
    rw [List.forall_mem_cons] at whole
    rw [List.flatMap_cons, List.append_assoc, List.singleton_append, List.splitOn_append_cons_self,
      List.splitOn_eq_singleton whole.1, ih whole.2]
    rfl

/-- A text is its longest word in front, and nothing or a symbol of no word behind it. -/
theorem word_split (p : σ → Bool) (text : List σ) :
    (∀ c ∈ text.takeWhile p, p c = true) ∧
      text = text.takeWhile p ++ text.drop (text.takeWhile p).length ∧
      (text.drop (text.takeWhile p).length = [] ∨
        ∃ c rest, text.drop (text.takeWhile p).length = c :: rest ∧ ¬ p c = true) := by
  have whole : text.takeWhile p ++ text.dropWhile p = text := List.takeWhile_append_dropWhile
  have behind : text.drop (text.takeWhile p).length = text.dropWhile p :=
    calc text.drop (text.takeWhile p).length
        = (text.takeWhile p ++ text.dropWhile p).drop (text.takeWhile p).length := by rw [whole]
      _ = text.dropWhile p := List.drop_left
  refine ⟨fun c member => List.mem_takeWhile_imp member, by rw [behind, whole], ?_⟩
  rw [behind]
  cases first : text.dropWhile p with
  | nil => exact Or.inl rfl
  | cons c rest =>
    have other := List.head?_dropWhile_not p text
    rw [first] at other
    exact Or.inr ⟨c, rest, rfl, by rw [other]; exact Bool.false_ne_true⟩

/-- The word in front of a text is not longer if no symbol of a word follows. -/
theorem takeWhile_word {p : σ → Bool} {word rest : List σ} (symbols : ∀ c ∈ word, p c = true)
    (ends : ∀ c, rest.head? = some c → ¬ p c = true) : (word ++ rest).takeWhile p = word := by
  rw [List.takeWhile_append_of_pos symbols]
  cases rest with
  | nil => exact List.append_nil word
  | cons c rest => rw [List.takeWhile_cons_of_neg (ends c rfl), List.append_nil]

/-- What holds of every word, and of a word and a text behind a separator if it holds of the text,
holds of every text. -/
theorem words_induction (p : σ → Bool) {motive : List σ → Prop}
    (last : ∀ word, (∀ c ∈ word, p c = true) → motive word)
    (next : ∀ word c rest, (∀ d ∈ word, p d = true) → ¬ p c = true → motive rest → motive (word ++ c :: rest))
    (text : List σ) : motive text := by
  induction length : text.length using Nat.strongRecOn generalizing text with
  | ind n ih =>
    obtain ⟨symbols, split, behind⟩ := word_split p text
    rcases behind with ends | ⟨c, rest, shape, other⟩
    · rw [ends, List.append_nil] at split
      rw [split]
      exact last _ symbols
    · rw [shape] at split
      have shorter : rest.length < text.length := by
        rw [split, List.length_append, List.length_cons]
        omega
      rw [split]
      exact next _ c rest symbols other (ih rest.length (by omega) rest rfl)

/-- The words of a text. -/
def wordsOf (p : σ → Bool) (text : List σ) : List (List σ) := text.splitOnP fun c => !p c

section Words
variable {p : σ → Bool} {word : List σ} (symbols : ∀ c ∈ word, p c = true)
include symbols

theorem wordsOf_word : wordsOf p word = [word] :=
  List.splitOnP_eq_singleton fun c member => by rw [symbols c member, Bool.not_true]

theorem wordsOf_next {c : σ} (other : ¬ p c = true) (rest : List σ) :
    wordsOf p (word ++ c :: rest) = word :: wordsOf p rest :=
  List.splitOnP_append_cons_of_forall_mem (fun d member => by rw [symbols d member, Bool.not_true]) c
    (by rw [Bool.not_eq_true'] ; exact Bool.not_eq_true _ ▸ other) rest

end Words

theorem infix_of_mem_wordsOf {p : σ → Bool} {text word : List σ} (member : word ∈ wordsOf p text) :
    word <:+: text := by
  induction text using words_induction p with
  | last text symbols =>
    rw [wordsOf_word symbols] at member
    obtain rfl := List.mem_singleton.mp member
    exact List.infix_refl _
  | next front c rest symbols other ih =>
    rw [wordsOf_next symbols other] at member
    rcases List.mem_cons.mp member with rfl | later
    · exact List.infix_append' [] word (c :: rest)
    · exact (ih later).trans ((List.suffix_cons c rest).trans (List.suffix_append front (c :: rest))).isInfix

/-- No substring of so many symbols of the class. -/
def RunsBelow (q : σ → Prop) (n : Nat) (text : List σ) : Prop :=
  ∀ run, run <:+: text → (∀ c ∈ run, q c) → run.length < n

section RunsBelow
variable {q : σ → Prop} {n : Nat}

theorem runsBelow_short {text : List σ} (short : text.length < n) : RunsBelow q n text :=
  fun _ inside _ => Nat.lt_of_le_of_lt inside.length_le short

theorem RunsBelow.infix {text part : List σ} (h : RunsBelow q n text) (inside : part <:+: text) :
    RunsBelow q n part :=
  fun run within all => h run (within.trans inside) all

end RunsBelow

/-! ## Outputs -/

/-- Everything that is written. -/
def output (front : List σ → Option (List σ × List σ)) (input : List σ) : List σ :=
  (parse front input).1.flatten

section Output
variable {front : List σ → Option (List σ × List σ)} (shortens : Shortens front)

theorem output_refused {input : List σ} (refused : front input = none) : output front input = [] := by
  rw [output, parse_refused refused]
  rfl

include shortens in
theorem output_read {input text rest : List σ} (read : front input = some (text, rest)) :
    output front input = text ++ output front rest := by
  rw [output, parse_read shortens read, List.flatten_cons, output]

/-- Every word is rewritten, and the symbols between them are copied. -/
structure RewritesWords (front : List σ → Option (List σ × List σ)) (p : σ → Bool)
    (f : List σ → List σ) : Prop where
  last : ∀ word, (∀ c ∈ word, p c = true) → output front word = f word
  next : ∀ word c rest, (∀ d ∈ word, p d = true) → ¬ p c = true →
    output front (word ++ c :: rest) = f word ++ c :: output front rest

/-- A substring that could stand in a word stands in what was written for one. -/
theorem RewritesWords.infix_iff {p : σ → Bool} {f : List σ → List σ} (h : RewritesWords front p f)
    {w : List σ} (symbols : ∀ c ∈ w, p c = true) (text : List σ) :
    w <:+: output front text ↔ ∃ word ∈ wordsOf p text, w <:+: f word := by
  induction text using words_induction p with
  | last word inWord =>
    rw [h.last word inWord, wordsOf_word inWord]
    simp only [List.mem_singleton, exists_eq_left]
  | next word c rest inWord other ih =>
    rw [h.next word c rest inWord other, wordsOf_next inWord other]
    simp only [List.mem_cons, exists_eq_or_imp, ← ih]
    constructor
    · intro inside
      exact infix_separated inside fun member => other (symbols c member)
    · rintro (left | right)
      · exact left.trans (List.prefix_append _ _).isInfix
      · exact right.trans ((List.suffix_cons c _).trans (List.suffix_append _ _)).isInfix

theorem RewritesWords.runsBelow {p : σ → Bool} {f : List σ → List σ} (h : RewritesWords front p f)
    {q : σ → Prop} (symbols : ∀ c, q c → p c = true) {n : Nat} {text : List σ}
    (words : ∀ word ∈ wordsOf p text, RunsBelow q n (f word)) : RunsBelow q n (output front text) := by
  intro run inside all
  obtain ⟨word, member, within⟩ := (h.infix_iff (fun c inRun => symbols c (all c inRun)) text).mp inside
  exact words word member run within all

/-- Every piece is a symbol that is copied, or is written as a mark without the symbols of the
class. -/
def CopiesOrMarks (front : List σ → Option (List σ × List σ)) (q : σ → Prop) : Prop :=
  ∀ input text rest, front input = some (text, rest) →
    (∃ c, input = c :: rest ∧ text = [c]) ∨ (rest <:+ input ∧ text ≠ [] ∧ ∀ c ∈ text, ¬ q c)

variable {q : σ → Prop} (copies : CopiesOrMarks front q)
include shortens copies

theorem prefix_copied {input w v : List σ} (all : ∀ c ∈ w, q c) (same : output front input = w ++ v) :
    w <+: input := by
  induction input using pieces_induction shortens generalizing w with
  | refused input none =>
    rw [output_refused none] at same
    obtain ⟨rfl, _⟩ := List.append_eq_nil_iff.mp same.symm
    exact List.nil_prefix
  | read input text rest here ih =>
    rw [output_read shortens here] at same
    cases w with
    | nil => exact List.nil_prefix
    | cons x w =>
      rcases copies input text rest here with ⟨c, rfl, rfl⟩ | ⟨_, nonempty, marks⟩
      · obtain ⟨rfl, later⟩ := List.cons_eq_cons.mp same
        exact List.cons_prefix_cons.mpr ⟨rfl, ih (fun d member => all d (List.mem_cons_of_mem _ member)) later⟩
      · obtain ⟨m, text, rfl⟩ := List.exists_cons_of_ne_nil nonempty
        obtain ⟨rfl, _⟩ := List.cons_eq_cons.mp same
        exact absurd (all m List.mem_cons_self) (marks m List.mem_cons_self)

/-- A substring of the output that has only symbols of the class stands in the input, and the symbol
it begins with was copied there. -/
theorem infix_copied {input w : List σ} (inside : w <:+: output front input) (nonempty : w ≠ [])
    (all : ∀ c ∈ w, q c) :
    ∃ c rest, c :: rest <:+ input ∧ w <+: c :: rest ∧ front (c :: rest) = some ([c], rest) := by
  induction input using pieces_induction shortens with
  | refused input none =>
    rw [output_refused none, List.infix_nil] at inside
    exact absurd inside nonempty
  | read input text rest here ih =>
    rw [output_read shortens here] at inside
    rcases copies input text rest here with ⟨c, rfl, rfl⟩ | ⟨behind, _, marks⟩
    · rcases List.infix_cons_iff.mp inside with ⟨v, same⟩ | within
      · exact ⟨c, rest, List.suffix_refl _, prefix_copied shortens copies all
          ((output_read shortens here).trans same.symm), here⟩
      · obtain ⟨d, tail, part, front_, copied⟩ := ih within
        exact ⟨d, tail, part.trans (List.suffix_cons c rest), front_, copied⟩
    · have apart : ∀ u, u <:+: text → u <:+: w → u = [] := by
        intro u inText inW
        by_contra nonempty
        obtain ⟨d, u, rfl⟩ := List.exists_cons_of_ne_nil nonempty
        exact marks d (inText.mem List.mem_cons_self) (all d (inW.mem List.mem_cons_self))
      have within : w <:+: output front rest := by
        rcases List.infix_append_iff.mp inside with left | right | ⟨u, v, rfl, left, right⟩
        · exact absurd (apart w left (List.infix_refl w)) nonempty
        · exact right
        · rw [apart u left.isInfix (List.prefix_append u v).isInfix]
          exact right.isInfix
      obtain ⟨d, tail, part, front_, copied⟩ := ih within
      exact ⟨d, tail, part.trans behind, front_, copied⟩

end Output

end SecureLink.Library.Substrings
