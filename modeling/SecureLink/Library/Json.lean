import SecureLink.Library.Numerals
import SecureLink.Library.Substrings

/-!
# JSON texts

A reader of JSON without white space between its tokens. Strings are bytes; a code point that is
written as an escape stands for its bytes in UTF-8, surrogates are refused. Numbers are integers.
A writer of strings that the reader understands gives a writer of whole texts: a sequence of
tokens comes back unless two numbers stand side by side, as they never do in a value.
-/
namespace SecureLink.Library.Json
open BigEndian Numerals Pieces Substrings

def quote : UInt8 := 0x22
def backslash : UInt8 := 0x5C

/-! ## Strings -/

def simpleEscape (e : UInt8) : Option UInt8 :=
  if e = quote ∨ e = backslash ∨ e = 0x2F then some e
  else if e = 0x62 then some 0x08
  else if e = 0x66 then some 0x0C
  else if e = 0x6E then some 0x0A
  else if e = 0x72 then some 0x0D
  else if e = 0x74 then some 0x09
  else none

def hexValue (c : UInt8) : Option Nat :=
  if 0x30 ≤ c ∧ c ≤ 0x39 then some (c.toNat - 48)
  else if 0x61 ≤ c ∧ c ≤ 0x66 then some (c.toNat - 87)
  else if 0x41 ≤ c ∧ c ≤ 0x46 then some (c.toNat - 55)
  else none

/-- The bytes of the code point with these digits. -/
def codePoint (digits : Bytes) : Option Bytes :=
  (digits.mapM hexValue).bind fun values =>
    let n := values.foldl (16 * · + ·) 0
    if 0xD800 ≤ n ∧ n ≤ 0xDFFF then none else some (String.utf8EncodeChar (Char.ofNat n))

def unicodeEscape : Bytes → Option (Bytes × Bytes)
  | a :: b :: c :: d :: rest => (codePoint [a, b, c, d]).map fun bytes => (bytes, rest)
  | _ => none

/-- What stands behind a backslash. -/
def frontEscape : Bytes → Option (Bytes × Bytes)
  | [] => none
  | e :: rest => if e = 0x75 then unicodeEscape rest else (simpleEscape e).map fun b => ([b], rest)

/-- One character of a string, as its bytes. -/
def frontChar : Bytes → Option (Bytes × Bytes)
  | [] => none
  | c :: rest =>
    if c < 0x20 ∨ c = quote then none
    else if c ≠ backslash then some ([c], rest)
    else frontEscape rest

/-- A string from its quote to the next one that is not escaped. -/
def readString : Bytes → Option (Bytes × Bytes)
  | [] => none
  | q :: rest =>
    if q ≠ quote then none
    else
      match (parse frontChar rest).2 with
      | [] => none
      | e :: behind => if e = quote then some ((parse frontChar rest).1.flatten, behind) else none

theorem unicodeEscape_shortens : Shortens unicodeEscape := by
  intro input bytes rest read
  rw [unicodeEscape.eq_def] at read
  split at read
  next =>
    obtain ⟨_, _, same⟩ := Option.map_eq_some_iff.mp read
    rw [← (Prod.mk.inj same).2]
    simp only [List.length_cons]
    omega
  next => cases read

theorem frontEscape_shortens : Shortens frontEscape := by
  intro input bytes rest read
  cases input with
  | nil => cases read
  | cons e input =>
    rw [frontEscape] at read
    split at read
    next => exact Nat.lt_succ_of_lt (unicodeEscape_shortens _ _ _ read)
    next =>
      obtain ⟨_, _, same⟩ := Option.map_eq_some_iff.mp read
      rw [← (Prod.mk.inj same).2]
      exact Nat.lt_succ_self _

theorem frontChar_shortens : Shortens frontChar := by
  intro input bytes rest read
  cases input with
  | nil => cases read
  | cons c input =>
    rw [frontChar] at read
    split_ifs at read
    · rw [← (Prod.mk.inj (Option.some.inj read)).2]
      exact Nat.lt_succ_self _
    · exact Nat.lt_succ_of_lt (frontEscape_shortens _ _ _ read)

/-- A text that stands for a byte: the byte itself, or one of the two kinds of escapes. -/
def spells : Bytes → UInt8 → Bool
  | [x], c => x == c && 0x20 ≤ x && x != quote && x != backslash
  | [b, e], c => b == backslash && e != 0x75 && simpleEscape e == some c
  | [b, u, x₁, x₂, x₃, x₄], c => b == backslash && u == 0x75 && codePoint [x₁, x₂, x₃, x₄] == some [c]
  | _, _ => false

theorem frontChar_of_spells {spelled : Bytes} {c : UInt8} (h : spells spelled c = true) (rest : Bytes) :
    frontChar (spelled ++ rest) = some ([c], rest) := by
  rw [spells.eq_def] at h
  split at h
  next x =>
    simp only [Bool.and_eq_true, beq_iff_eq, bne_iff_ne, decide_eq_true_eq] at h
    obtain ⟨⟨⟨rfl, printable⟩, unquoted⟩, plain⟩ := h
    rw [List.singleton_append, frontChar, if_neg, if_pos plain]
    exact not_or.mpr ⟨UInt8.not_lt.mpr printable, unquoted⟩
  next b e =>
    simp only [Bool.and_eq_true, beq_iff_eq, bne_iff_ne] at h
    obtain ⟨⟨rfl, other⟩, escape⟩ := h
    show frontEscape (e :: rest) = _
    rw [frontEscape, if_neg other, escape, Option.map_some]
  next b u x₁ x₂ x₃ x₄ =>
    simp only [Bool.and_eq_true, beq_iff_eq] at h
    obtain ⟨⟨rfl, rfl⟩, digits⟩ := h
    show (codePoint [x₁, x₂, x₃, x₄]).map (fun bytes => (bytes, rest)) = _
    rw [digits, Option.map_some]
  next => cases h

/-- A string whose bytes are written in a way that the reader understands. -/
theorem readString_written {write : UInt8 → Bytes}
    (reads : ∀ c rest, frontChar (write c ++ rest) = some ([c], rest)) (s rest : Bytes) :
    readString (quote :: (s.flatMap write ++ quote :: rest)) = some (s, rest) := by
  have stop : frontChar (quote :: rest) = none := by
    rw [frontChar, if_pos (Or.inr rfl)]
  have parsed := parse_meant frontChar_shortens reads s (quote :: rest)
  rw [parse_refused stop, List.append_nil] at parsed
  rw [readString, if_neg (not_not_intro rfl), parsed]
  dsimp only
  rw [if_pos rfl, ← List.flatMap_def, List.flatMap_singleton']

/-! ## Tokens -/

inductive Mark
  | openBrace
  | closeBrace
  | openBracket
  | closeBracket
  | colon
  | comma
deriving DecidableEq

def Mark.char : Mark → UInt8
  | .openBrace => 0x7B
  | .closeBrace => 0x7D
  | .openBracket => 0x5B
  | .closeBracket => 0x5D
  | .colon => 0x3A
  | .comma => 0x2C

def markOf (c : UInt8) : Option Mark :=
  [Mark.openBrace, .closeBrace, .openBracket, .closeBracket, .colon, .comma].find? fun m => m.char == c

inductive Token
  | mark (m : Mark)
  | str (s : Bytes)
  | num (z : Int)
deriving DecidableEq

def numberChar (c : UInt8) : Bool :=
  decimalDigit c || c == minus || c == 0x2B || c == 0x2E || c == 0x65 || c == 0x45

def frontToken : Bytes → Option (Token × Bytes)
  | [] => none
  | c :: rest =>
    match markOf c with
    | some m => some (.mark m, rest)
    | none =>
      if c = quote then (readString (c :: rest)).map fun read => (.str read.1, read.2)
      else
        let lexeme := (c :: rest).takeWhile numberChar
        (readInt lexeme).map fun z => (.num z, (c :: rest).drop lexeme.length)

/-- All tokens of a text. -/
def lex (text : Bytes) : Option (List Token) :=
  if (parse frontToken text).2 = [] then some (parse frontToken text).1 else none

theorem readString_shortens : Shortens readString := by
  intro input s rest read
  cases input with
  | nil => cases read
  | cons q input =>
    have left := parse_left_length frontChar_shortens input
    rw [readString] at read
    split at read
    next => cases read
    next =>
      split at read
      next => cases read
      next e behind found =>
        split at read
        next =>
          rw [found, List.length_cons] at left
          rw [← (Prod.mk.inj (Option.some.inj read)).2, List.length_cons]
          omega
        next => cases read

theorem frontToken_shortens : Shortens frontToken := by
  intro input token rest read
  cases input with
  | nil => cases read
  | cons c input =>
    rw [frontToken] at read
    split at read
    next =>
      rw [← (Prod.mk.inj (Option.some.inj read)).2]
      exact Nat.lt_succ_self _
    next =>
      split at read
      next =>
        obtain ⟨found, string, same⟩ := Option.map_eq_some_iff.mp read
        rw [← (Prod.mk.inj same).2]
        exact readString_shortens _ _ _ string
      next =>
        obtain ⟨z, number, same⟩ := Option.map_eq_some_iff.mp read
        rw [← (Prod.mk.inj same).2, List.length_drop]
        -- the empty text is no number
        have nonempty : (c :: input).takeWhile numberChar ≠ [] := by
          intro empty
          rw [empty] at number
          cases number
        have positive := List.length_pos_iff.mpr nonempty
        rw [List.length_cons]
        omega

/-! ## Writing -/

section Write
variable (literal : Bytes → Bytes)

def write : Token → Bytes
  | .mark m => [m.char]
  | .str s => literal s
  | .num z => signedNumeral z

def text (tokens : List Token) : Bytes := tokens.flatMap (write literal)

theorem frontToken_mark (m : Mark) (rest : Bytes) : frontToken (m.char :: rest) = some (.mark m, rest) := by
  have found : markOf m.char = some m := by
    cases m <;> rfl
  rw [frontToken, found]

theorem numberChar_of_mem_signedNumeral (z : Int) : ∀ c ∈ signedNumeral z, numberChar c = true := by
  have digits : ∀ c ∈ numeral 10 z.natAbs, numberChar c = true := by
    intro c member
    rw [numberChar, decimalDigit_of_mem z.natAbs c member]
    rfl
  rw [signedNumeral]
  split
  next => exact List.forall_mem_cons.mpr ⟨rfl, digits⟩
  next => exact digits

/-- Nothing follows that belongs to a number. -/
def Delimited (rest : Bytes) : Prop := ∀ c, rest.head? = some c → ¬ numberChar c = true

theorem numberChar_other {c : UInt8} (number : numberChar c = true) : markOf c = none ∧ c ≠ quote := by
  have all : ∀ c, numberChar c = true → markOf c = none ∧ c ≠ quote := forall_octet (by decide +kernel)
  exact all c number

theorem frontToken_num (z : Int) {rest : Bytes} (delimited : Delimited rest) :
    frontToken (signedNumeral z ++ rest) = some (.num z, rest) := by
  have chars := numberChar_of_mem_signedNumeral z
  have lexeme : (signedNumeral z ++ rest).takeWhile numberChar = signedNumeral z :=
    takeWhile_word chars delimited
  have nonempty : signedNumeral z ≠ [] := by
    intro empty
    have read := readInt_signedNumeral z
    rw [empty] at read
    cases read
  obtain ⟨c, digits, shape⟩ := List.exists_cons_of_ne_nil nonempty
  obtain ⟨unmarked, unquoted⟩ := numberChar_other (chars c (by rw [shape]; exact List.mem_cons_self))
  have whole : signedNumeral z ++ rest = c :: (digits ++ rest) := by rw [shape, List.cons_append]
  rw [whole, frontToken, unmarked]
  dsimp only
  rw [if_neg unquoted, ← whole, lexeme, readInt_signedNumeral, List.drop_left]
  rfl

variable {literal} (reads : ∀ s rest, readString (literal s ++ rest) = some (s, rest))

theorem readString_quote {input rest s : Bytes} (read : readString input = some (s, rest)) :
    ∃ behind, input = quote :: behind := by
  cases input with
  | nil => cases read
  | cons q behind =>
    rw [readString] at read
    split at read
    next => cases read
    next here => exact ⟨behind, by rw [not_not.mp here]⟩

include reads

theorem frontToken_str (s rest : Bytes) : frontToken (literal s ++ rest) = some (.str s, rest) := by
  have read := reads s rest
  obtain ⟨behind, whole⟩ := readString_quote read
  have unmarked : markOf quote = none := by decide
  rw [whole] at read ⊢
  rw [frontToken, unmarked]
  dsimp only
  rw [if_pos rfl, read]
  rfl

/-- No two numbers side by side. -/
def NumsApart (tokens : List Token) : Prop := ∀ y z, ¬ [.num y, .num z] <:+: tokens

theorem delimited_text {tokens : List Token} (other : ∀ z, tokens.head? ≠ some (.num z)) :
    Delimited (text literal tokens) := by
  intro c first
  cases tokens with
  | nil => cases first
  | cons t tokens =>
    cases t with
    | mark m =>
      obtain rfl : m.char = c := Option.some.inj first
      cases m <;> decide
    | str s =>
      obtain ⟨behind, whole⟩ := readString_quote (reads s (text literal tokens))
      have same : text literal (.str s :: tokens) = quote :: behind := whole
      rw [same] at first
      obtain rfl : quote = c := Option.some.inj first
      decide
    | num z => exact absurd rfl (other z)

/-- The tokens of a written text. -/
theorem parse_text {tokens : List Token} (apart : NumsApart tokens) :
    parse frontToken (text literal tokens) = (tokens, []) := by
  induction tokens with
  | nil => exact parse_refused rfl
  | cons t tokens ih =>
    have later : NumsApart tokens := fun y z inside =>
      apart y z (inside.trans (List.suffix_cons t tokens).isInfix)
    have front : frontToken (write literal t ++ text literal tokens) = some (t, text literal tokens) := by
      cases t with
      | mark m => exact frontToken_mark m _
      | str s => exact frontToken_str reads s _
      | num y =>
        apply frontToken_num y
        apply delimited_text reads
        intro z next
        obtain ⟨rest, rfl⟩ := List.head?_eq_some_iff.mp next
        exact apart y z (List.prefix_append [.num y, .num z] rest).isInfix
    have whole : text literal (t :: tokens) = write literal t ++ text literal tokens := List.flatMap_cons
    rw [whole, parse_read frontToken_shortens front, ih later]

theorem lex_text {tokens : List Token} (apart : NumsApart tokens) : lex (text literal tokens) = some tokens := by
  rw [lex, parse_text reads apart, if_pos rfl]

end Write

/-! ## Values -/

def joined (items : List (List Token)) : List Token := [Token.mark .comma].intercalate items

def array (items : List (List Token)) : List Token :=
  .mark .openBracket :: (joined items ++ [.mark .closeBracket])

def member (m : Bytes × List Token) : List Token := .str m.1 :: .mark .colon :: m.2

def object (members : List (Bytes × List Token)) : List Token :=
  .mark .openBrace :: (joined (members.map member) ++ [.mark .closeBrace])

/-- The commas around one of the members. -/
theorem object_middle (front : List (Bytes × List Token)) (m : Bytes × List Token)
    (tail : List (Bytes × List Token)) :
    object (front ++ m :: tail) =
      .mark .openBrace :: (front.flatMap (fun m => member m ++ [.mark .comma]) ++
        (member m ++ (tail.flatMap (fun m => .mark .comma :: member m) ++ [.mark .closeBrace]))) := by
  rw [object, joined, List.map_append, List.map_cons, intercalate_middle, List.flatMap_map, List.flatMap_map,
    List.append_assoc, List.append_assoc]

section Text
variable (literal : Bytes → Bytes)

theorem text_str (s : Bytes) : text literal [.str s] = literal s := List.flatMap_singleton _ _

theorem text_num (z : Int) : text literal [.num z] = signedNumeral z := List.flatMap_singleton _ _

def memberText (m : Bytes × List Token) : Bytes := literal m.1 ++ Mark.colon.char :: text literal m.2

theorem text_append (a b : List Token) : text literal (a ++ b) = text literal a ++ text literal b :=
  List.flatMap_append

theorem text_joined (items : List (List Token)) :
    text literal (joined items) = [Mark.comma.char].intercalate (items.map (text literal)) := by
  cases items with
  | nil => rfl
  | cons item items =>
    rw [joined, intercalate_cons, List.map_cons, intercalate_cons, text_append, List.flatMap_map]
    congr 1
    rw [text, List.flatMap_assoc]
    rfl

theorem text_array (items : List (List Token)) :
    text literal (array items) =
      Mark.openBracket.char :: ([Mark.comma.char].intercalate (items.map (text literal)) ++ [Mark.closeBracket.char]) := by
  rw [← text_joined]
  exact congrArg (Mark.openBracket.char :: ·) (text_append literal _ _)

theorem text_object (members : List (Bytes × List Token)) :
    text literal (object members) =
      Mark.openBrace.char :: ([Mark.comma.char].intercalate (members.map (memberText literal)) ++ [Mark.closeBrace.char]) := by
  have texts : members.map (memberText literal) = (members.map member).map (text literal) := by
    rw [List.map_map]
    rfl
  rw [texts, ← text_joined]
  exact congrArg (Mark.openBrace.char :: ·) (text_append literal _ _)

theorem text_object_middle (front : List (Bytes × List Token)) (m : Bytes × List Token)
    (tail : List (Bytes × List Token)) :
    text literal (object (front ++ m :: tail)) =
      Mark.openBrace.char :: (front.flatMap (fun m => memberText literal m ++ [Mark.comma.char]) ++
        (memberText literal m ++ (tail.flatMap (fun m => Mark.comma.char :: memberText literal m) ++
          [Mark.closeBrace.char]))) := by
  rw [text_object, List.map_append, List.map_cons, intercalate_middle, List.flatMap_map, List.flatMap_map,
    List.append_assoc, List.append_assoc]

end Text

/-- The tokens of a value. -/
inductive Value : List Token → Prop
  | str (s : Bytes) : Value [.str s]
  | num (z : Int) : Value [.num z]
  | array (items : List (List Token)) : (∀ item ∈ items, Value item) → Value (array items)
  | object (members : List (Bytes × List Token)) : (∀ m ∈ members, Value m.2) → Value (object members)

theorem numsApart_mark {front back : List Token} (m : Mark) (before : NumsApart front) (after : NumsApart back) :
    NumsApart (front ++ .mark m :: back) := by
  intro y z inside
  rcases infix_separated inside (by simp) with left | right
  · exact before y z left
  · exact after y z right

theorem numsApart_nil : NumsApart [] := by
  intro y z inside
  cases List.infix_nil.mp inside

theorem numsApart_single (t : Token) : NumsApart [t] := by
  intro y z inside
  exact absurd inside.length_le (by simp)

theorem numsApart_joined {items : List (List Token)} (all : ∀ item ∈ items, NumsApart item) :
    NumsApart (joined items) := by
  induction items with
  | nil => exact numsApart_nil
  | cons item items ih =>
    rw [List.forall_mem_cons] at all
    cases items with
    | nil =>
      rw [joined, List.intercalate_singleton]
      exact all.1
    | cons next items =>
      rw [joined, List.intercalate_cons_cons, List.append_assoc]
      exact numsApart_mark .comma all.1 (ih all.2)

theorem Value.numsApart {tokens : List Token} (value : Value tokens) : NumsApart tokens := by
  induction value with
  | str s => exact numsApart_single _
  | num z => exact numsApart_single _
  | array items _ ih =>
    exact numsApart_mark .openBracket numsApart_nil
      (numsApart_mark .closeBracket (numsApart_joined ih) numsApart_nil)
  | object members _ ih =>
    have all : ∀ item ∈ members.map member, NumsApart item := by
      intro item inside
      obtain ⟨m, here, rfl⟩ := List.mem_map.mp inside
      exact numsApart_mark .colon (numsApart_single (.str m.1)) (ih m here)
    exact numsApart_mark .openBrace numsApart_nil
      (numsApart_mark .closeBrace (numsApart_joined all) numsApart_nil)

end SecureLink.Library.Json
