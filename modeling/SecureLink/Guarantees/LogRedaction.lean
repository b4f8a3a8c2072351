import SecureLink.Source.Logging.LogRedact

/-!
# What is left after redaction

Keys are runs of hex digits, addresses of hosts four groups of digits, addresses of people an `@`
between two characters of a name. The first two scanners rewrite words, and none of their marks
is long enough for a key. The last one misses no group, because it tries every place that it
copies. The scanner for `@` looks at the first one of a token only: a token that begins with one
is copied whatever else is in it.
-/
namespace SecureLink.Guarantees.LogRedaction
open Library.BigEndian Library.Numerals Library.Pieces Library.Substrings Source.Logging

/-! ## Words -/

/-- A piece that ends with its word or with the character behind it. -/
theorem withNext_output {piece : Bytes → Bytes × Bytes} (shortens : Shortens (frontOf piece))
    {word text : Bytes} {c : UInt8} {rest : Bytes}
    (here : piece (word ++ c :: rest) = withNext text (c :: rest)) :
    output (frontOf piece) (word ++ c :: rest) = text ++ c :: output (frontOf piece) rest := by
  have front : frontOf piece (word ++ c :: rest) = some (text ++ [c], rest) := by
    cases word with
    | nil => exact congrArg some here
    | cons d word => exact congrArg some here
  rw [output_read shortens front, List.append_assoc, List.singleton_append]

theorem takeWhile_next {p : UInt8 → Bool} {word : Bytes} (symbols : ∀ c ∈ word, p c = true) {c : UInt8}
    (other : ¬ p c = true) (rest : Bytes) : (word ++ c :: rest).takeWhile p = word :=
  takeWhile_word symbols fun _ first => Option.some.inj first ▸ other

theorem output_last {piece : Bytes → Bytes × Bytes} (shortens : Shortens (frontOf piece))
    {word text : Bytes} (nonempty : word ≠ []) (here : piece word = (text, [])) :
    output (frontOf piece) word = text := by
  have front : frontOf piece word = some (text, []) := by
    obtain ⟨c, word, rfl⟩ := List.exists_cons_of_ne_nil nonempty
    exact congrArg some here
  rw [output_read shortens front, output_refused rfl, List.append_nil]

/-- What is written for a run of hex digits. -/
def hexText (run : Bytes) : Bytes := if run.length ≥ 32 then redactedHex run.length else run

theorem hexPiece_word {word : Bytes} (digits : ∀ c ∈ word, isHex c = true) :
    hexPiece word = (hexText word, []) := by
  rw [hexPiece, List.takeWhile_eq_self_iff.mpr digits, List.drop_length, hexText]
  split <;> rfl

theorem hexPiece_short {word : Bytes} (digits : ∀ c ∈ word, isHex c = true) (short : ¬ word.length ≥ 32)
    {c : UInt8} (other : ¬ isHex c = true) (rest : Bytes) :
    output (frontOf hexPiece) (word ++ c :: rest) = word ++ c :: output (frontOf hexPiece) rest := by
  apply withNext_output hexPiece_shortens
  rw [hexPiece, takeWhile_next digits other rest, if_neg short, List.drop_left]

theorem hexPiece_rewrites : RewritesWords (frontOf hexPiece) isHex hexText where
  last word digits := by
    by_cases empty : word = []
    · rw [empty, output_refused rfl]
      rfl
    · exact output_last hexPiece_shortens empty (hexPiece_word digits)
  next word c rest digits other := by
    rw [hexText]
    split
    next long =>
      have front : frontOf hexPiece (word ++ c :: rest) = some (redactedHex word.length, c :: rest) := by
        obtain ⟨d, tail, rfl⟩ := List.exists_cons_of_ne_nil (List.ne_nil_of_length_pos (by omega : 0 < word.length))
        rw [List.cons_append, frontOf, ← List.cons_append, hexPiece,
          takeWhile_next digits other rest, if_pos long, List.drop_left]
      have alone := hexPiece_short (List.forall_mem_nil _) (by decide) other rest
      rw [List.nil_append, List.nil_append] at alone
      rw [output_read hexPiece_shortens front, alone]
    next short => exact hexPiece_short digits short other rest

theorem emailPiece_rewrites : RewritesWords (frontOf emailPiece) isTokenChar emailText where
  last word symbols := by
    by_cases empty : word = []
    · rw [empty, output_refused rfl]
      rfl
    · apply output_last emailPiece_shortens empty
      rw [emailPiece, List.takeWhile_eq_self_iff.mpr symbols, List.drop_length]
      rfl
  next word c rest symbols other := by
    apply withNext_output emailPiece_shortens
    rw [emailPiece, takeWhile_next symbols other rest, List.drop_left]

/-! ## Keys -/

abbrev HexDigit (c : UInt8) : Prop := isHex c = true

theorem length_redactedHex (n : Nat) : (redactedHex n).length < 32 := by
  have mark : (ascii "<REDACTED-HEX-").length = 14 := by decide
  have number := List.length_take_le 15 (numeral 10 n ++ [0x3E])
  rw [redactedHex, List.length_append, mark]
  omega

theorem isTokenChar_of_hex (c : UInt8) (hex : HexDigit c) : isTokenChar c = true := by
  have all : ∀ c, isHex c = true → isTokenChar c = true := forall_octet (by decide +kernel)
  exact all c hex

theorem emailText_cases (token : Bytes) : emailText token = token ∨ emailText token = ascii "<email>" := by
  rw [emailText]
  split
  next => exact Or.inl rfl
  next =>
    split
    next => exact Or.inr rfl
    next => exact Or.inl rfl

/-- The first stage leaves no key, -/
theorem hexOutput_runs (input : Bytes) : RunsBelow HexDigit 32 (output (frontOf hexPiece) input) := by
  refine hexPiece_rewrites.runsBelow (fun c hex => hex) fun word _ => runsBelow_short ?_
  rw [hexText]
  split
  next => exact length_redactedHex _
  next short => exact Nat.lt_of_not_le short

/-- the second makes none, -/
theorem emailOutput_runs {input : Bytes} (runs : RunsBelow HexDigit 32 input) :
    RunsBelow HexDigit 32 (output (frontOf emailPiece) input) := by
  refine emailPiece_rewrites.runsBelow isTokenChar_of_hex fun word member => ?_
  rcases emailText_cases word with same | mark
  · rw [same]
    exact runs.infix (infix_of_mem_wordsOf member)
  · rw [mark]
    exact runsBelow_short (by decide)

theorem ipv4Piece_copies {q : UInt8 → Prop} (mark : ∀ c ∈ ascii "<ip>", ¬ q c) :
    CopiesOrMarks (frontOf ipv4Piece) q := by
  intro input text rest read
  cases input with
  | nil => cases read
  | cons c input =>
    have piece := Option.some.inj read
    rcases ipv4Piece_cases c input with copied | ⟨behind, marked, part, _⟩
    · obtain ⟨rfl, rfl⟩ := Prod.mk.inj (copied.symm.trans piece)
      exact Or.inl ⟨c, rfl, rfl⟩
    · obtain ⟨rfl, rfl⟩ := Prod.mk.inj (marked.symm.trans piece)
      exact Or.inr ⟨part, by decide, mark⟩

/-- and neither does the last. -/
theorem ipv4Output_runs {input : Bytes} (runs : RunsBelow HexDigit 32 input) :
    RunsBelow HexDigit 32 (output (frontOf ipv4Piece) input) := by
  intro run inside all
  by_cases empty : run = []
  · rw [empty]
    decide
  · obtain ⟨c, rest, part, front, _⟩ :=
      infix_copied ipv4Piece_shortens (ipv4Piece_copies (by decide +kernel)) inside empty all
    exact runs run (front.isInfix.trans part.isInfix) all

/-! ## Addresses of hosts -/

/-- One to three digits. -/
def Group (d : Bytes) : Prop := 1 ≤ d.length ∧ d.length ≤ 3 ∧ ∀ c ∈ d, isDigit c = true

/-- Four groups of digits separated by single dots. -/
def Quad (w : Bytes) : Prop :=
  ∃ a b c d, Group a ∧ Group b ∧ Group c ∧ Group d ∧ w = a ++ dot :: (b ++ dot :: (c ++ dot :: d))

theorem Group.digits {d : Bytes} (group : Group d) (rest : Bytes) :
    ((d ++ rest).take 3).takeWhile isDigit = d ++ (rest.take (3 - d.length)).takeWhile isDigit := by
  rw [List.take_append, List.take_of_length_le group.2.1, List.takeWhile_append_of_pos group.2.2]

theorem ipv4Loop_group {d : Bytes} (group : Group d) {left : Nat} (more : left > 0) (dots : Nat)
    (rest : Bytes) : ipv4Loop (left + 1) dots (d ++ dot :: rest) = ipv4Loop left (dots + 1) rest := by
  have digits : ((d ++ dot :: rest).take 3).takeWhile isDigit = d := by
    rw [group.digits]
    cases 3 - d.length with
    | zero => exact List.append_nil d
    | succ k => exact List.append_nil d
  have nonzero : ¬ d.length = 0 := by
    have one := group.1
    omega
  rw [ipv4Loop, digits, if_neg nonzero, if_pos more, List.drop_left]
  exact if_neg (not_not_intro rfl)

theorem ipv4Loop_last {d : Bytes} (group : Group d) (dots : Nat) (rest : Bytes) :
    ∃ behind, ipv4Loop 1 dots (d ++ rest) = some (behind, dots) := by
  have nonzero : ¬ (((d ++ rest).take 3).takeWhile isDigit).length = 0 := by
    have one := group.1
    rw [group.digits, List.length_append]
    omega
  rw [ipv4Loop, if_neg nonzero, if_neg (Nat.lt_irrefl 0)]
  exact ⟨_, rfl⟩

/-- Where an address begins, nothing is copied. -/
theorem Quad.marked {w : Bytes} (quad : Quad w) {c : UInt8} {rest : Bytes} (front : w <+: c :: rest) :
    frontOf ipv4Piece (c :: rest) ≠ some ([c], rest) := by
  obtain ⟨v, whole⟩ := front
  obtain ⟨g₁, g₂, g₃, g₄, group₁, group₂, group₃, group₄, rfl⟩ := quad
  obtain ⟨behind, last⟩ := ipv4Loop_last group₄ 3 v
  have found : ipv4Loop 4 0 (c :: rest) = some (behind, 3) := by
    rw [← whole]
    simp only [List.append_assoc, List.cons_append]
    rw [ipv4Loop_group group₁ (by decide), ipv4Loop_group group₂ (by decide),
      ipv4Loop_group group₃ (by decide), last]
  rw [frontOf, ipv4Piece, found]
  intro copied
  have texts := congrArg (fun piece => piece.1.length) (Option.some.inj copied)
  exact absurd texts (show ¬ (ascii "<ip>").length = 1 by decide)

theorem Quad.symbols {w : Bytes} (quad : Quad w) : w ≠ [] ∧ ∀ c ∈ w, isDigit c = true ∨ c = dot := by
  obtain ⟨g₁, g₂, g₃, g₄, group₁, group₂, group₃, group₄, rfl⟩ := quad
  constructor
  · exact List.append_ne_nil_of_right_ne_nil _ (List.cons_ne_nil _ _)
  · intro c member
    simp only [List.mem_append, List.mem_cons] at member
    rcases member with one | rfl | two | rfl | three | rfl | four
    · exact Or.inl (group₁.2.2 c one)
    · exact Or.inr rfl
    · exact Or.inl (group₂.2.2 c two)
    · exact Or.inr rfl
    · exact Or.inl (group₃.2.2 c three)
    · exact Or.inr rfl
    · exact Or.inl (group₄.2.2 c four)

theorem ipv4Output_no_quad (input : Bytes) {w : Bytes} (inside : w <:+: output (frontOf ipv4Piece) input) :
    ¬ Quad w := by
  intro quad
  obtain ⟨nonempty, symbols⟩ := quad.symbols
  have copies : CopiesOrMarks (frontOf ipv4Piece) fun c => isDigit c = true ∨ c = dot :=
    ipv4Piece_copies (by decide +kernel)
  obtain ⟨c, rest, _, front, copied⟩ := infix_copied ipv4Piece_shortens copies inside nonempty symbols
  exact quad.marked front copied

/-! ## The three stages -/

theorem slLogRedactAll_succeeded {input : Bytes} {outCap : Nat}
    (succeeded : 0 ≤ (slLogRedactAll input outCap).2) :
    (slLogRedactAll input outCap).1 =
      output (frontOf ipv4Piece) (output (frontOf emailPiece) (output (frontOf hexPiece) input)) := by
  rw [slLogRedactAll] at succeeded ⊢
  dsimp only at succeeded ⊢
  split_ifs at succeeded ⊢ with hexFailed emailFailed
  · exact absurd succeeded (by decide)
  · exact absurd succeeded (by decide)
  · have hex : (slLogRedactHex input 1024).1 = output (frontOf hexPiece) input :=
      redact_succeeded hexPiece_shortens (Int.not_lt.mp hexFailed)
    have email : (slLogRedactEmail (slLogRedactHex input 1024).1 1024).1 =
        output (frontOf emailPiece) (slLogRedactHex input 1024).1 :=
      redact_succeeded emailPiece_shortens (Int.not_lt.mp emailFailed)
    rw [← hex, ← email]
    exact redact_succeeded ipv4Piece_shortens succeeded

/-- What the three stages write holds no 32 hex digits in a row and no dotted quad. -/
theorem keys_and_hosts_redacted (input : Bytes) (outCap : Nat)
    (succeeded : 0 ≤ (slLogRedactAll input outCap).2) :
    RunsBelow HexDigit 32 (slLogRedactAll input outCap).1 ∧
      ∀ w, w <:+: (slLogRedactAll input outCap).1 → ¬ Quad w := by
  rw [slLogRedactAll_succeeded succeeded]
  exact ⟨ipv4Output_runs (emailOutput_runs (hexOutput_runs input)), fun w inside => ipv4Output_no_quad _ inside⟩

/-- A host between two dots is found behind them. -/
theorem host_redacted :
    (slLogRedactAll (ascii "..10.0.0.255") 64).1 = ascii "..<ip>" ∧
      RunsBelow HexDigit 32 (slLogRedactAll (ascii "..10.0.0.255") 64).1 ∧
        ∀ w, w <:+: (slLogRedactAll (ascii "..10.0.0.255") 64).1 → ¬ Quad w :=
  ⟨by decide +kernel, keys_and_hosts_redacted (ascii "..10.0.0.255") 64 (by decide +kernel)⟩

/-! ## Addresses of people -/

/-- An `@` between two characters of an address. -/
def HasAddress (text : Bytes) : Prop :=
  ∃ l r, isWordChar l = true ∧ isWordChar r = true ∧ [l, atSign, r] <:+: text

theorem address_symbols {l r : UInt8} (left : isWordChar l = true) (right : isWordChar r = true) :
    ∀ c ∈ [l, atSign, r], isTokenChar c = true := by
  intro c member
  simp only [List.mem_cons, List.not_mem_nil, or_false] at member
  rcases member with rfl | rfl | rfl
  · rw [isTokenChar, left, Bool.true_or]
  · decide
  · rw [isTokenChar, right, Bool.true_or]

theorem not_hasAddress_mark : ¬ HasAddress (ascii "<email>") := by
  rintro ⟨l, r, _, _, inside⟩
  have member : atSign ∈ ascii "<email>" := inside.mem (by simp)
  exact absurd member (by decide)

/-- The first `@` of a token with an address is not its last character. -/
theorem HasAddress.first {token : Bytes} (address : HasAddress token) :
    ∃ i, token.findIdx? (· == atSign) = some i ∧ token.length > i + 1 := by
  obtain ⟨l, r, _, _, before, behind, rfl⟩ := address
  set token := before ++ [l, atSign, r] ++ behind with whole
  have length : token.length = before.length + 3 + behind.length := by
    rw [whole, List.length_append, List.length_append]
    rfl
  have here : token[before.length + 1]? = some atSign := by
    rw [whole, List.append_assoc, List.getElem?_append_right (Nat.le_add_right _ _), Nat.add_sub_cancel_left]
    rfl
  cases found : token.findIdx? (· == atSign) with
  | none =>
    have absent := List.findIdx?_eq_none_iff.mp found atSign (List.mem_of_getElem? here)
    exact absurd absent (by decide)
  | some i =>
    obtain ⟨_, _, first⟩ := List.findIdx?_eq_some_iff_getElem.mp found
    have least : i ≤ before.length + 1 := by
      by_contra later
      have other := first (before.length + 1) (Nat.lt_of_not_le later)
      obtain ⟨_, same⟩ := List.getElem_of_getElem? here
      rw [same] at other
      exact absurd other (by decide)
    exact ⟨i, rfl, by omega⟩

/-- An address survives in a token only behind an `@` at its beginning. -/
theorem hasAddress_emailText_iff (token : Bytes) :
    HasAddress (emailText token) ↔ token.head? = some atSign ∧ HasAddress token := by
  constructor
  · intro survives
    have copied : emailText token = token :=
      (emailText_cases token).resolve_right fun mark => not_hasAddress_mark (mark ▸ survives)
    have address : HasAddress token := copied ▸ survives
    obtain ⟨i, found, more⟩ := address.first
    have start : i = 0 := by
      by_contra later
      have mark : emailText token = ascii "<email>" := by
        rw [emailText, found]
        exact if_pos ⟨Nat.pos_of_ne_zero later, more⟩
      exact not_hasAddress_mark (mark ▸ survives)
    obtain ⟨inside, isAt, _⟩ := List.findIdx?_eq_some_iff_getElem.mp found
    refine ⟨?_, address⟩
    subst start
    rw [List.head?_eq_getElem?, List.getElem?_eq_getElem inside, beq_iff_eq.mp isAt]
  · rintro ⟨head, address⟩
    obtain ⟨rest, rfl⟩ := List.head?_eq_some_iff.mp head
    exact address

/-- No address is left, unless a token that begins with `@` holds one. -/
theorem addresses_redacted_iff (input : Bytes) (outCap : Nat)
    (succeeded : 0 ≤ (slLogRedactEmail input outCap).2) :
    ¬ HasAddress (slLogRedactEmail input outCap).1 ↔
      ∀ token ∈ wordsOf isTokenChar input, token.head? = some atSign → ¬ HasAddress token := by
  have written : (slLogRedactEmail input outCap).1 = output (frontOf emailPiece) input :=
    redact_succeeded emailPiece_shortens succeeded
  have somewhere : HasAddress (slLogRedactEmail input outCap).1 ↔
      ∃ token ∈ wordsOf isTokenChar input, HasAddress (emailText token) := by
    rw [written]
    constructor
    · rintro ⟨l, r, left, right, inside⟩
      obtain ⟨token, member, within⟩ :=
        (emailPiece_rewrites.infix_iff (address_symbols left right) input).mp inside
      exact ⟨token, member, l, r, left, right, within⟩
    · rintro ⟨token, member, l, r, left, right, within⟩
      exact ⟨l, r, left, right,
        (emailPiece_rewrites.infix_iff (address_symbols left right) input).mpr ⟨token, member, within⟩⟩
  rw [somewhere]
  simp only [hasAddress_emailText_iff, not_exists, not_and]

/-- An address in a text is replaced. -/
theorem address_redacted :
    (slLogRedactEmail (ascii "to bob@example.org.") 64).1 = ascii "to <email>" ∧
      ¬ HasAddress (slLogRedactEmail (ascii "to bob@example.org.") 64).1 := by
  have inside : ∀ token ∈ wordsOf isTokenChar (ascii "to bob@example.org."),
      token.head? ≠ some atSign := by decide +kernel
  exact ⟨by decide +kernel, (addresses_redacted_iff (ascii "to bob@example.org.") 64
    (by decide +kernel)).mpr fun token member starts => absurd starts (inside token member)⟩

/-- Only the first `@` of a token is looked at: one in front of an address lets it through. -/
theorem mention_copied :
    slLogRedactEmail (ascii "@bob@example.org") 64 = (ascii "@bob@example.org", 16) ∧
      HasAddress (slLogRedactEmail (ascii "@bob@example.org") 64).1 := by
  have copied : slLogRedactEmail (ascii "@bob@example.org") 64 = (ascii "@bob@example.org", 16) := by
    decide +kernel
  rw [copied]
  exact ⟨rfl, 0x62, 0x65, by decide, by decide, ascii "@bo", ascii "xample.org", by decide⟩

end SecureLink.Guarantees.LogRedaction
