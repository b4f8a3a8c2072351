import SecureLink.Library.Numerals
import SecureLink.Library.Substrings
import SecureLink.Source.PubSub.Topic

/-!
# Redaction of log texts

src/sl_log_redact.c:7-126. A text is its characters in front of the terminator, and the index of a
scanner the part of the text that still lies ahead. The three scanners differ in what a round of
their loop writes and how far it goes on, here their `piece`. Each writes character by character
into a buffer; what a failed call leaves in it is not read.
-/
namespace SecureLink.Source.Logging
open Library.BigEndian Library.Numerals Library.Pieces Library.Substrings
open PubSub (isalnum)

def isHex (c : UInt8) : Bool :=
  decimalDigit c || (0x61 ≤ c && c ≤ 0x66) || (0x41 ≤ c && c ≤ 0x46)

def isDigit (c : UInt8) : Bool := decimalDigit c

def atSign : UInt8 := 0x40

/-- The characters of an address beside the `@`. -/
def isWordChar (c : UInt8) : Bool := isalnum c || c == dot || c == 0x5F || c == 0x2B || c == 0x2D

def isTokenChar (c : UInt8) : Bool := isWordChar c || c == atSign

/-! ## The buffer -/

def appendCh (cap : Nat) (out : Bytes) (c : UInt8) : Option Bytes :=
  if out.length + 1 ≥ cap then none else some (out ++ [c])

def append (cap : Nat) : Bytes → Bytes → Option Bytes
  | out, [] => some out
  | out, c :: rest => (appendCh cap out c).bind fun out => append cap out rest

/-- The cast to `int` of a position. -/
def intOf (pos : Nat) : Int := Int.bmod pos (2 ^ 32)

/-- The loop of a scanner with what is written so far. Every round goes on, so the length of the
text bounds them. -/
def redactLoop (piece : Bytes → Bytes × Bytes) (cap : Nat) : Nat → Bytes → Bytes → Option Bytes
  | _, [], out => some out
  | 0, _ :: _, out => some out
  | fuel + 1, c :: rest, out =>
    (append cap out (piece (c :: rest)).1).bind fun out =>
      redactLoop piece cap fuel (piece (c :: rest)).2 out

/-- The text in the buffer and the number that is returned. -/
def redact (piece : Bytes → Bytes × Bytes) (input : Bytes) (outCap : Nat) : Bytes × Int :=
  if outCap = 0 then ([], -1)
  else
    match redactLoop piece outCap input.length input [] with
    | none => ([], -1)
    | some out => if out.length ≥ outCap then ([], -1) else (out, intOf out.length)

/-! ## The scanners -/

/-- A text, and the character behind it if there is one. -/
def withNext (text : Bytes) : Bytes → Bytes × Bytes
  | [] => (text, [])
  | c :: rest => (text ++ [c], rest)

/-- The number is cut to a buffer of 16 characters. -/
def redactedHex (n : Nat) : Bytes := ascii "<REDACTED-HEX-" ++ (numeral 10 n ++ [0x3E]).take 15

def hexPiece (ahead : Bytes) : Bytes × Bytes :=
  let run := ahead.takeWhile isHex
  if run.length ≥ 32 then (redactedHex run.length, ahead.drop run.length)
  else withNext run (ahead.drop run.length)

/-- What is written for a token: it is an address if its first `@` is neither its first character
nor its last. -/
def emailText (token : Bytes) : Bytes :=
  match token.findIdx? (· == atSign) with
  | none => token
  | some i => if i > 0 ∧ token.length > i + 1 then ascii "<email>" else token

def emailPiece (ahead : Bytes) : Bytes × Bytes :=
  let token := ahead.takeWhile isTokenChar
  withNext (emailText token) (ahead.drop token.length)

/-- The loop over the segments that are left, with the dots so far: what is behind them. -/
def ipv4Loop : Nat → Nat → Bytes → Option (Bytes × Nat)
  | 0, dots, ahead => some (ahead, dots)
  | left + 1, dots, ahead =>
    let digits := (ahead.take 3).takeWhile isDigit
    if digits.length = 0 then none
    else if left > 0 then
      match ahead.drop digits.length with
      | [] => none
      | c :: rest => if c ≠ dot then none else ipv4Loop left (dots + 1) rest
    else ipv4Loop left dots (ahead.drop digits.length)

def ipv4Piece : Bytes → Bytes × Bytes
  | [] => ([], [])
  | c :: rest =>
    match ipv4Loop 4 0 (c :: rest) with
    | none => ([c], rest)
    | some (behind, dots) => if dots = 3 then (ascii "<ip>", behind) else ([c], rest)

def slLogRedactHex (input : Bytes) (outCap : Nat) : Bytes × Int := redact hexPiece input outCap
def slLogRedactEmail (input : Bytes) (outCap : Nat) : Bytes × Int := redact emailPiece input outCap
def slLogRedactIpv4 (input : Bytes) (outCap : Nat) : Bytes × Int := redact ipv4Piece input outCap

def slLogRedactAll (input : Bytes) (outCap : Nat) : Bytes × Int :=
  let tmp1 := slLogRedactHex input 1024
  if tmp1.2 < 0 then ([], -1)
  else
    let tmp2 := slLogRedactEmail tmp1.1 1024
    if tmp2.2 < 0 then ([], -1)
    else slLogRedactIpv4 tmp2.1 outCap

/-! ## What is written -/

/-- A round of the loop. -/
def frontOf (piece : Bytes → Bytes × Bytes) : Bytes → Option (Bytes × Bytes)
  | [] => none
  | c :: rest => some (piece (c :: rest))

theorem frontOf_shortens {piece : Bytes → Bytes × Bytes}
    (goes : ∀ c rest, (piece (c :: rest)).2.length < (c :: rest).length) : Shortens (frontOf piece) := by
  intro ahead text rest read
  cases ahead with
  | nil => cases read
  | cons c ahead =>
    have next : (piece (c :: ahead)).2 = rest := congrArg Prod.snd (Option.some.inj read)
    rw [← next]
    exact goes c ahead

theorem append_some {cap : Nat} {out text written : Bytes} (done : append cap out text = some written) :
    written = out ++ text := by
  induction text generalizing out with
  | nil => rw [List.append_nil, ← Option.some.inj done]
  | cons c rest ih =>
    obtain ⟨next, first, later⟩ := Option.bind_eq_some_iff.mp done
    rw [appendCh] at first
    split at first
    next => cases first
    next =>
      rw [ih later, ← Option.some.inj first, List.append_assoc, List.singleton_append]

/-- Unless the buffer is full, every round writes its text. -/
theorem redactLoop_some {piece : Bytes → Bytes × Bytes} (shortens : Shortens (frontOf piece)) {cap fuel : Nat}
    {ahead out written : Bytes} (enough : ahead.length ≤ fuel)
    (done : redactLoop piece cap fuel ahead out = some written) :
    written = out ++ output (frontOf piece) ahead := by
  induction fuel generalizing ahead out with
  | zero =>
    obtain rfl := List.eq_nil_of_length_eq_zero (Nat.le_zero.mp enough)
    rw [output_refused rfl, List.append_nil]
    exact (Option.some.inj done).symm
  | succ fuel ih =>
    cases ahead with
    | nil =>
      rw [output_refused rfl, List.append_nil]
      exact (Option.some.inj done).symm
    | cons c rest =>
      have here : frontOf piece (c :: rest) = some ((piece (c :: rest)).1, (piece (c :: rest)).2) := rfl
      have shorter := shortens _ _ _ here
      obtain ⟨next, first, later⟩ := Option.bind_eq_some_iff.mp done
      rw [ih (by omega) later, append_some first, output_read shortens here, List.append_assoc]

theorem redact_succeeded {piece : Bytes → Bytes × Bytes} (shortens : Shortens (frontOf piece))
    {input : Bytes} {outCap : Nat} (succeeded : 0 ≤ (redact piece input outCap).2) :
    (redact piece input outCap).1 = output (frontOf piece) input := by
  rw [redact] at succeeded ⊢
  split_ifs at succeeded ⊢ with noRoom
  · exact absurd succeeded (by decide)
  · cases done : redactLoop piece outCap input.length input [] with
    | none =>
      rw [done] at succeeded
      exact absurd succeeded (show ¬ (0 : Int) ≤ -1 by decide)
    | some out =>
      rw [done] at succeeded
      dsimp only at succeeded ⊢
      split_ifs at succeeded ⊢ with full
      · exact absurd succeeded (by decide)
      · have written := redactLoop_some shortens (Nat.le_refl _) done
        rwa [List.nil_append] at written

/-! ## How far the scanners go on -/

theorem withNext_length {text behind : Bytes} {n : Nat} (positive : 0 < n) (shorter : behind.length ≤ n) :
    (withNext text behind).2.length < n := by
  cases behind with
  | nil => exact positive
  | cons c rest => exact shorter

theorem hexPiece_shortens : Shortens (frontOf hexPiece) := by
  apply frontOf_shortens
  intro c rest
  rw [hexPiece]
  split
  next long =>
    rw [List.length_drop, List.length_cons]
    omega
  next => exact withNext_length (Nat.succ_pos _) (by rw [List.length_drop]; exact Nat.sub_le _ _)

theorem emailPiece_shortens : Shortens (frontOf emailPiece) := by
  apply frontOf_shortens
  intro c rest
  exact withNext_length (Nat.succ_pos _) (by rw [List.length_drop]; exact Nat.sub_le _ _)

/-- The segments lie in front of what is behind them. -/
theorem ipv4Loop_suffix {left dots dots' : Nat} {ahead behind : Bytes}
    (found : ipv4Loop left dots ahead = some (behind, dots')) :
    behind <:+ ahead ∧ (0 < left → behind.length < ahead.length) := by
  induction left generalizing dots ahead with
  | zero =>
    obtain ⟨rfl, _⟩ := Prod.mk.inj (Option.some.inj found)
    exact ⟨List.suffix_refl _, fun positive => absurd positive (Nat.lt_irrefl 0)⟩
  | succ left ih =>
    rw [ipv4Loop] at found
    split at found
    next => cases found
    next held =>
      have digits : ((ahead.take 3).takeWhile isDigit).length ≤ ahead.length :=
        Nat.le_trans (List.takeWhile_prefix _).length_le (List.length_take_le' _ _)
      have past : (ahead.drop ((ahead.take 3).takeWhile isDigit).length).length < ahead.length := by
        rw [List.length_drop]
        omega
      have dropped := List.drop_suffix ((ahead.take 3).takeWhile isDigit).length ahead
      split at found
      next =>
        split at found
        next => cases found
        next c rest separated =>
          split at found
          next => cases found
          next =>
            obtain ⟨part, _⟩ := ih found
            have whole : behind <:+ ahead :=
              part.trans ((List.suffix_cons c rest).trans (separated ▸ dropped))
            have shorter := part.length_le
            rw [separated, List.length_cons] at past
            exact ⟨whole, fun _ => by omega⟩
      next =>
        obtain ⟨part, _⟩ := ih found
        have shorter := part.length_le
        exact ⟨part.trans dropped, fun _ => by omega⟩

/-- A round copies a character, or goes on behind an address. -/
theorem ipv4Piece_cases (c : UInt8) (rest : Bytes) :
    ipv4Piece (c :: rest) = ([c], rest) ∨
      ∃ behind, ipv4Piece (c :: rest) = (ascii "<ip>", behind) ∧ behind <:+ c :: rest ∧
        behind.length < (c :: rest).length := by
  rw [ipv4Piece]
  cases found : ipv4Loop 4 0 (c :: rest) with
  | none => exact Or.inl rfl
  | some quad =>
    obtain ⟨behind, dots⟩ := quad
    obtain ⟨part, shorter⟩ := ipv4Loop_suffix found
    dsimp only
    split
    next => exact Or.inr ⟨behind, rfl, part, shorter (by decide)⟩
    next => exact Or.inl rfl

theorem ipv4Piece_shortens : Shortens (frontOf ipv4Piece) := by
  apply frontOf_shortens
  intro c rest
  rcases ipv4Piece_cases c rest with copied | ⟨behind, marked, _, shorter⟩
  · rw [copied]
    exact Nat.lt_succ_self _
  · rw [marked]
    exact shorter

end SecureLink.Source.Logging
