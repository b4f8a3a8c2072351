import Mathlib.Data.List.Basic

/-!
# Reading piece by piece

A reader takes a piece off the front of what lies ahead, or refuses. It is repeated until it
refuses. If it gets every written piece back whatever follows, it gets every concatenation of
written pieces back; if moreover it takes nothing but what was written, the concatenations are
exactly the inputs of which nothing is left.
-/
namespace SecureLink.Library.Pieces

variable {σ α : Type*} (front : List σ → Option (α × List σ))

/-- What is read in at most that many rounds, and what is left. -/
def rounds : Nat → List σ → List α × List σ
  | 0, input => ([], input)
  | fuel + 1, input =>
    match front input with
    | none => ([], input)
    | some (a, rest) => (a :: (rounds fuel rest).1, (rounds fuel rest).2)

/-- Every round takes something, so the length of the input bounds them. -/
def parse (input : List σ) : List α × List σ := rounds front input.length input

/-- Every piece takes something. -/
def Shortens : Prop := ∀ input a rest, front input = some (a, rest) → rest.length < input.length

variable {front}

theorem rounds_refused {input : List σ} (refused : front input = none) (fuel : Nat) :
    rounds front fuel input = ([], input) := by
  cases fuel with
  | zero => rfl
  | succ fuel => rw [rounds, refused]

theorem parse_refused {input : List σ} (refused : front input = none) :
    parse front input = ([], input) :=
  rounds_refused refused _

section Shortens
variable (shortens : Shortens front)
include shortens

/-- What holds of an input that is refused, and of an input if it holds of what follows the piece
in front, holds of every input. -/
theorem pieces_induction {p : List σ → Prop} (refused : ∀ input, front input = none → p input)
    (read : ∀ input a rest, front input = some (a, rest) → p rest → p input) (input : List σ) :
    p input := by
  induction length : input.length using Nat.strongRecOn generalizing input with
  | ind n ih =>
    cases here : front input with
    | none => exact refused input here
    | some found =>
      have shorter := shortens input found.1 found.2 here
      exact read input found.1 found.2 here (ih found.2.length (by omega) found.2 rfl)

/-- A reader that takes something refuses the empty input. -/
theorem front_nil : front [] = none := by
  cases here : front [] with
  | none => rfl
  | some found => exact absurd (shortens [] found.1 found.2 here) (Nat.not_lt_zero _)

theorem rounds_enough {fuel fuel' : Nat} {input : List σ} (enough : input.length ≤ fuel)
    (enough' : input.length ≤ fuel') : rounds front fuel input = rounds front fuel' input := by
  induction fuel generalizing fuel' input with
  | zero =>
    obtain rfl := List.eq_nil_of_length_eq_zero (Nat.le_zero.mp enough)
    have refused := front_nil shortens
    rw [rounds_refused refused, rounds_refused refused]
  | succ fuel ih =>
    cases here : front input with
    | none => rw [rounds_refused here, rounds_refused here]
    | some found =>
      obtain ⟨a, rest⟩ := found
      have shorter := shortens input a rest here
      obtain ⟨fuel', rfl⟩ : ∃ n, fuel' = n + 1 := ⟨fuel' - 1, by omega⟩
      simp only [rounds, here, ih (show rest.length ≤ fuel by omega) (show rest.length ≤ fuel' by omega)]

theorem parse_read {input rest : List σ} {a : α} (read : front input = some (a, rest)) :
    parse front input = (a :: (parse front rest).1, (parse front rest).2) := by
  have shorter := shortens input a rest read
  obtain ⟨fuel, length⟩ : ∃ fuel, input.length = fuel + 1 := ⟨input.length - 1, by omega⟩
  rw [parse, length, rounds, read]
  dsimp only
  rw [rounds_enough shortens (show rest.length ≤ fuel by omega) (Nat.le_refl _), parse]

theorem parse_left_length (input : List σ) : (parse front input).2.length ≤ input.length := by
  induction input using pieces_induction shortens with
  | refused input here =>
    exact Nat.le_of_eq (by rw [parse_refused here])
  | read input a rest here ih =>
    have shorter := shortens input a rest here
    rw [parse_read shortens here]
    dsimp only
    omega

/-- Pieces whose meaning the reader finds come back in their order, and it goes on behind them. -/
theorem parse_meant {β : Type*} {write : β → List σ} {meaning : β → α}
    (reads : ∀ b rest, front (write b ++ rest) = some (meaning b, rest)) (pieces : List β) (rest : List σ) :
    parse front (pieces.flatMap write ++ rest) =
      (pieces.map meaning ++ (parse front rest).1, (parse front rest).2) := by
  induction pieces with
  | nil => rfl
  | cons b pieces ih =>
    rw [List.flatMap_cons, List.append_assoc, parse_read shortens (reads b _), ih, List.map_cons, List.cons_append]

section Write
variable {write : α → List σ} (reads : ∀ a rest, front (write a ++ rest) = some (a, rest))

include reads in
/-- Written pieces come back in their order, and the reader goes on behind them. -/
theorem parse_flatMap (pieces : List α) (rest : List σ) :
    parse front (pieces.flatMap write ++ rest) =
      (pieces ++ (parse front rest).1, (parse front rest).2) := by
  have read := parse_meant shortens (fun a rest => reads a rest) pieces rest
  rwa [List.map_id'] at read

include reads in
/-- A concatenation determines its pieces. -/
theorem flatMap_injective {pieces pieces' : List α} {left left' : List σ} (refused : front left = none)
    (refused' : front left' = none) (same : pieces.flatMap write ++ left = pieces'.flatMap write ++ left') :
    pieces = pieces' ∧ left = left' := by
  have read := parse_flatMap shortens reads pieces left
  rw [same, parse_flatMap shortens reads, parse_refused refused, parse_refused refused'] at read
  simp only [List.append_nil, Prod.mk.injEq] at read
  exact ⟨read.1.symm, read.2.symm⟩

variable (exactly : ∀ input a rest, front input = some (a, rest) → input = write a ++ rest)

include exactly in
/-- The input is what was read and what is left. -/
theorem flatMap_parse (input : List σ) :
    (parse front input).1.flatMap write ++ (parse front input).2 = input := by
  induction input using pieces_induction shortens with
  | refused input here =>
    rw [parse_refused here]
    rfl
  | read input a rest here ih =>
    rw [parse_read shortens here, List.flatMap_cons, List.append_assoc, ih]
    exact (exactly input a rest here).symm

include reads exactly in
/-- Nothing is left exactly of the concatenations. -/
theorem nothing_left_iff {input : List σ} :
    (parse front input).2 = [] ↔ ∃ pieces : List α, input = pieces.flatMap write := by
  constructor
  · intro empty
    have whole := flatMap_parse shortens exactly input
    rw [empty, List.append_nil] at whole
    exact ⟨_, whole.symm⟩
  · rintro ⟨pieces, rfl⟩
    have read := parse_flatMap shortens reads pieces []
    rw [List.append_nil, parse_refused (front_nil shortens)] at read
    rw [read]

end Write

end Shortens

end SecureLink.Library.Pieces
