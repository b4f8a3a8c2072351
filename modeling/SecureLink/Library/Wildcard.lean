import Mathlib.Data.List.Forall2

/-!
# Wildcard patterns over lists

A pattern fixes or frees each of the first items of a list, and either ends there
or leaves the rest of the list open. The open end is part of the pattern's shape,
so it can only stand last.
-/
namespace SecureLink.Library.Wildcard

/-- What a pattern asks of one item. -/
inductive Edge (α : Type*) where
  | exact (item : α)
  | one
  deriving DecidableEq, Repr

/-- The items asked for, and whether further items may follow. -/
@[ext]
structure Pattern (α : Type*) where
  edges : List (Edge α)
  tail : Bool
  deriving DecidableEq, Repr

variable {α : Type*} {p : Pattern α} {items : List α}

def Edge.Fits : Edge α → α → Prop
  | .exact item, x => item = x
  | .one, _ => True

/-- Each edge takes exactly one item; an open end takes zero or more, a closed one none. -/
def Pattern.Accepts (p : Pattern α) (items : List α) : Prop :=
  ∃ front rest, items = front ++ rest ∧ List.Forall₂ Edge.Fits p.edges front ∧
    (p.tail = false → rest = [])

/-- Same as acceptance, except that an open end insists on at least one item. -/
def Pattern.AcceptsMore (p : Pattern α) (items : List α) : Prop :=
  ∃ front rest, items = front ++ rest ∧ List.Forall₂ Edge.Fits p.edges front ∧
    (p.tail = true ↔ rest ≠ [])

/-- The open end meets the end of the list: all items are used up by the edges. -/
def Pattern.TailEmpty (p : Pattern α) (items : List α) : Prop :=
  p.tail = true ∧ List.Forall₂ Edge.Fits p.edges items

/-- Put one more edge in front. -/
def Pattern.cons (e : Edge α) (p : Pattern α) : Pattern α := { p with edges := e :: p.edges }

@[simp] theorem cons_edges (e : Edge α) (p : Pattern α) : (p.cons e).edges = e :: p.edges := rfl

/-- A rule on how the edges and the rest share a list is decided item by item. -/
theorem exists_front_cons {e : Edge α} {es : List (Edge α)} {x : α} {ends : List α → Prop} :
    (∃ front rest, x :: items = front ++ rest ∧
        List.Forall₂ Edge.Fits (e :: es) front ∧ ends rest) ↔
      e.Fits x ∧
        ∃ front rest, items = front ++ rest ∧ List.Forall₂ Edge.Fits es front ∧ ends rest := by
  constructor
  · rintro ⟨front, rest, shared, fits, ending⟩
    obtain ⟨y, front, here, later, rfl⟩ := List.forall₂_cons_left_iff.mp fits
    obtain ⟨rfl, rfl⟩ := List.cons.inj shared
    exact ⟨here, front, rest, rfl, later, ending⟩
  · rintro ⟨here, front, rest, rfl, later, ending⟩
    exact ⟨x :: front, rest, rfl, .cons here later, ending⟩

theorem accepts_nil {tail : Bool} :
    Pattern.Accepts ⟨[], tail⟩ items ↔ (tail = false → items = []) := by
  simp [Pattern.Accepts]

theorem accepts_empty : p.Accepts [] ↔ p.edges = [] := by
  simp [Pattern.Accepts, and_assoc]

theorem accepts_cons {e : Edge α} {es : List (Edge α)} {tail : Bool} {x : α} :
    Pattern.Accepts ⟨e :: es, tail⟩ (x :: items) ↔ e.Fits x ∧ Pattern.Accepts ⟨es, tail⟩ items :=
  exists_front_cons

/-- A closed pattern without wildcards accepts one list. -/
theorem accepts_exact {wanted : List α} :
    Pattern.Accepts ⟨wanted.map .exact, false⟩ items ↔ items = wanted := by
  induction wanted generalizing items with
  | nil => simp [accepts_nil]
  | cons w rest ih =>
    cases items with
    | nil => simp [accepts_empty]
    | cons x items => simp [accepts_cons, Edge.Fits, ih, eq_comm]

theorem acceptsMore_nil {tail : Bool} :
    Pattern.AcceptsMore ⟨[], tail⟩ items ↔ (tail = true ↔ items ≠ []) := by
  simp [Pattern.AcceptsMore]

theorem acceptsMore_empty : p.AcceptsMore [] ↔ p.edges = [] ∧ p.tail = false := by
  simp [Pattern.AcceptsMore, and_assoc]

theorem acceptsMore_cons {e : Edge α} {es : List (Edge α)} {tail : Bool} {x : α} :
    Pattern.AcceptsMore ⟨e :: es, tail⟩ (x :: items) ↔
      e.Fits x ∧ Pattern.AcceptsMore ⟨es, tail⟩ items :=
  exists_front_cons

/-- The two readings of an open end differ exactly where it meets the end of the list. -/
theorem acceptsMore_iff : p.AcceptsMore items ↔ p.Accepts items ∧ ¬ p.TailEmpty items := by
  constructor
  · rintro ⟨front, rest, rfl, fits, ending⟩
    refine ⟨⟨front, rest, rfl, fits, fun closed => ?_⟩, fun ⟨isOpen, all⟩ => ending.mp isOpen ?_⟩
    · by_contra more
      simp [ending.mpr more] at closed
    · have lengths := fits.length_eq.symm.trans all.length_eq
      exact List.length_eq_zero_iff.mp (by simpa using lengths)
  · rintro ⟨⟨front, rest, rfl, fits, closed⟩, notEmpty⟩
    refine ⟨front, rest, rfl, fits, fun isOpen nothing => notEmpty ⟨isOpen, ?_⟩, fun more => ?_⟩
    · simpa [nothing] using fits
    · by_contra shut
      exact more (closed (by simpa using shut))

theorem Pattern.TailEmpty.accepts (h : p.TailEmpty items) : p.Accepts items :=
  ⟨items, [], by simp, h.2, fun _ => rfl⟩

end SecureLink.Library.Wildcard
