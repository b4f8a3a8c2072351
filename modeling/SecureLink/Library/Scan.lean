import Mathlib.Data.List.Basic
import Mathlib.Logic.Relation

/-!
# Scans of a file

A scan looks at a position. It stops there, or finds an item and goes on at another
position, or finds a last item. Nothing says that it goes forward: where every round does,
and nothing is found behind some bound, it returns; a round that comes back to its own
position is repeated for ever.
-/
namespace SecureLink.Library.Scan

variable {α : Type*} (look : Nat → Option (α × Option Nat))

/-- The items found and where; `none` if the scan is still running after that many rounds. -/
def scan : Nat → Nat → Option (List (Nat × α))
  | 0, _ => none
  | fuel + 1, pos =>
    match look pos with
    | none => some []
    | some (x, none) => some [(pos, x)]
    | some (x, some next) => (scan fuel next).map ((pos, x) :: ·)

/-- A round at the first position goes on at the second. -/
def Goes (pos next : Nat) : Prop := ∃ x, look pos = some (x, some next)

/-- A scan from the first position has a round at the second. -/
def Visits : Nat → Nat → Prop := Relation.ReflTransGen (Goes look)

/-- Every round goes on behind its own position, or not at all. -/
def Forward (start : Nat) : Prop :=
  ∀ pos, Visits look start pos → ∀ next, Goes look pos next → pos < next

variable {look}

theorem forward_iff {start : Nat} :
    Forward look start ↔
      ∀ pos, Visits look start pos → ¬ ∃ next, Goes look pos next ∧ next ≤ pos := by
  constructor
  · intro forward pos visits back
    obtain ⟨next, goes, notBehind⟩ := back
    exact absurd (forward pos visits next goes) (Nat.not_lt.mpr notBehind)
  · intro never pos visits next goes
    by_contra notBehind
    exact never pos visits ⟨next, goes, Nat.not_lt.mp notBehind⟩

theorem Forward.goes {start next : Nat} (forward : Forward look start) (goes : Goes look start next) :
    start < next ∧ Forward look next :=
  ⟨forward start .refl next goes, fun pos visits => forward pos (.head goes visits)⟩

/-- A scan that goes forward needs one round for every position up to the bound. -/
theorem Forward.returns {bound start : Nat} (forward : Forward look start)
    (stops : ∀ pos, bound ≤ pos → look pos = none) {fuel : Nat} (positive : 0 < fuel)
    (enough : bound < start + fuel) : ∃ items, scan look fuel start = some items := by
  induction fuel generalizing start with
  | zero => exact absurd positive (Nat.lt_irrefl 0)
  | succ fuel ih =>
    rw [scan]
    cases here : look start with
    | none => exact ⟨[], rfl⟩
    | some found =>
      obtain ⟨x, next⟩ := found
      cases next with
      | none => exact ⟨[(start, x)], rfl⟩
      | some next =>
        have inside : start < bound := by
          by_contra outside
          rw [stops start (Nat.not_lt.mp outside)] at here
          cases here
        obtain ⟨behind, later⟩ := forward.goes ⟨x, here⟩
        obtain ⟨items, done⟩ := ih later (by omega) (by omega)
        exact ⟨(start, x) :: items, by simp only [done, Option.map_some]⟩

/-- A round that goes back to where it started keeps the scan from ever returning. -/
theorem scan_stuck {start pos : Nat} (visits : Visits look start pos) (stays : Goes look pos pos)
    (fuel : Nat) : scan look fuel start = none := by
  induction fuel generalizing start with
  | zero => rfl
  | succ fuel ih =>
    obtain ⟨x, next, goes, later⟩ : ∃ x next, look start = some (x, some next) ∧ Visits look next pos := by
      cases Relation.ReflTransGen.cases_head visits with
      | inl same =>
        subst same
        obtain ⟨x, here⟩ := stays
        exact ⟨x, start, here, .refl⟩
      | inr first =>
        obtain ⟨next, ⟨x, here⟩, later⟩ := first
        exact ⟨x, next, here, later⟩
    simp only [scan, goes, ih later, Option.map_none]

end SecureLink.Library.Scan
