import Mathlib.Data.List.Basic

/-!
# Path names

A path is cut at its separators and followed through a tree of directories component by
component: empty components are skipped, one dot stays, two dots lead to the parent. What the
other names lead to, through links or not, is a parameter.
-/
namespace SecureLink.Library.Paths

variable {α ν : Type*} [DecidableEq α]

/-- The directories, with the characters that mean something in a path. -/
structure Tree (α ν : Type*) where
  sep : α
  dot : α
  root : ν
  parent : ν → Option ν
  entry : ν → List α → Option ν

namespace Tree

variable (t : Tree α ν)

def components (path : List α) : List (List α) :=
  (path.splitOn t.sep).filter fun c => !c.isEmpty

/-- Where one component leads. -/
def enter (node : ν) (name : List α) : Option ν :=
  if name = [t.dot] then some node
  else if name = [t.dot, t.dot] then t.parent node
  else t.entry node name

/-- Paths that begin with a separator start at the root, the others at `cwd`. -/
def start (cwd : ν) (path : List α) : ν := if path.head? = some t.sep then t.root else cwd

/-- What a path names, if it exists. -/
def resolve (cwd : ν) (path : List α) : Option ν :=
  if path = [] then none else (t.components path).foldlM t.enter (t.start cwd path)

/-- The directory in which the last component is looked up or made, and that component. -/
def locate (cwd : ν) (path : List α) : Option (ν × List α) :=
  (t.components path).getLast?.bind fun last =>
    ((t.components path).dropLast.foldlM t.enter (t.start cwd path)).map (·, last)

variable {t}

theorem components_append (dir rest : List α) :
    t.components (dir ++ t.sep :: rest) = t.components dir ++ t.components rest := by
  rw [components, List.splitOn_append_cons_self, List.filter_append, components, components]

theorem components_nil : t.components [] = [] := rfl

theorem components_name {name : List α} (nonempty : name ≠ []) (whole : t.sep ∉ name) :
    t.components name = [name] := by
  rw [components, List.splitOn_eq_singleton whole]
  simp [nonempty]

theorem start_append (cwd : ν) (dir rest : List α) :
    t.start cwd (dir ++ t.sep :: rest) = t.start cwd (dir ++ [t.sep]) := by
  cases dir with
  | nil => rfl
  | cons c dir => rfl

/-- A directory may be named with a separator behind it. -/
theorem resolve_append_sep (cwd : ν) {dir : List α} (nonempty : dir ≠ []) :
    t.resolve cwd (dir ++ [t.sep]) = t.resolve cwd dir := by
  have begins : t.start cwd (dir ++ [t.sep]) = t.start cwd dir := by
    cases dir with
    | nil => exact absurd rfl nonempty
    | cons c dir => rfl
  rw [resolve, if_neg (by simp), resolve, if_neg nonempty, begins, components_append, components_nil,
    List.append_nil]

/-- A name without separators behind a directory is looked up in that directory. -/
theorem locate_child (cwd : ν) (dir : List α) {name : List α} (nonempty : name ≠ [])
    (whole : t.sep ∉ name) :
    t.locate cwd (dir ++ t.sep :: name) = (t.resolve cwd (dir ++ [t.sep])).map (·, name) := by
  rw [locate, components_append, components_name nonempty whole, List.getLast?_concat,
    List.dropLast_concat, Option.bind_some, start_append, resolve, if_neg (by simp), components_append,
    components_nil, List.append_nil]

end Tree

end SecureLink.Library.Paths
