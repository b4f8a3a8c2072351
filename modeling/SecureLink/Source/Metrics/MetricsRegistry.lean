import Mathlib.Data.List.AList
import SecureLink.Library.BigEndian
import SecureLink.Library.Runs

/-!
# The registry of metrics

src/metrics_registry.cpp:8-58 and inc/metrics_registry.hpp:29-46. The registry never drops a counter
or a gauge, so a reference to one is its number among those of its kind, in the order in which they
were made. Both hold 64 bits; those of a gauge are a `double`, whose arithmetic is not looked into:
its `inc` and `dec` are a `set` like any other.
-/
namespace SecureLink.Source.Metrics
open Library.BigEndian Library.Runs

/-- A `std::map` between strings: its entries in the order of their keys. -/
@[ext]
structure LabelSet where
  entries : List (Bytes × Bytes)
  sorted : (entries.map Prod.fst).Pairwise (· < ·)
deriving DecidableEq

def equals : UInt8 := 0x3D
def openBrace : UInt8 := 0x7B
def closeBrace : UInt8 := 0x7D

/-- The loop over the labels. -/
def labelText : Bool → List (Bytes × Bytes) → Bytes
  | _, [] => []
  | first, (lk, lv) :: rest =>
    (if first then [] else [comma]) ++ (lk ++ equals :: (lv ++ labelText false rest))

def makeKey (name : Bytes) (labels : LabelSet) : Bytes :=
  name ++ openBrace :: (labelText true labels.entries ++ [closeBrace])

inductive Kind
  | counter
  | gauge
deriving DecidableEq

structure Series where
  name : Bytes
  labels : LabelSet
  counter : Option Nat
  gauge : Option Nat

namespace Series

def ref (s : Series) : Kind → Option Nat
  | .counter => s.counter
  | .gauge => s.gauge

def make (s : Series) (made : Nat) : Kind → Series
  | .counter => { s with counter := some made }
  | .gauge => { s with gauge := some made }

theorem ref_make (s : Series) (made : Nat) (kind other : Kind) :
    (s.make made kind).ref other = if other = kind then some made else s.ref other := by
  cases kind <;> cases other <;> rfl

end Series

structure MetricsRegistry where
  series : AList fun _ : Bytes => Series
  /-- What the counters and the gauges hold. -/
  cells : Kind → List UInt64

namespace MetricsRegistry

def empty : MetricsRegistry := ⟨∅, fun _ => []⟩

/-- The counter or gauge of a series, which is made if it is not there. -/
def get (kind : Kind) (r : MetricsRegistry) (name : Bytes) (labels : LabelSet) : MetricsRegistry × Nat :=
  let key := makeKey name labels
  let s := (r.series.lookup key).getD ⟨name, labels, none, none⟩
  match s.ref kind with
  | some old => (r, old)
  | none =>
    let made := (r.cells kind).length
    (⟨r.series.insert key (s.make made kind), Function.update r.cells kind (r.cells kind ++ [0])⟩, made)

def counter : MetricsRegistry → Bytes → LabelSet → MetricsRegistry × Nat := get .counter
def gauge : MetricsRegistry → Bytes → LabelSet → MetricsRegistry × Nat := get .gauge

/-- A store to a counter or a gauge. -/
def store (kind : Kind) (r : MetricsRegistry) (ref : Nat) (f : UInt64 → UInt64) : MetricsRegistry :=
  { r with cells := Function.update r.cells kind ((r.cells kind).modify ref f) }

/-- `Counter::inc`. -/
def inc (r : MetricsRegistry) (ref : Nat) (amount : UInt64) : MetricsRegistry :=
  r.store .counter ref (· + amount)

/-- `Gauge::set` of the value with these bits. -/
def set (r : MetricsRegistry) (ref : Nat) (bits : UInt64) : MetricsRegistry :=
  r.store .gauge ref fun _ => bits

/-- `Counter::value`. -/
def value (r : MetricsRegistry) (ref : Nat) : Option UInt64 := (r.cells .counter)[ref]?

inductive Call
  | counter (name : Bytes) (labels : LabelSet)
  | gauge (name : Bytes) (labels : LabelSet)
  | inc (ref : Nat) (amount : UInt64)
  | set (ref : Nat) (bits : UInt64)

def step (r : MetricsRegistry) : Call → MetricsRegistry × Option Nat
  | .counter name labels => Prod.map id some (r.counter name labels)
  | .gauge name labels => Prod.map id some (r.gauge name labels)
  | .inc ref amount => (r.inc ref amount, none)
  | .set ref bits => (r.set ref bits, none)

/-! ## References -/

variable {r : MetricsRegistry} {kind : Kind} {name key : Bytes} {labels : LabelSet} {ref : Nat}

/-- The counter or gauge under a key. -/
def refAt (kind : Kind) (r : MetricsRegistry) (key : Bytes) : Option Nat :=
  (r.series.lookup key).bind (·.ref kind)

theorem ref_getD (r : MetricsRegistry) (kind : Kind) (key name : Bytes) (labels : LabelSet) :
    ((r.series.lookup key).getD ⟨name, labels, none, none⟩).ref kind = r.refAt kind key := by
  rw [refAt]
  cases r.series.lookup key with
  | none => cases kind <;> rfl
  | some s => rfl

theorem get_old (old : r.refAt kind (makeKey name labels) = some ref) :
    r.get kind name labels = (r, ref) := by
  rw [get, ref_getD, old]

theorem get_new (new : r.refAt kind (makeKey name labels) = none) :
    (r.get kind name labels).2 = (r.cells kind).length ∧
      (r.get kind name labels).1.cells = Function.update r.cells kind (r.cells kind ++ [0]) := by
  rw [get, ref_getD, new]
  exact ⟨rfl, rfl⟩

/-- Afterwards the reference stands under the key, and nothing else has changed. -/
theorem refAt_get (r : MetricsRegistry) (kind other : Kind) (name key : Bytes) (labels : LabelSet) :
    (r.get kind name labels).1.refAt other key =
      if other = kind ∧ key = makeKey name labels then some (r.get kind name labels).2
      else r.refAt other key := by
  cases found : r.refAt kind (makeKey name labels) with
  | some ref =>
    rw [get_old found]
    split
    next here => rw [here.1, here.2, found]
    next => rfl
  | none =>
    rw [get, ref_getD, found]
    by_cases same : key = makeKey name labels
    · subst same
      simp only [refAt, AList.lookup_insert, Option.bind_some, Series.ref_make, and_true]
      congr 1
      exact ref_getD r other _ name labels
    · simp only [refAt, AList.lookup_insert_ne same, same, and_false, if_false]

theorem refAt_get_of_some {other : Kind} (old : r.refAt other key = some ref) (kind : Kind)
    (name : Bytes) (labels : LabelSet) : (r.get kind name labels).1.refAt other key = some ref := by
  rw [refAt_get]
  split
  next here =>
    rw [here.1, here.2] at old
    rw [get_old old]
  next => exact old

theorem cells_store (r : MetricsRegistry) (kind other : Kind) (ref : Nat) (f : UInt64 → UInt64) :
    (r.store kind ref f).cells other = if other = kind then (r.cells kind).modify ref f else r.cells other :=
  Function.update_apply _ _ _ _

theorem length_cells_store (r : MetricsRegistry) (kind other : Kind) (ref : Nat) (f : UInt64 → UInt64) :
    ((r.store kind ref f).cells other).length = (r.cells other).length := by
  rw [cells_store]
  split
  next same => rw [List.length_modify, same]
  next => rfl

theorem length_cells_get (new : r.refAt kind (makeKey name labels) = none) (other : Kind) :
    ((r.get kind name labels).1.cells other).length =
      (r.cells other).length + if other = kind then 1 else 0 := by
  rw [(get_new new).2, Function.update_apply]
  split
  next same => rw [List.length_append, same, List.length_singleton]
  next => rfl

/-- References lead to cells, and those under different keys to different ones. -/
structure Valid (r : MetricsRegistry) : Prop where
  made : ∀ kind key ref, r.refAt kind key = some ref → ref < (r.cells kind).length
  apart : ∀ kind key key' ref, r.refAt kind key = some ref → r.refAt kind key' = some ref → key = key'

theorem valid_empty : Valid empty where
  made _ _ _ found := by cases found
  apart _ _ _ _ found := by cases found

theorem Valid.get (valid : r.Valid) (kind : Kind) (name : Bytes) (labels : LabelSet) :
    (r.get kind name labels).1.Valid := by
  cases found : r.refAt kind (makeKey name labels) with
  | some ref =>
    rw [get_old found]
    exact valid
  | none =>
    have last := (get_new found).1
    constructor
    · intro other key ref
      rw [refAt_get, length_cells_get found]
      split
      next here =>
        intro same
        rw [if_pos here.1, ← Option.some.inj same, last, here.1]
        exact Nat.lt_succ_self _
      next =>
        intro old
        exact Nat.lt_of_lt_of_le (valid.made other key ref old) (Nat.le_add_right _ _)
    · intro other key key' ref
      rw [refAt_get, refAt_get]
      split
      next here =>
        split
        next here' =>
          intro _ _
          rw [here.2, here'.2]
        next =>
          -- the new reference is behind every old one
          intro new old
          have inside := valid.made other key' ref old
          rw [← Option.some.inj new, last, here.1] at inside
          exact absurd inside (Nat.lt_irrefl _)
      next =>
        split
        next here' =>
          intro old new
          have inside := valid.made other key ref old
          rw [← Option.some.inj new, last, here'.1] at inside
          exact absurd inside (Nat.lt_irrefl _)
        next => exact valid.apart other key key' ref

theorem Valid.store (valid : r.Valid) (kind : Kind) (ref : Nat) (f : UInt64 → UInt64) :
    (r.store kind ref f).Valid where
  made other key old found := by
    rw [length_cells_store]
    exact valid.made other key old found
  apart := valid.apart

theorem Valid.step (valid : r.Valid) (call : Call) : (r.step call).1.Valid := by
  cases call with
  | counter name labels => exact valid.get .counter name labels
  | gauge name labels => exact valid.get .gauge name labels
  | inc ref amount => exact valid.store .counter ref _
  | set ref bits => exact valid.store .gauge ref _

theorem valid_run (valid : r.Valid) (calls : List Call) : (run step r calls).Valid :=
  run_invariant Valid (fun _ call h => h.step call) calls valid

theorem refAt_step (old : r.refAt kind key = some ref) (call : Call) :
    (r.step call).1.refAt kind key = some ref := by
  cases call with
  | counter name labels => exact refAt_get_of_some old .counter name labels
  | gauge name labels => exact refAt_get_of_some old .gauge name labels
  | inc => exact old
  | set => exact old

/-- A reference stays where it is. -/
theorem refAt_run (old : r.refAt kind key = some ref) (calls : List Call) :
    (run step r calls).refAt kind key = some ref :=
  run_invariant (fun r => refAt kind r key = some ref) (fun _ call h => refAt_step h call) calls old

theorem refAt_get_self (r : MetricsRegistry) (kind : Kind) (name : Bytes) (labels : LabelSet) :
    (r.get kind name labels).1.refAt kind (makeKey name labels) = some (r.get kind name labels).2 := by
  rw [refAt_get, if_pos ⟨rfl, rfl⟩]

theorem value_inc (r : MetricsRegistry) (ref other : Nat) (amount : UInt64) :
    (r.inc ref amount).value other =
      if ref = other then (r.value other).map (· + amount) else r.value other := by
  rw [value, inc, cells_store, if_pos rfl, List.getElem?_modify]
  split
  next => rfl
  next => exact Option.map_id'

end MetricsRegistry

end SecureLink.Source.Metrics
