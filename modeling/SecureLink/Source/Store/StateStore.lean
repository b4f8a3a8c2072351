import SecureLink.Source.Store.KvLog

/-!
# Typed store and namespaced views

src/state_store.cpp:7-94 and inc/state_store.hpp:50-76. A store whose file could not be opened is
`none`. The arrays a value is read into belong to the model: `get_string` clears its array, the one
of `get_u64` starts with whatever is on the stack, which is an argument here.
-/
namespace SecureLink.Source.Store
open Library.BigEndian

structure StateStore where
  kv : Option SlKvstore

namespace StateStore

/-- A write to the underlying store, which reports whether it succeeded. -/
def write (s : StateStore) (call : SlKvstore → SlKvstore × Int) : StateStore × Bool :=
  match s.kv with
  | none => (s, false)
  | some kv => ({ kv := some (call kv).1 }, (call kv).2 == 0)

def putString (s : StateStore) (key value : Bytes) : StateStore × Bool :=
  s.write fun kv => kv.slKvstorePut key value

def putU64 (s : StateStore) (key : Bytes) (value : UInt64) : StateStore × Bool :=
  s.write fun kv => kv.slKvstorePut key (encode 8 value.toNat)

def remove (s : StateStore) (key : Bytes) : StateStore × Bool :=
  s.write fun kv => kv.slKvstoreDelete key

/-- The array after a read that stored its bytes from the start on. -/
def filled (array : Bytes) (got : SlKvstore.Got) : Bytes := got.buf ++ array.drop got.buf.length

/-- A read into a cleared array, with a second attempt if the value is longer than that. -/
def readGrowing (kv : SlKvstore) (key : Bytes) : Option Bytes :=
  let first := kv.slKvstoreGet key 4096
  let size := if first.rc = -3 then first.vlenOut.getD 0 else 4096
  let last := if first.rc = -3 then kv.slKvstoreGet key size else first
  if last.rc ≠ 0 then none
  else some ((filled (List.replicate size 0) last).take (last.vlenOut.getD 0))

def getString (s : StateStore) (key : Bytes) : Option Bytes :=
  s.kv.bind fun kv => readGrowing kv key

def getU64 (s : StateStore) (key : Bytes) (stack : FixedBytes 8) : Option UInt64 :=
  s.kv.bind fun kv =>
    let got := kv.slKvstoreGet key 8
    if got.rc ≠ 0 then none
    else if got.vlenOut.getD 0 ≠ 8 then none
    else some (((filled stack.1 got).take 8).foldl (fun v b => (v <<< 8) ||| b.toUInt64) 0)

def has (s : StateStore) (key : Bytes) : Bool := (s.kv.map fun kv => kv.slKvstoreHas key).getD false

end StateStore

namespace StateStoreView


/-- The key of the store that a key of the view stands for. -/
def make (prefix_ key : Bytes) : Bytes := prefix_ ++ [colon] ++ key

def putString (prefix_ : Bytes) (s : StateStore) (key value : Bytes) : StateStore × Bool :=
  s.putString (make prefix_ key) value

def putU64 (prefix_ : Bytes) (s : StateStore) (key : Bytes) (value : UInt64) : StateStore × Bool :=
  s.putU64 (make prefix_ key) value

def remove (prefix_ : Bytes) (s : StateStore) (key : Bytes) : StateStore × Bool :=
  s.remove (make prefix_ key)

def getString (prefix_ : Bytes) (s : StateStore) (key : Bytes) : Option Bytes :=
  s.getString (make prefix_ key)

def getU64 (prefix_ : Bytes) (s : StateStore) (key : Bytes) (stack : FixedBytes 8) : Option UInt64 :=
  s.getU64 (make prefix_ key) stack

def has (prefix_ : Bytes) (s : StateStore) (key : Bytes) : Bool := s.has (make prefix_ key)

theorem make_eq (prefix_ key : Bytes) : make prefix_ key = make prefix_ [] ++ key := by
  simp [make]

/-- Two views that name one key of the store have prefixes of which, separators included, one
begins the other. -/
theorem prefixes_of_same_key {p q key other : Bytes} (same : make p key = make q other) :
    make p [] <+: make q [] ∨ make q [] <+: make p [] := by
  rw [make_eq p, make_eq q] at same
  exact List.prefix_or_prefix_of_prefix (List.prefix_append _ key) (same ▸ List.prefix_append _ other)

end StateStoreView

end SecureLink.Source.Store
