import SecureLink.Library.BigEndian
import SecureLink.Library.ChainSums

/-!
# Tables keyed by a C string

The hash and the look-up that src/sl_dos_guard.c:33-52 and src/sl_lockout.c:31-54 have each for
themselves, word for word: 1024 chains, entries found with strcmp, new ones zeroed and put
in front. A string is its bytes before the terminating zero. Allocations succeed.
-/
namespace SecureLink.Source.Limits
open Library Library.BigEndian

/-- `SL_DOS_BUCKETS` and `SL_LOCKOUT_BUCKETS`. -/
def slBuckets : Nat := 1024

def fnv1a (s : Bytes) : UInt32 :=
  s.foldl (fun h c => (h ^^^ c.toUInt32) * 16777619) 2166136261

def bucketOf (s : Bytes) : Nat := (fnv1a s).toNat % slBuckets

theorem bucketOf_lt (s : Bytes) : bucketOf s < slBuckets := Nat.mod_lt _ (by decide)

/-- `find_or_create` without and with creation; the entry is then the one that is found. -/
def findEntry {ε : Type} (key : ε → Bytes) (buckets : Nat → List ε) (s : Bytes) : Option ε :=
  Chains.find bucketOf key buckets s

def findOrCreate {ε : Type} (key : ε → Bytes) (buckets : Nat → List ε) (zeroed : ε) :
    Nat → List ε :=
  Chains.ensure bucketOf key buckets zeroed

/-- Writes through the pointer that a look-up returned. -/
def modifyEntry {ε : Type} (key : ε → Bytes) (buckets : Nat → List ε) (s : Bytes) (f : ε → ε) :
    Nat → List ε :=
  Chains.modify bucketOf key buckets s f

end SecureLink.Source.Limits
