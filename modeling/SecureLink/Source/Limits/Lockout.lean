import SecureLink.Source.Limits.StringTable

/-!
# Failure lockout with exponential back-off

src/sl_lockout.c:56-119. Clock readings are arguments.
-/
namespace SecureLink.Source.Limits
open Library.BigEndian

structure LockoutEntry where
  key : Bytes
  fails : UInt32 := 0
  lockedUntilMs : UInt64 := 0
  deriving DecidableEq, Repr

structure SlLockout where
  baseLockoutMs : UInt32
  capLockoutMs : UInt32
  failThreshold : UInt32
  buckets : Nat → List LockoutEntry := fun _ => []
  count : Nat := 0

inductive SlLockoutStatus where
  | allow | blocked
  deriving DecidableEq, Repr

def slLockoutNew (baseLockoutMs capLockoutMs failThreshold : UInt32) : Option SlLockout :=
  if baseLockoutMs = 0 ∨ capLockoutMs < baseLockoutMs ∨ failThreshold = 0 then none
  else some { baseLockoutMs, capLockoutMs, failThreshold }

namespace SlLockout

def entry (l : SlLockout) (key : Bytes) : Option LockoutEntry :=
  findEntry LockoutEntry.key l.buckets key

def modify (l : SlLockout) (key : Bytes) (f : LockoutEntry → LockoutEntry) : SlLockout :=
  { l with buckets := modifyEntry LockoutEntry.key l.buckets key f }

def create (l : SlLockout) (key : Bytes) : SlLockout :=
  { l with
    buckets := findOrCreate LockoutEntry.key l.buckets { key }
    count := if (l.entry key).isSome then l.count else l.count + 1 }

def slLockoutCheck (l : SlLockout) (nowMs : UInt64) (key : Bytes) : SlLockoutStatus :=
  match l.entry key with
  | none => .allow
  | some e => if nowMs < e.lockedUntilMs then .blocked else .allow

/-- The window after that many failures beyond the threshold. -/
def duration (l : SlLockout) (over' : UInt32) : UInt64 :=
  let dur := l.baseLockoutMs.toUInt64 <<< (if over' < 16 then over' else 16).toUInt64
  if dur > l.capLockoutMs.toUInt64 then l.capLockoutMs.toUInt64 else dur

def failed (l : SlLockout) (nowMs : UInt64) (e : LockoutEntry) : LockoutEntry :=
  if e.fails + 1 ≥ l.failThreshold then
    { e with
      fails := e.fails + 1
      lockedUntilMs := nowMs + l.duration (e.fails + 1 - l.failThreshold) }
  else { e with fails := e.fails + 1 }

def slLockoutFail (l : SlLockout) (nowMs : UInt64) (key : Bytes) : SlLockout × SlLockoutStatus :=
  let l := l.create key
  match l.entry key with
  | none => (l, .blocked)
  | some e =>
    (l.modify key (l.failed nowMs),
      if e.fails + 1 ≥ l.failThreshold then .blocked else .allow)

def cleared (e : LockoutEntry) : LockoutEntry := { e with fails := 0, lockedUntilMs := 0 }

def slLockoutSucceed (l : SlLockout) (key : Bytes) : SlLockout :=
  match l.entry key with
  | none => l
  | some _ => l.modify key cleared

end SlLockout

end SecureLink.Source.Limits
