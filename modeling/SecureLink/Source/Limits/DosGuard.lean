import SecureLink.Source.Limits.StringTable

/-!
# Connection limits per address and in total

src/sl_dos_guard.c:54-154. Clock readings are arguments. The counters are 32-bit words with the
arithmetic of the source, so that a wrap would show; `size_t` is a `Nat`.
-/
namespace SecureLink.Source.Limits
open Library Library.BigEndian

structure IpEntry where
  ip : Bytes
  halfOpen : UInt32 := 0
  established : UInt32 := 0
  oldestHalfOpenMs : UInt64 := 0
  deriving DecidableEq, Repr

structure SlDosGuard where
  maxPerIp : UInt32
  maxGlobal : UInt32
  halfOpenTimeoutMs : UInt32
  globalHalfOpen : UInt32 := 0
  globalEstablished : UInt32 := 0
  buckets : Nat → List IpEntry := fun _ => []

def slDosGuardNew (maxPerIp maxGlobal halfOpenTimeoutMs : UInt32) : Option SlDosGuard :=
  if maxPerIp = 0 ∨ maxGlobal = 0 ∨ halfOpenTimeoutMs = 0 then none
  else some { maxPerIp, maxGlobal, halfOpenTimeoutMs }

namespace SlDosGuard

def entry (g : SlDosGuard) (ip : Bytes) : Option IpEntry := findEntry IpEntry.ip g.buckets ip

/-- An entry is changed together with the global counters. -/
def book (g : SlDosGuard) (ip : Bytes) (f : IpEntry → IpEntry)
    (globalHalfOpen globalEstablished : UInt32) : SlDosGuard :=
  { g with globalHalfOpen, globalEstablished, buckets := modifyEntry IpEntry.ip g.buckets ip f }

def create (g : SlDosGuard) (ip : Bytes) : SlDosGuard :=
  { g with buckets := findOrCreate IpEntry.ip g.buckets { ip } }

def opened (nowMs : UInt64) (e : IpEntry) : IpEntry :=
  { e with
    oldestHalfOpenMs := if e.halfOpen = 0 then nowMs else e.oldestHalfOpenMs
    halfOpen := e.halfOpen + 1 }

def slDosGuardAdmit (g : SlDosGuard) (nowMs : UInt64) (peerIp : Bytes) : SlDosGuard × Bool :=
  if g.globalHalfOpen + g.globalEstablished ≥ g.maxGlobal then (g, false)
  else
    let g := g.create peerIp
    match g.entry peerIp with
    | none => (g, false)
    | some e =>
      -- the entry stays when the address is at its limit
      if e.halfOpen + e.established ≥ g.maxPerIp then (g, false)
      else (g.book peerIp (opened nowMs) (g.globalHalfOpen + 1) g.globalEstablished, true)

def promoted (e : IpEntry) : IpEntry :=
  { e with halfOpen := e.halfOpen - 1, established := e.established + 1 }

def slDosGuardPromote (g : SlDosGuard) (peerIp : Bytes) : SlDosGuard :=
  match g.entry peerIp with
  | none => g
  | some e =>
    if e.halfOpen = 0 then g
    else g.book peerIp promoted (g.globalHalfOpen - 1) (g.globalEstablished + 1)

def establishedReleased (e : IpEntry) : IpEntry := { e with established := e.established - 1 }

def halfOpenReleased (e : IpEntry) : IpEntry := { e with halfOpen := e.halfOpen - 1 }

/-- An established connection of the address is released first, whichever one was closed. -/
def slDosGuardRelease (g : SlDosGuard) (peerIp : Bytes) : SlDosGuard :=
  match g.entry peerIp with
  | none => g
  | some e =>
    if e.established > 0 then
      g.book peerIp establishedReleased g.globalHalfOpen (g.globalEstablished - 1)
    else if e.halfOpen > 0 then
      g.book peerIp halfOpenReleased (g.globalHalfOpen - 1) g.globalEstablished
    else g

/-- The half-open connections of the entry are abandoned; the difference of the times wraps. -/
def stale (halfOpenTimeoutMs : UInt32) (cutoff : UInt64) (e : IpEntry) : Bool :=
  e.halfOpen ≠ 0 ∧ cutoff - e.oldestHalfOpenMs > halfOpenTimeoutMs.toUInt64

/-- One round of the sweep; the global counter and the number reaped so far are carried along. -/
def sweepEntry (halfOpenTimeoutMs : UInt32) (cutoff : UInt64) (acc : UInt32 × Nat) (e : IpEntry) :
    (UInt32 × Nat) × IpEntry :=
  if stale halfOpenTimeoutMs cutoff e then
    ((if e.halfOpen > acc.1 then 0 else acc.1 - e.halfOpen, acc.2 + e.halfOpen.toNat),
      { e with halfOpen := 0 })
  else (acc, e)

def slDosGuardSweep (g : SlDosGuard) (nowMs : UInt64) : SlDosGuard × Nat :=
  let pass := Chains.visitAll (sweepEntry g.halfOpenTimeoutMs nowMs) slBuckets (g.globalHalfOpen, 0)
    g.buckets
  ({ g with globalHalfOpen := pass.1.1, buckets := pass.2 }, pass.1.2)

def slDosGuardGlobalInflight (g : SlDosGuard) : UInt32 := g.globalHalfOpen + g.globalEstablished

def slDosGuardPerIp (g : SlDosGuard) (peerIp : Bytes) : UInt32 :=
  match g.entry peerIp with
  | none => 0
  | some e => e.halfOpen + e.established

end SlDosGuard

end SecureLink.Source.Limits
