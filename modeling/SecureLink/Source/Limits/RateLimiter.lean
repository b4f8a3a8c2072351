import SecureLink.Library.BigEndian
import SecureLink.Library.Table

/-!
# Rate limiter per key

inc/rate_limiter.hpp:22-98. A time point is the count of nanoseconds of the clock, an unbounded
integer, and zero is the default-constructed one; durations do not overflow. The product of
rate and elapsed milliseconds wraps at 64 bits as in the source. Clock readings are
arguments.
-/
namespace SecureLink.Source.Limits
open Library.BigEndian Library.Table

structure Bucket where
  tokens : UInt32 := 0
  dropped : UInt64 := 0
  last : Int := 0
  deriving DecidableEq, Repr

structure RateLimiter where
  refillPerSec : UInt32 := 50
  burst : UInt32 := 100
  buckets : AList (fun _ : Bytes => Bucket) := ∅

namespace RateLimiter

/-- `duration_cast` to milliseconds. -/
def millis (elapsed : Int) : Int := elapsed.tdiv 1000000

def refill (l : RateLimiter) (b : Bucket) (now : Int) : Bucket :=
  let elapsed := millis (now - b.last)
  if elapsed ≤ 0 then b
  else
    let add := l.refillPerSec.toNat * elapsed.toNat % 2 ^ 64 / 1000
    if add > 0 then
      let sum := b.tokens.toNat + add
      { b with tokens := if sum > l.burst.toNat then l.burst else UInt32.ofNat sum, last := now }
    else b

/-- The bucket `allow` works on: a new one, and one whose time point is still the default, are
filled. -/
def readied (l : RateLimiter) (now : Int) (key : Bytes) : Bucket :=
  let b := (l.buckets.lookup key).getD {}
  if b.last = 0 then { b with tokens := l.burst, last := now } else l.refill b now

def store (l : RateLimiter) (key : Bytes) (b : Bucket) : RateLimiter :=
  { l with buckets := l.buckets.insert key b }

def allow (l : RateLimiter) (now : Int) (key : Bytes) (cost : UInt32) : RateLimiter × Bool :=
  let b := l.readied now key
  if b.tokens ≥ cost then (l.store key { b with tokens := b.tokens - cost }, true)
  else (l.store key { b with dropped := b.dropped + 1 }, false)

def tokens (l : RateLimiter) (now : Int) (key : Bytes) : RateLimiter × UInt32 :=
  match l.buckets.lookup key with
  | none => (l, l.burst)
  | some b => (l.store key (l.refill b now), (l.refill b now).tokens)

/-- The buckets that were refilled before the cutoff; `max_age` is in seconds. -/
def evictIdle (l : RateLimiter) (now maxAge : Int) : RateLimiter × Nat :=
  let cutoff := now - maxAge * 1000000000
  let left := keep (fun _ b => !decide (b.last < cutoff)) l.buckets
  ({ l with buckets := left }, size l.buckets - size left)

end RateLimiter

end SecureLink.Source.Limits
