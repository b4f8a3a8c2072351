import Mathlib.Init

/-!
# Token bucket for bandwidth

src/sl_token_bucket.c:12-66 with its 64-bit arithmetic. Clock readings are arguments, in
microseconds.
-/
namespace SecureLink.Source.Limits

structure SlTokenBucket where
  capacityBytes : UInt64
  rateBps : UInt64
  tokens : UInt64
  lastRefillUs : UInt64
  deriving DecidableEq, Repr

namespace SlTokenBucket

def slTokenBucketInit (capacityBytes rateBps : UInt64) : SlTokenBucket :=
  { capacityBytes, rateBps, tokens := capacityBytes, lastRefillUs := 0 }

def refill (tb : SlTokenBucket) (now : UInt64) : SlTokenBucket :=
  if tb.lastRefillUs = 0 then { tb with lastRefillUs := now }
  else if now ≤ tb.lastRefillUs then tb
  else
    let elapsedUs := now - tb.lastRefillUs
    let add := tb.rateBps * elapsedUs / 1000000
    -- the time stays uncharged when it is not worth a token
    if add = 0 then tb
    else
      let sum := tb.tokens + add
      { tb with
        tokens := if sum > tb.capacityBytes then tb.capacityBytes else sum
        lastRefillUs := now }

def slTokenBucketTryTake (tb : SlTokenBucket) (now bytes : UInt64) : SlTokenBucket × Int :=
  let tb := tb.refill now
  if tb.tokens < bytes then (tb, -1) else ({ tb with tokens := tb.tokens - bytes }, 0)

def uint32Max : UInt64 := 4294967295

def slTokenBucketWaitMs (tb : SlTokenBucket) (now bytes : UInt64) : SlTokenBucket × UInt32 :=
  if tb.rateBps = 0 then (tb, 0)
  else
    let tb := tb.refill now
    if tb.tokens ≥ bytes then (tb, 0)
    else
      let deficit := bytes - tb.tokens
      let ms := (deficit * 1000 + tb.rateBps - 1) / tb.rateBps
      (tb, if ms > uint32Max then uint32Max.toUInt32 else ms.toUInt32)

def slTokenBucketSetRate (tb : SlTokenBucket) (now rateBps : UInt64) : SlTokenBucket :=
  { tb.refill now with rateBps }

end SlTokenBucket

end SecureLink.Source.Limits
