import SecureLink.Source.Handshake.Secret

/-!
# HKDF-Expand

The loop of `sl_hkdf_expand_sha256` (src/sl_hkdf.c:33-75) appends blocks that are chained by a
one-byte counter and cuts the last one. What it returns is the beginning of the stream of
blocks of RFC 5869, for every length up to 255 blocks.
-/
namespace SecureLink.Guarantees.KeyExpansion
open Library.BigEndian Source.Handshake

/-- The primitives with a given function as HMAC-SHA256. -/
def withHmac (C : Crypto) (hmac : Bytes → Bytes → FixedBytes hkdfHashLen) : Crypto :=
  { C with hmacSha256 := fun key data => some (hmac key data).1 }

section Stream

variable (hmac : Bytes → Bytes → FixedBytes hkdfHashLen) (prk info : Bytes)

/-- T(0) is empty, T(i) = HMAC(prk, T(i-1) || info || i). -/
def block : Nat → Bytes
  | 0 => []
  | i + 1 => (hmac prk (block i ++ info ++ [UInt8.ofNat (i + 1)])).1

/-- T(1) || T(2) || ... || T(n). -/
def stream : Nat → Bytes
  | 0 => []
  | n + 1 => stream n ++ block hmac prk info (n + 1)

theorem stream_length (n : Nat) : (stream hmac prk info n).length = hkdfHashLen * n := by
  induction n with
  | zero => rfl
  | succ n ih =>
    rw [stream, List.length_append, ih, Nat.mul_succ, block, (hmac prk _).2]

theorem stream_prefix {m n : Nat} (le : m ≤ n) : stream hmac prk info m <+: stream hmac prk info n := by
  induction le with
  | refl => exact List.prefix_refl _
  | step _ ih => exact ih.trans (List.prefix_append _ _)

/-- What is within the first blocks does not depend on how many more there are. -/
theorem take_stream {m n outLen : Nat} (inM : outLen ≤ hkdfHashLen * m) (inN : outLen ≤ hkdfHashLen * n) :
    (stream hmac prk info m).take outLen = (stream hmac prk info n).take outLen := by
  rcases Nat.le_total m n with le | le
  · obtain ⟨more, split⟩ := stream_prefix hmac prk info le
    rw [← split, List.take_append_of_le_length (by rw [stream_length]; exact inM)]
  · obtain ⟨more, split⟩ := stream_prefix hmac prk info le
    rw [← split, List.take_append_of_le_length (by rw [stream_length]; exact inN)]

end Stream

section Loop

variable {C : Crypto} {hmac : Bytes → Bytes → FixedBytes hkdfHashLen} {prk info : Bytes}

/-- After `i` blocks the loop holds the last of them, the number of the next one and what it has
written of the stream. -/
theorem expandLoop_stream {outLen fuel i n : Nat} (enough : outLen ≤ hkdfHashLen * i + fuel)
    (inside : outLen ≤ hkdfHashLen * n) :
    hkdfExpandLoop (withHmac C hmac) prk info outLen fuel (block hmac prk info i)
        (UInt8.ofNat (i + 1)) ((stream hmac prk info i).take outLen) =
      some ((stream hmac prk info n).take outLen) := by
  have finished (fuel i : Nat) (full : outLen ≤ hkdfHashLen * i) :
      hkdfExpandLoop (withHmac C hmac) prk info outLen fuel (block hmac prk info i)
          (UInt8.ofNat (i + 1)) ((stream hmac prk info i).take outLen) =
        some ((stream hmac prk info n).take outLen) := by
    rw [hkdfExpandLoop_full (by rw [List.length_take, stream_length]; omega),
      take_stream hmac prk info full inside]
  induction fuel generalizing i with
  | zero => exact finished 0 i enough
  | succ fuel ih =>
    by_cases full : outLen ≤ hkdfHashLen * i
    · exact finished (fuel + 1) i full
    · have whole : (stream hmac prk info i).take outLen = stream hmac prk info i :=
        List.take_of_length_le (by rw [stream_length]; omega)
      have longer : stream hmac prk info i ++
          (block hmac prk info (i + 1)).take (outLen - (stream hmac prk info i).length) =
          (stream hmac prk info (i + 1)).take outLen := by
        rw [stream, List.take_append, whole]
      have next : UInt8.ofNat (i + 1) + 1 = UInt8.ofNat (i + 1 + 1) := (UInt8.ofNat_add (i + 1) 1).symm
      have room : (stream hmac prk info i).length < outLen := by
        rw [stream_length]
        exact Nat.not_le.mp full
      have mac : (withHmac C hmac).hmacSha256 prk
          (block hmac prk info i ++ info ++ [UInt8.ofNat (i + 1)]) = some (block hmac prk info (i + 1)) := rfl
      rw [whole, hkdfExpandLoop_round room mac, longer, next]
      apply ih
      unfold hkdfHashLen at *
      omega

theorem expand_stream {outLen n : Nat} (fits : outLen ≤ 255 * hkdfHashLen)
    (inside : outLen ≤ hkdfHashLen * n) :
    slHkdfExpandSha256 (withHmac C hmac) prk info outLen = some ((stream hmac prk info n).take outLen) := by
  rw [slHkdfExpandSha256, if_neg (Nat.not_lt.mpr fits)]
  have enough : outLen ≤ hkdfHashLen * 0 + outLen := Nat.le_add_left _ _
  have whole : hkdfExpandLoop (withHmac C hmac) prk info outLen outLen (block hmac prk info 0)
      (UInt8.ofNat 1) ((stream hmac prk info 0).take outLen) =
      some ((stream hmac prk info n).take outLen) := expandLoop_stream enough inside
  rw [stream, List.take_nil] at whole
  exact whole

end Loop

/-- The call succeeds for up to 255 blocks and no more; it then returns the beginning of the
stream, so that a shorter request is a prefix of a longer one. -/
theorem expand_follows_rfc (C : Crypto) (hmac : Bytes → Bytes → FixedBytes hkdfHashLen)
    (prk info : Bytes) :
    (∀ outLen, (slHkdfExpandSha256 (withHmac C hmac) prk info outLen).isSome ↔ outLen ≤ 255 * 32) ∧
    (∀ outLen okm, slHkdfExpandSha256 (withHmac C hmac) prk info outLen = some okm →
      okm.length = outLen ∧ ∀ n, outLen ≤ 32 * n → okm = (stream hmac prk info n).take outLen) ∧
    (∀ short long first second, short ≤ long →
      slHkdfExpandSha256 (withHmac C hmac) prk info short = some first →
      slHkdfExpandSha256 (withHmac C hmac) prk info long = some second → first <+: second) := by
  have limited {outLen : Nat} {okm : Bytes}
      (expanded : slHkdfExpandSha256 (withHmac C hmac) prk info outLen = some okm) :
      outLen ≤ 255 * hkdfHashLen := by
    by_contra above
    rw [slHkdfExpandSha256, if_pos (Nat.not_le.mp above)] at expanded
    cases expanded
  have returned {outLen n : Nat} {okm : Bytes}
      (expanded : slHkdfExpandSha256 (withHmac C hmac) prk info outLen = some okm)
      (inside : outLen ≤ hkdfHashLen * n) : okm = (stream hmac prk info n).take outLen :=
    Option.some.inj (expanded.symm.trans (expand_stream (limited expanded) inside))
  have most : 255 * hkdfHashLen ≤ hkdfHashLen * 255 := Nat.le_of_eq (Nat.mul_comm _ _)
  refine ⟨fun outLen => ⟨fun some => ?_, fun fits => ?_⟩, fun outLen okm expanded => ⟨?_, ?_⟩, ?_⟩
  · obtain ⟨okm, expanded⟩ := Option.isSome_iff_exists.mp some
    exact limited expanded
  · rw [expand_stream fits (Nat.le_trans fits most)]
    rfl
  · have fits := Nat.le_trans (limited expanded) most
    rw [returned expanded fits, List.length_take, stream_length, Nat.min_eq_left fits]
  · intro n inside
    exact returned expanded inside
  · intro short long first second le expandedShort expandedLong
    have fits := Nat.le_trans (limited expandedLong) most
    rw [returned expandedShort (Nat.le_trans le fits), returned expandedLong fits]
    exact List.take_prefix_take_left le

end SecureLink.Guarantees.KeyExpansion
