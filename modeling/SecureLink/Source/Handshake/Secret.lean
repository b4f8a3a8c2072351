import SecureLink.Source.Handshake.Msg
import SecureLink.Source.Record.Nonce

/-!
# Transcript, key schedule and Finished MAC

src/sl_transcript.c:12-26, src/sl_hkdf.c:11-89, src/sl_session_keys.c:9-40,
src/sl_handshake_secret.c:13-46, src/sl_finished.c:24-46, src/sl_mem.c:14-26 and the checks of
src/sl_ecdh.c:49-84. The OpenSSL primitives are parameters. SHA-256 contexts are represented by the
bytes absorbed, zeroing of temporaries is not represented.
-/
namespace SecureLink.Source.Handshake
open Library.BigEndian
open Record (slAeadKeyLen slAeadIvLen)

def slTranscriptLen : Nat := 32
def slFinishedLen : Nat := 32
def slHsMasterLen : Nat := 32
def slEd25519PubkeyLen : Nat := 32
def slEd25519SigLen : Nat := 64
def hkdfHashLen : Nat := 32

/-- The third-party primitives, as functions of their inputs. A failed call is `none`. -/
structure Crypto where
  Keypair : Type
  sha256 (data : Bytes) : FixedBytes slTranscriptLen
  hmacSha256 (key data : Bytes) : Option Bytes
  ecExportPubkey (kp : Keypair) : Option (FixedBytes slEcdhPubkeyLen)
  ecPointOnCurve (pub : Bytes) : Bool
  ecdhComputeKey (kp : Keypair) (peer : Bytes) : Option Bytes
  ed25519Verify (pub msg sig : Bytes) : Bool

def slTranscriptUpdate (transcript data : Bytes) : Bytes := transcript ++ data

section Primitives
variable (C : Crypto)

/-- A snapshot: the running context is copied before it is finalised. -/
def slTranscriptGet (transcript : Bytes) : Bytes := (C.sha256 transcript).1

def slEcdhValidatePubkey (pub : Bytes) : Bool :=
  pub.head? == some 0x04 && C.ecPointOnCurve pub

def slEcdhComputeShared (kp : C.Keypair) (peerPub : Bytes) : Option Bytes :=
  if slEcdhValidatePubkey C peerPub then C.ecdhComputeKey kp peerPub else none

def slHkdfExtractSha256 (ikm salt : Bytes) : Option Bytes := do
  let prk ← C.hmacSha256 (if salt.isEmpty then List.replicate hkdfHashLen 0 else salt) ikm
  if prk.length ≠ hkdfHashLen then none else some prk

/-- The expand loop; `fuel` bounds the iterations, each of which writes at least one
byte as long as the MAC is not empty. -/
def hkdfExpandLoop (prk info : Bytes) (outLen : Nat) :
    Nat → (t : Bytes) → (ctr : UInt8) → (out : Bytes) → Option Bytes
  | fuel, t, ctr, out =>
    if outLen ≤ out.length then some out
    else match fuel with
      | 0 => none
      | fuel + 1 => do
        let t ← C.hmacSha256 prk (t ++ info ++ [ctr])
        hkdfExpandLoop prk info outLen fuel t (ctr + 1) (out ++ t.take (outLen - out.length))

def slHkdfExpandSha256 (prk info : Bytes) (outLen : Nat) : Option Bytes :=
  if outLen > 255 * hkdfHashLen then none
  else hkdfExpandLoop C prk info outLen outLen [] 1 []

def slHkdfSha256 (ikm salt info : Bytes) (outLen : Nat) : Option Bytes := do
  let prk ← slHkdfExtractSha256 C ikm salt
  slHkdfExpandSha256 C prk info outLen

end Primitives

section Hkdf
variable {C : Crypto} {prk info : Bytes} {outLen : Nat}

theorem hkdfExpandLoop_full {fuel : Nat} {t : Bytes} {ctr : UInt8} {out : Bytes}
    (full : outLen ≤ out.length) : hkdfExpandLoop C prk info outLen fuel t ctr out = some out := by
  unfold hkdfExpandLoop
  exact if_pos full

/-- A round: the next block is appended as far as there is room. -/
theorem hkdfExpandLoop_round {fuel : Nat} {t : Bytes} {ctr : UInt8} {out block : Bytes}
    (room : out.length < outLen) (mac : C.hmacSha256 prk (t ++ info ++ [ctr]) = some block) :
    hkdfExpandLoop C prk info outLen (fuel + 1) t ctr out =
      hkdfExpandLoop C prk info outLen fuel block (ctr + 1)
        (out ++ block.take (outLen - out.length)) := by
  rw [hkdfExpandLoop, if_neg (Nat.not_le.mpr room), mac]
  rfl

/-- A loop that returns is done, or has appended a block and goes on. -/
theorem hkdfExpandLoop_some {fuel : Nat} {t : Bytes} {ctr : UInt8} {out result : Bytes}
    (done : hkdfExpandLoop C prk info outLen fuel t ctr out = some result) :
    out = result ∨ ∃ k block, fuel = k + 1 ∧
      hkdfExpandLoop C prk info outLen k block (ctr + 1)
        (out ++ block.take (outLen - out.length)) = some result := by
  by_cases full : outLen ≤ out.length
  · rw [hkdfExpandLoop_full full] at done
    exact Or.inl (Option.some.inj done)
  · unfold hkdfExpandLoop at done
    rw [if_neg full] at done
    cases fuel with
    | zero => cases done
    | succ k =>
      obtain ⟨block, -, rest⟩ := Option.bind_eq_some_iff.mp done
      exact Or.inr ⟨k, block, rfl, rest⟩

/-- The expand loop only appends. -/
theorem hkdfExpandLoop_extends {fuel : Nat} {t : Bytes} {ctr : UInt8} {out result : Bytes}
    (done : hkdfExpandLoop C prk info outLen fuel t ctr out = some result) : out <+: result := by
  induction fuel generalizing t ctr out with
  | zero =>
    rcases hkdfExpandLoop_some done with rfl | ⟨k, _, more, _⟩
    · exact List.prefix_refl out
    · cases more
  | succ fuel ih =>
    rcases hkdfExpandLoop_some done with rfl | ⟨k, block, same, rest⟩
    · exact List.prefix_refl out
    · obtain rfl := Nat.succ.inj same
      exact (List.prefix_append out _).trans (ih rest)

/-- HMAC answers every call with a full MAC. -/
def MacAnswers (C : Crypto) : Prop :=
  ∀ key data, ∃ mac, C.hmacSha256 key data = some mac ∧ mac.length = hkdfHashLen

/-- Then the expand loop fills its output. -/
theorem hkdfExpandLoop_answers (answers : MacAnswers C) {fuel : Nat} {t : Bytes} {ctr : UInt8}
    {out : Bytes} (enough : outLen ≤ out.length + fuel) :
    ∃ result, hkdfExpandLoop C prk info outLen fuel t ctr out = some result := by
  induction fuel generalizing t ctr out with
  | zero => exact ⟨out, hkdfExpandLoop_full enough⟩
  | succ fuel ih =>
    by_cases full : outLen ≤ out.length
    · exact ⟨out, hkdfExpandLoop_full full⟩
    · obtain ⟨block, mac, size⟩ := answers prk (t ++ info ++ [ctr])
      rw [hkdfExpandLoop_round (Nat.not_le.mp full) mac]
      apply ih
      rw [List.length_append, List.length_take, size, hkdfHashLen]
      omega

theorem slHkdfExtractSha256_answers (answers : MacAnswers C) (ikm salt : Bytes) :
    ∃ prk, slHkdfExtractSha256 C ikm salt = some prk := by
  obtain ⟨prk, mac, size⟩ :=
    answers (if salt.isEmpty then List.replicate hkdfHashLen 0 else salt) ikm
  refine ⟨prk, ?_⟩
  rw [slHkdfExtractSha256, mac]
  exact if_neg (not_not.mpr size)

theorem slHkdfExpandSha256_answers (answers : MacAnswers C) (prk info : Bytes)
    (fits : outLen ≤ 255 * hkdfHashLen) :
    ∃ okm, slHkdfExpandSha256 C prk info outLen = some okm := by
  rw [slHkdfExpandSha256, if_neg (Nat.not_lt.mpr fits)]
  exact hkdfExpandLoop_answers answers (by simp)

end Hkdf

structure SlSessionKeys where
  clientKey : Bytes := List.replicate slAeadKeyLen 0
  clientIv : Bytes := List.replicate slAeadIvLen 0
  serverKey : Bytes := List.replicate slAeadKeyLen 0
  serverIv : Bytes := List.replicate slAeadIvLen 0
  deriving DecidableEq, Repr

structure SlHandshakeSecret where
  master : Bytes := List.replicate slHsMasterLen 0
  clientFinishedKey : Bytes := List.replicate slFinishedLen 0
  serverFinishedKey : Bytes := List.replicate slFinishedLen 0
  appKeys : SlSessionKeys := {}
  deriving DecidableEq, Repr

section Schedule
variable (C : Crypto)

def slSessionKeysDerive (master salt : Bytes) : Option SlSessionKeys := do
  let clientKey ← slHkdfSha256 C master salt (ascii "securelink v1 c2s key") slAeadKeyLen
  let clientIv ← slHkdfSha256 C master salt (ascii "securelink v1 c2s iv") slAeadIvLen
  let serverKey ← slHkdfSha256 C master salt (ascii "securelink v1 s2c key") slAeadKeyLen
  let serverIv ← slHkdfSha256 C master salt (ascii "securelink v1 s2c iv") slAeadIvLen
  some { clientKey, clientIv, serverKey, serverIv }

def slHandshakeSecretDerive (ecdhShared transcript : Bytes) : Option SlHandshakeSecret := do
  let master ← slHkdfSha256 C ecdhShared transcript (ascii "securelink v1 master") slHsMasterLen
  let clientFinishedKey ←
    slHkdfSha256 C master [] (ascii "securelink v1 c2s finished") slFinishedLen
  let serverFinishedKey ←
    slHkdfSha256 C master [] (ascii "securelink v1 s2c finished") slFinishedLen
  let appKeys ← slSessionKeysDerive C master transcript
  some { master, clientFinishedKey, serverFinishedKey, appKeys }

end Schedule

/-- `sl_ct_equal`: OR of the byte differences, mapped to 0 or 1 without a branch. -/
def slCtEqual (a b : Bytes) : Bool :=
  let diff := (List.zipWith (· ^^^ ·) a b).foldl (· ||| ·) (0 : UInt8)
  ((1 : UInt32) &&& ((diff.toUInt32 - 1) >>> 8)) == 1

def slFinishedCompute (C : Crypto) (finishedKey transcriptHash : Bytes) : Option Bytes := do
  let mac ← C.hmacSha256 finishedKey transcriptHash
  if mac.length = slFinishedLen then some mac else none

def slFinishedVerify (C : Crypto) (finishedKey transcriptHash receivedMac : Bytes) : Bool :=
  match slFinishedCompute C finishedKey transcriptHash with
  | none => false
  | some expected => slCtEqual expected receivedMac

theorem foldl_or_eq_zero (diffs : Bytes) (acc : UInt8) :
    diffs.foldl (· ||| ·) acc = 0 ↔ acc = 0 ∧ ∀ d ∈ diffs, d = 0 := by
  induction diffs generalizing acc with
  | nil => simp
  | cons d rest ih => simp [ih, and_assoc]

/-- The subtraction borrows into the upper bytes exactly for zero. -/
theorem ct_result (diff : UInt8) :
    (((1 : UInt32) &&& ((diff.toUInt32 - 1) >>> 8)) == 1) = (diff == 0) := by
  by_cases zero : diff = 0
  · subst zero
    decide
  · have pos : 0 < diff.toNat := by
      rcases Nat.eq_zero_or_pos diff.toNat with h | h
      · exact absurd (UInt8.toNat_inj.mp h) zero
      · exact h
    have high : (diff.toUInt32 - 1) >>> 8 = 0 := by
      apply UInt32.toNat_inj.mp
      have le : (1 : UInt32) ≤ diff.toUInt32 := by
        simpa [UInt32.le_iff_toNat_le, Nat.one_le_iff_ne_zero] using Nat.ne_of_gt pos
      have lt := diff.toNat_lt
      rw [UInt32.toNat_shiftRight, UInt32.toNat_sub_of_le _ _ le]
      simp only [UInt8.toNat_toUInt32, Nat.shiftRight_eq_div_pow]
      exact Nat.div_eq_of_lt (by simp; omega)
    simp [high, zero]

/-- The constant-time comparison decides equality of equally long strings. -/
theorem slCtEqual_iff (a b : Bytes) (same : a.length = b.length) :
    slCtEqual a b = true ↔ a = b := by
  simp only [slCtEqual, ct_result, beq_iff_eq, foldl_or_eq_zero, true_and]
  induction a generalizing b with
  | nil => simp [List.eq_nil_of_length_eq_zero same.symm]
  | cons x xs ih =>
    cases b with
    | nil => simp at same
    | cons y ys =>
      have tail := ih ys (by simpa using same)
      simp [tail]

/-- A verified Finished carries exactly the MAC of the transcript hash. -/
theorem slFinishedVerify_iff (C : Crypto) (key hash mac : Bytes) (len : mac.length = slFinishedLen) :
    slFinishedVerify C key hash mac = true ↔ C.hmacSha256 key hash = some mac := by
  unfold slFinishedVerify slFinishedCompute
  cases computed : C.hmacSha256 key hash with
  | none => simp
  | some expected =>
    by_cases fits : expected.length = slFinishedLen
    · simp [fits, slCtEqual_iff expected mac (fits.trans len.symm)]
    · have differs : expected ≠ mac := by
        rintro rfl
        exact fits len
      simp [fits, differs]

end SecureLink.Source.Handshake
