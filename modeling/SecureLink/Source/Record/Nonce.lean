import SecureLink.Library.BigEndian

/-!
# AEAD nonces

src/sl_nonce.c:5-39 and the lengths of inc/sl_aead.h.
-/
namespace SecureLink.Source.Record
open Library.BigEndian

def slAeadKeyLen : Nat := 32
def slAeadIvLen : Nat := 12
def slAeadTagLen : Nat := 16

def seqBe (seq : UInt64) : Bytes :=
  [(seq >>> 56).toUInt8, (seq >>> 48).toUInt8, (seq >>> 40).toUInt8, (seq >>> 32).toUInt8,
    (seq >>> 24).toUInt8, (seq >>> 16).toUInt8, (seq >>> 8).toUInt8, seq.toUInt8]

/-- Copy the IV, then XOR the sequence number into its last eight bytes. -/
def slNonceBuild (iv : FixedBytes slAeadIvLen) (seq : UInt64) : Bytes :=
  (List.range 8).foldl
    (fun nonce i => nonce.modify (slAeadIvLen - 8 + i) (· ^^^ (seqBe seq).getD i 0)) iv.1

/-- The next nonce and counter, refused at the largest counter. -/
def slNonceNext (iv : FixedBytes slAeadIvLen) (seq : UInt64) : Option (Bytes × UInt64) :=
  if seq = UInt64.ofNat (2 ^ 64 - 1) then none else some (slNonceBuild iv seq, seq + 1)

theorem seqBe_eq (seq : UInt64) : seqBe seq = encode 8 seq.toNat := by
  have octet : ∀ (shift : Nat), shift < 64 →
      (seq >>> UInt64.ofNat shift).toUInt8 = UInt8.ofNat (seq.toNat / 2 ^ shift) := by
    intro shift small
    apply UInt8.toNat_inj.mp
    simp [UInt64.toNat_shiftRight, Nat.shiftRight_eq_div_pow, Nat.mod_eq_of_lt small]
  have whole : seq.toUInt8 = UInt8.ofNat (seq.toNat / 2 ^ 0) := by simp
  rw [seqBe, whole]
  simp only [encode]
  refine congrArg₂ _ (octet 56 (by decide)) (congrArg₂ _ (octet 48 (by decide))
    (congrArg₂ _ (octet 40 (by decide)) (congrArg₂ _ (octet 32 (by decide))
    (congrArg₂ _ (octet 24 (by decide)) (congrArg₂ _ (octet 16 (by decide))
    (congrArg₂ _ (octet 8 (by decide)) rfl))))))

/-- The nonce is the IV under a mask that is zero except for the sequence number. -/
theorem slNonceBuild_eq (iv : FixedBytes slAeadIvLen) (seq : UInt64) :
    slNonceBuild iv seq = iv.1.take 4 ++ List.zipWith (· ^^^ ·) (iv.1.drop 4) (seqBe seq) := by
  obtain ⟨bytes, len⟩ := iv
  match bytes, len with
  | [b0, b1, b2, b3, b4, b5, b6, b7, b8, b9, b10, b11], _ => rfl

theorem zipWith_xor_cancel {mask a b : Bytes} (ha : a.length = mask.length)
    (hb : b.length = mask.length)
    (h : List.zipWith (· ^^^ ·) mask a = List.zipWith (· ^^^ ·) mask b) : a = b := by
  induction mask generalizing a b with
  | nil => rw [List.eq_nil_of_length_eq_zero ha, List.eq_nil_of_length_eq_zero hb]
  | cons m rest ih =>
    match a, b with
    | [], _ | _, [] => simp at ha hb
    | x :: xs, y :: ys =>
      simp only [List.zipWith_cons_cons, List.cons.injEq, UInt8.xor_right_inj] at h
      rw [h.1, ih (by simpa using ha) (by simpa using hb) h.2]

/-- Different sequence numbers give different nonces. -/
theorem slNonceBuild_injective (iv : FixedBytes slAeadIvLen) {a b : UInt64}
    (h : slNonceBuild iv a = slNonceBuild iv b) : a = b := by
  rw [slNonceBuild_eq, slNonceBuild_eq] at h
  have width : (iv.1.drop 4).length = 8 := by simp [iv.2, slAeadIvLen]
  have same := zipWith_xor_cancel (width.symm ▸ rfl) (width.symm ▸ rfl) (List.append_cancel_left h)
  rw [seqBe_eq, seqBe_eq] at same
  exact UInt64.toNat_inj.mp (encode_injective a.toNat_lt b.toNat_lt same)

end SecureLink.Source.Record
