import SecureLink.Source.Record.Record
import SecureLink.Source.Wire.Fields

/-!
# Session tickets

src/sl_session_ticket.c:19-86. The IV that `sl_rng_bytes` writes is an argument, `none` where it
fails. A successful seal also returns the AEAD call it made.
-/
namespace SecureLink.Source.Sessions
open Library.BigEndian Record Wire

def slTicketPtLen : Nat := 72
def slTicketIvLen : Nat := 12
def slTicketTagLen : Nat := 16
def slTicketTotalLen : Nat := slTicketIvLen + slTicketPtLen + slTicketTagLen

structure SlTicketBody where
  issuedAtS : UInt32
  lifetimeS : UInt32
  resumptionSecret : FixedBytes 32
  peerIdentityPub : FixedBytes 32
  deriving DecidableEq, Repr

def packBody (b : SlTicketBody) : FixedBytes slTicketPtLen :=
  ⟨packU32 b.issuedAtS ++ packU32 b.lifetimeS ++ b.resumptionSecret.1 ++ b.peerIdentityPub.1, by
    simp [b.resumptionSecret.2, b.peerIdentityPub.2, slTicketPtLen]⟩

/-- 32 bytes of a plaintext, from an offset in it on. -/
def ticketField (pt : FixedBytes slTicketPtLen) (offset : Nat) (inside : offset + 32 ≤ slTicketPtLen) :
    FixedBytes 32 :=
  ⟨(pt.1.drop offset).take 32, by
    rw [List.length_take, List.length_drop, pt.2]
    omega⟩

def unpackBody (pt : FixedBytes slTicketPtLen) : SlTicketBody where
  issuedAtS := unpackU32 pt.1
  lifetimeS := unpackU32 (pt.1.drop 4)
  resumptionSecret := ticketField pt 8 (by decide)
  peerIdentityPub := ticketField pt (8 + 32) (by decide)

theorem unpackBody_packBody (b : SlTicketBody) : unpackBody (packBody b) = b := by
  obtain ⟨issued, lifetime, secret, identity⟩ := b
  have second : (packBody ⟨issued, lifetime, secret, identity⟩).1.drop 4 =
      packU32 lifetime ++ (secret.1 ++ identity.1) := by
    simp only [packBody, List.append_assoc]
    exact List.drop_left' (length_packU32 _)
  have third : (packBody ⟨issued, lifetime, secret, identity⟩).1.drop 8 = secret.1 ++ identity.1 := by
    rw [← List.drop_drop (i := 4) (j := 4), second]
    exact List.drop_left' (length_packU32 _)
  have fourth : (packBody ⟨issued, lifetime, secret, identity⟩).1.drop (8 + 32) = identity.1 := by
    rw [← List.drop_drop, third]
    exact List.drop_left' secret.2
  have first : (packBody ⟨issued, lifetime, secret, identity⟩).1 =
      packU32 issued ++ (packU32 lifetime ++ (secret.1 ++ identity.1)) := by
    simp only [packBody, List.append_assoc]
  simp only [unpackBody, ticketField, second, third, fourth, unpackU32_pack, SlTicketBody.mk.injEq]
  refine ⟨?_, trivial, Subtype.ext ?_, Subtype.ext ?_⟩
  · rw [first, unpackU32_pack]
  · exact List.take_left' secret.2
  · exact List.take_of_length_le (Nat.le_of_eq identity.2)

/-- A ticket: the IV, the ciphertext and the tag. -/
abbrev TicketWire := FixedBytes slTicketTotalLen

namespace TicketWire

def iv (wire : TicketWire) : Bytes := wire.1.take slTicketIvLen

def ct (wire : TicketWire) : Bytes := (wire.1.drop slTicketIvLen).take slTicketPtLen

def tag (wire : TicketWire) : Bytes := wire.1.drop (slTicketIvLen + slTicketPtLen)

theorem length_ct (wire : TicketWire) : wire.ct.length = slTicketPtLen := by
  rw [ct, List.length_take, List.length_drop, wire.2]
  decide

theorem parts (wire : TicketWire) : wire.1 = wire.iv ++ wire.ct ++ wire.tag := by
  rw [iv, ct, tag, List.append_assoc, ← List.drop_drop, List.take_append_drop, List.take_append_drop]

end TicketWire

section Aead
variable (A : Aead) (stk : FixedBytes slAeadKeyLen)

def slTicketSeal (body : SlTicketBody) (iv : Option (FixedBytes slTicketIvLen)) :
    Option (TicketWire × Sealed) :=
  let pt := packBody body
  match iv with
  | none => none
  | some iv =>
    match A.slAeadSeal stk.1 iv.1 iv.1 pt.1 with
    | none => none
    | some (ct, tag) =>
      some (⟨iv.1 ++ ct.1 ++ tag.1, by
          rw [List.length_append, List.length_append, iv.2, ct.2, tag.2, pt.2]
          rfl⟩,
        { key := stk.1, nonce := iv.1, aad := iv.1, pt := pt.1, ct := ct.1, tag := tag.1 })

def slTicketOpen (wire : TicketWire) : Option SlTicketBody :=
  match A.slAeadOpen stk.1 wire.iv wire.iv wire.ct wire.tag with
  | none => none
  | some pt => some (unpackBody ⟨pt.1, pt.2.trans wire.length_ct⟩)

end Aead

def slTicketIsFresh (body : SlTicketBody) (nowS : UInt32) : Bool :=
  if body.lifetimeS = 0 then false
  else if nowS < body.issuedAtS then false
  else nowS - body.issuedAtS < body.lifetimeS

/-- The difference does not wrap behind the comparison, so the window is the one over numbers. -/
theorem slTicketIsFresh_iff (body : SlTicketBody) (nowS : UInt32) :
    slTicketIsFresh body nowS = true ↔ body.issuedAtS.toNat ≤ nowS.toNat ∧
      nowS.toNat < body.issuedAtS.toNat + body.lifetimeS.toNat := by
  unfold slTicketIsFresh
  split
  next zero =>
    rw [zero]
    simp
  next =>
    split
    next early =>
      rw [UInt32.lt_iff_toNat_lt] at early
      simp only [Bool.false_eq_true, false_iff]
      omega
    next due =>
      have reached := UInt32.not_lt.mp due
      rw [UInt32.le_iff_toNat_le] at reached
      rw [decide_eq_true_iff, UInt32.lt_iff_toNat_lt, UInt32.toNat_sub_of_le _ _ (UInt32.not_lt.mp due)]
      omega

/-- The AEAD call that seals a body in a ticket. -/
def ticketCall (stk : FixedBytes slAeadKeyLen) (wire : TicketWire) (body : SlTicketBody) : Sealed :=
  ⟨stk.1, wire.iv, wire.iv, (packBody body).1, wire.ct, wire.tag⟩

section Specs
variable {A : Aead} {stk : FixedBytes slAeadKeyLen}

/-- Everything a successful seal did. -/
theorem slTicketSeal_some {body : SlTicketBody} {iv : Option (FixedBytes slTicketIvLen)}
    {wire : TicketWire} {call : Sealed} (h : slTicketSeal A stk body iv = some (wire, call)) :
    call = ticketCall stk wire body := by
  unfold slTicketSeal at h
  simp only at h
  split at h
  · cases h
  next iv =>
    split at h
    · cases h
    next ct tag _ =>
      cases h
      have ciphertext : ct.1.length = slTicketPtLen := ct.2.trans (packBody body).2
      have first : (iv.1 ++ ct.1 ++ tag.1).take slTicketIvLen = iv.1 := by
        rw [List.append_assoc]
        exact List.take_left' iv.2
      have second : ((iv.1 ++ ct.1 ++ tag.1).drop slTicketIvLen).take slTicketPtLen = ct.1 := by
        rw [List.append_assoc, List.drop_left' iv.2]
        exact List.take_left' ciphertext
      have third : (iv.1 ++ ct.1 ++ tag.1).drop (slTicketIvLen + slTicketPtLen) = tag.1 :=
        List.drop_left' (by rw [List.length_append, iv.2, ciphertext])
      simp only [ticketCall, TicketWire.iv, TicketWire.ct, TicketWire.tag, first, second, third]

/-- Everything a successful open checked. -/
theorem slTicketOpen_some_iff {wire : TicketWire} {body : SlTicketBody} :
    slTicketOpen A stk wire = some body ↔ ∃ pt : FixedBytes slTicketPtLen,
      (A.slAeadOpen stk.1 wire.iv wire.iv wire.ct wire.tag).map Subtype.val = some pt.1 ∧
      unpackBody pt = body := by
  unfold slTicketOpen
  cases A.slAeadOpen stk.1 wire.iv wire.iv wire.ct wire.tag with
  | none => simp
  | some pt =>
    simp only [Option.some.injEq, Option.map_some]
    constructor
    · intro unpacked
      exact ⟨_, rfl, unpacked⟩
    · intro ⟨pt', same, unpacked⟩
      rw [← unpacked]
      exact congrArg unpackBody (Subtype.ext same)

end Specs

end SecureLink.Source.Sessions
