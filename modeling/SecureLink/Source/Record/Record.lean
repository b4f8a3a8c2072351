import SecureLink.Library.Runs
import SecureLink.Source.Record.Nonce

/-!
# Encrypted records

src/sl_record.c:8-90. AES-256-GCM is a parameter; lengths of its outputs are fixed by the
buffers the source passes. A successful seal also returns the AEAD call it made.
-/
namespace SecureLink.Source.Record
open Library.BigEndian Library.Runs

def slRecordHeaderLen : Nat := 5
def slRecordVersion : UInt16 := 0x0301
def slRecordMaxPlaintext : Nat := 16384
def slRecordMaxCiphertext : Nat := slRecordMaxPlaintext + slAeadTagLen

/-- `sl_aead_seal` and `sl_aead_open`; a failed call is `none`. -/
structure Aead where
  slAeadSeal (key nonce aad pt : Bytes) : Option (FixedBytes pt.length × FixedBytes slAeadTagLen)
  slAeadOpen (key nonce aad ct tag : Bytes) : Option (FixedBytes ct.length)

/-- A successful AEAD call of the sender. -/
structure Sealed where
  key : Bytes
  nonce : Bytes
  aad : Bytes
  pt : Bytes
  ct : Bytes
  tag : Bytes
  deriving DecidableEq, Repr

structure SlRecord where
  type : Nat
  plaintext : Bytes
  deriving DecidableEq, Repr

def packU16 (v : UInt16) : Bytes := [(v >>> 8).toUInt8, v.toUInt8]

def unpackU16 (p : Bytes) : UInt16 :=
  (p.getD 0 0).toUInt16 <<< 8 ||| (p.getD 1 0).toUInt16

def slRecordPeekLen (header : Bytes) : Option Nat :=
  let ver := unpackU16 (header.drop 1)
  if ver ≠ slRecordVersion then none
  else
    let ctLen := (unpackU16 (header.drop 3)).toNat
    if ctLen < slAeadTagLen ∨ ctLen > slRecordMaxCiphertext then none
    else some (slRecordHeaderLen + ctLen)

/-- The header that `sl_record_seal` writes. -/
def recordHeader (type ptLen : Nat) : Bytes :=
  [UInt8.ofNat type] ++ packU16 slRecordVersion ++ packU16 (UInt16.ofNat (ptLen + slAeadTagLen))

section Aead
variable (A : Aead) (key : FixedBytes slAeadKeyLen) (staticIv : FixedBytes slAeadIvLen)

def slRecordSeal (type : Nat) (seq : UInt64) (pt : Bytes) (outCap : Nat) : Option (Bytes × Sealed) :=
  if pt.length > slRecordMaxPlaintext then none
  else if outCap < slRecordHeaderLen + pt.length + slAeadTagLen then none
  else
    let hdr := recordHeader type pt.length
    let nonce := slNonceBuild staticIv seq
    match A.slAeadSeal key.1 nonce hdr pt with
    | none => none
    | some (ct, tag) =>
      some (hdr ++ ct.1 ++ tag.1, { key := key.1, nonce, aad := hdr, pt, ct := ct.1, tag := tag.1 })

def slRecordOpen (wire : Bytes) (seq : UInt64) (ptCap : Nat) : Option SlRecord :=
  if wire.length < slRecordHeaderLen + slAeadTagLen then none
  else
    match slRecordPeekLen wire with
    | none => none
    | some expected =>
      if expected ≠ wire.length then none
      else
        let ptLen := (unpackU16 (wire.drop 3)).toNat - slAeadTagLen
        if ptCap < ptLen then none
        else
          let nonce := slNonceBuild staticIv seq
          let ct := (wire.drop slRecordHeaderLen).take ptLen
          let tag := (wire.drop (slRecordHeaderLen + ptLen)).take slAeadTagLen
          match A.slAeadOpen key.1 nonce (wire.take slRecordHeaderLen) ct tag with
          | none => none
          | some pt => some { type := (wire.getD 0 0).toNat, plaintext := pt.1 }

/-- A sender: seal the records at `seq`, `seq + 1`, and so on. The wires and the AEAD
calls of those that succeed. -/
def sealRecords (outCap : Nat) : UInt64 → List SlRecord → List (Bytes × Sealed)
  | _, [] => []
  | seq, r :: rest =>
    (slRecordSeal A key staticIv r.type seq r.plaintext outCap).toList ++
      sealRecords outCap (seq + 1) rest

/-- A receiver: open the wires with its own counter, stop at the first failure. -/
def openRecords (ptCap : Nat) (seq : UInt64) (wires : List Bytes) : List SlRecord :=
  collect (fun seq wire => (slRecordOpen A key staticIv wire seq ptCap).map (seq + 1, ·)) seq wires

variable {A key staticIv}

/-- Everything a successful seal did. -/
theorem slRecordSeal_some {type outCap : Nat} {seq : UInt64} {pt wire : Bytes} {call : Sealed}
    (h : slRecordSeal A key staticIv type seq pt outCap = some (wire, call)) :
    call.nonce = slNonceBuild staticIv seq ∧ call.aad = recordHeader type pt.length ∧
    call.pt = pt ∧ wire = call.aad ++ call.ct ++ call.tag := by
  unfold slRecordSeal at h
  split_ifs at h
  simp only at h
  split at h
  · cases h
  · cases h
    exact ⟨rfl, rfl, rfl, rfl⟩

/-- Everything a successful open checked. -/
theorem slRecordOpen_some {wire : Bytes} {seq : UInt64} {ptCap : Nat} {r : SlRecord}
    (h : slRecordOpen A key staticIv wire seq ptCap = some r) :
    ∃ ct tag, ∃ pt : FixedBytes ct.length,
      A.slAeadOpen key.1 (slNonceBuild staticIv seq) (wire.take slRecordHeaderLen) ct tag = some pt ∧
      r = { type := ((wire.take slRecordHeaderLen).getD 0 0).toNat, plaintext := pt.1 } := by
  unfold slRecordOpen at h
  split_ifs at h
  cases peeked : slRecordPeekLen wire with
  | none => simp [peeked] at h
  | some expected =>
    simp only [peeked] at h
    split_ifs at h
    split at h
    · cases h
    next pt opened =>
      cases h
      refine ⟨_, _, pt, opened, ?_⟩
      simp [slRecordHeaderLen, List.getD_eq_getElem?_getD]

/-- The calls of the sender, by position. -/
theorem mem_sealRecords {outCap : Nat} {seq : UInt64} {records : List SlRecord}
    {entry : Bytes × Sealed} (h : entry ∈ sealRecords A key staticIv outCap seq records) :
    ∃ i, ∃ r, records[i]? = some r ∧
      slRecordSeal A key staticIv r.type (seq + UInt64.ofNat i) r.plaintext outCap = some entry := by
  induction records generalizing seq with
  | nil => simp [sealRecords] at h
  | cons r rest ih =>
    rw [sealRecords, List.mem_append] at h
    rcases h with first | later
    · exact ⟨0, r, rfl, by simpa using first⟩
    · obtain ⟨i, r', at_i, sealed⟩ := ih later
      refine ⟨i + 1, r', by simpa using at_i, ?_⟩
      rw [UInt64.ofNat_add, UInt64.add_comm (UInt64.ofNat i), ← UInt64.add_assoc]
      exact sealed

end Aead

end SecureLink.Source.Record
