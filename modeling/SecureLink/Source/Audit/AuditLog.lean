import SecureLink.Library.Log
import SecureLink.Source.Wire.Fields

/-!
# Hash-chained audit log

src/sl_audit_log.c:30-126 over the bytes of the log file. SHA-256 is a parameter. A payload is
the bytes of the C string before its terminating zero, a null pointer the empty string.
Writes to the file succeed, and the file exists when it is verified.
-/
namespace SecureLink.Source.Audit
open Library.BigEndian Wire

def sha256DigestLength : Nat := 32

/-- `sizeof(header)`: time, event and length of the payload. -/
def auditHeaderLen : Nat := 8 + 4 + 4

def auditPayloadMax : Nat := 1024

inductive SlAuditEvent where
  | handshakeOk | handshakeFail | authFail | replay | rateLimit | lockout | keyRotate | quarantine
  | anomaly | shutdown
  deriving DecidableEq, Repr

def SlAuditEvent.code : SlAuditEvent → UInt32
  | .handshakeOk => 1
  | .handshakeFail => 2
  | .authFail => 3
  | .replay => 4
  | .rateLimit => 5
  | .lockout => 6
  | .keyRotate => 7
  | .quarantine => 8
  | .anomaly => 9
  | .shutdown => 10

abbrev Digest := FixedBytes sha256DigestLength

def zeroDigest : Digest := ⟨List.replicate sha256DigestLength 0, List.length_replicate⟩

structure SlAuditLog where
  file : Bytes
  prevHash : Digest
  deriving DecidableEq

/-- The last hash is recovered from the end of the existing file. -/
def slAuditLogOpen (file : Bytes) : SlAuditLog :=
  if long : sha256DigestLength ≤ file.length then
    { file, prevHash := ⟨file.drop (file.length - sha256DigestLength), by
        rw [List.length_drop]
        omega⟩ }
  else { file, prevHash := zeroDigest }

def auditHeader (nowMs : UInt64) (event : SlAuditEvent) (plen : Nat) : Bytes :=
  packU64 nowMs ++ packU32 event.code ++ packU32 (UInt32.ofNat plen)

section Hash
variable (sha256 : Bytes → Digest)

def slAuditLogAppend (log : SlAuditLog) (nowMs : UInt64) (event : SlAuditEvent) (payload : Bytes) :
    SlAuditLog × Int :=
  if payload.length > auditPayloadMax then (log, -1)
  else
    let header := auditHeader nowMs event payload.length
    let newHash := sha256 (log.prevHash.1 ++ header ++ payload)
    ({ file := log.file ++ (header ++ payload ++ newHash.1), prevHash := newHash }, 0)

/-- The loop of `sl_audit_log_verify` over what is left of the file; `none` if it is still
running after that many rounds. -/
def verifyLoop : Nat → Digest → Bytes → Option Int
  | 0, _, _ => none
  | fuel + 1, prev, rest =>
    let header := rest.take auditHeaderLen
    -- a tail shorter than a header ends the loop without an error
    if header.length ≠ auditHeaderLen then some 0
    else
      let plen := (unpackU32 (header.drop 12)).toNat
      if plen > auditPayloadMax then some (-1)
      else
        let payload := (rest.drop auditHeaderLen).take plen
        if payload.length ≠ plen then some (-1)
        else
          let stored := (rest.drop (auditHeaderLen + plen)).take sha256DigestLength
          if stored.length ≠ sha256DigestLength then some (-1)
          else
            let computed := sha256 (prev.1 ++ header ++ payload)
            if stored ≠ computed.1 then some (-1)
            else verifyLoop fuel computed (rest.drop (auditHeaderLen + plen + sha256DigestLength))

def slAuditLogVerify (file : Bytes) : Option Int := verifyLoop sha256 (file.length + 1) zeroDigest file

end Hash

/-- A complete entry of the file: as many payload bytes as its header says. -/
structure AuditEntry where
  header : FixedBytes auditHeaderLen
  payload : Bytes
  stored : Digest
  plen : payload.length = (unpackU32 (header.1.drop 12)).toNat

namespace AuditEntry

/-- What is hashed behind the previous hash. -/
def body (e : AuditEntry) : Bytes := e.header.1 ++ e.payload

def bytes (e : AuditEntry) : Bytes := e.body ++ e.stored.1

theorem length_bytes (e : AuditEntry) :
    e.bytes.length = auditHeaderLen + e.payload.length + sha256DigestLength := by
  rw [bytes, body, List.length_append, List.length_append, e.header.2, e.stored.2]

theorem bytes_nonempty (e : AuditEntry) : 0 < e.bytes.length := by
  rw [e.length_bytes, sha256DigestLength]
  omega

/-- The body and the hash determine the entry. -/
theorem ext_body {e f : AuditEntry} (bodies : e.body = f.body) (hashes : e.stored = f.stored) :
    e = f := by
  obtain ⟨header, payload, stored, _⟩ := e
  obtain ⟨header', payload', stored', _⟩ := f
  obtain ⟨first, second⟩ := List.append_inj bodies (header.2.trans header'.2.symm)
  obtain rfl : header = header' := Subtype.ext first
  obtain rfl : payload = payload' := second
  obtain rfl : stored = stored' := hashes
  rfl

end AuditEntry

variable {sha256 : Bytes → Digest}

/-- One round of the verifier on a complete entry. -/
theorem verifyLoop_entry (fuel : Nat) (prev : Digest) (e : AuditEntry) (rest : Bytes) :
    verifyLoop sha256 (fuel + 1) prev (e.bytes ++ rest) =
      if e.payload.length > auditPayloadMax then some (-1)
      else if e.stored ≠ sha256 (prev.1 ++ e.body) then some (-1)
      else verifyLoop sha256 fuel (sha256 (prev.1 ++ e.body)) rest := by
  have whole : e.bytes ++ rest = e.header.1 ++ (e.payload ++ (e.stored.1 ++ rest)) := by
    simp only [AuditEntry.bytes, AuditEntry.body, List.append_assoc]
  have header : (e.bytes ++ rest).take auditHeaderLen = e.header.1 := by
    rw [whole, List.take_left' e.header.2]
  have behind : (e.bytes ++ rest).drop auditHeaderLen = e.payload ++ (e.stored.1 ++ rest) := by
    rw [whole, List.drop_left' e.header.2]
  have tail : (e.bytes ++ rest).drop (auditHeaderLen + e.payload.length) = e.stored.1 ++ rest := by
    rw [← List.drop_drop, behind, List.drop_left]
  have next : (e.bytes ++ rest).drop (auditHeaderLen + e.payload.length + sha256DigestLength) =
      rest := by
    rw [← List.drop_drop, tail, List.drop_left' e.stored.2]
  have stored : (e.stored.1 ++ rest).take sha256DigestLength = e.stored.1 :=
    List.take_left' e.stored.2
  have differ : e.stored.1 ≠ (sha256 (prev.1 ++ e.body)).1 ↔ e.stored ≠ sha256 (prev.1 ++ e.body) :=
    not_congr Subtype.ext_iff.symm
  have message : prev.1 ++ e.header.1 ++ e.payload = prev.1 ++ e.body := List.append_assoc _ _ _
  simp only [verifyLoop, header, behind, e.header.2, ← e.plen, tail, next, stored, e.stored.2,
    List.take_left, ne_eq, not_true_eq_false, if_false, message]
  simp only [← ne_eq, differ]

/-- The verifier needs no more rounds than there are bytes. -/
theorem verifyLoop_some {fuel : Nat} {prev : Digest} {rest : Bytes} (enough : rest.length < fuel) :
    ∃ rc, verifyLoop sha256 fuel prev rest = some rc := by
  induction fuel generalizing prev rest with
  | zero => omega
  | succ fuel ih =>
    simp only [verifyLoop]
    split_ifs with short
    · exact ⟨0, rfl⟩
    · exact ⟨-1, rfl⟩
    · exact ⟨-1, rfl⟩
    · exact ⟨-1, rfl⟩
    · exact ⟨-1, rfl⟩
    · apply ih
      rw [List.length_take, auditHeaderLen] at short
      rw [List.length_drop, auditHeaderLen, sha256DigestLength]
      omega

theorem slAuditLogVerify_some (sha256 : Bytes → Digest) (file : Bytes) :
    ∃ rc, slAuditLogVerify sha256 file = some rc :=
  verifyLoop_some (Nat.lt_succ_self _)

end SecureLink.Source.Audit
