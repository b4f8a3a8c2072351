import SecureLink.Library.HashChain
import SecureLink.Library.Runs
import SecureLink.Source.Audit.AuditLog

/-!
# Tamper evidence of the audit log

A file of complete entries is verified exactly if every stored hash is the one of the
chain. So a verified file is determined by its last hash, as long as the hash function
does not collide on what is hashed and never yields the zero hash the chain starts from.
What the log itself writes, over any number of sessions, is verified.
-/
namespace SecureLink.Guarantees.AuditChain
open Library.BigEndian Library.HashChain Library.Log Library.Runs Source.Audit Source.Wire

/-- What is hashed for an entry behind a hash. -/
def message (prev : Digest) (body : Bytes) : Bytes := prev.1 ++ body

theorem message_injective (prev : Digest) (body : Bytes) (prev' : Digest) (body' : Bytes)
    (same : message prev body = message prev' body') : prev = prev' ∧ body = body' := by
  obtain ⟨first, second⟩ := List.append_inj same (prev.2.trans prev'.2.symm)
  exact ⟨Subtype.ext first, second⟩

section Hash
variable (sha256 : Bytes → Digest)

/-- The hash behind a list of entries. -/
def finalHash (es : List AuditEntry) : Digest :=
  chain sha256 message zeroDigest (es.map AuditEntry.body)

/-- Everything that is hashed when a list of entries is verified. -/
def hashed (es : List AuditEntry) : List Bytes :=
  messages sha256 message zeroDigest (es.map AuditEntry.body)

/-- Every entry stores the hash of the chain. -/
def Chained : Digest → List AuditEntry → Prop
  | _, [] => True
  | prev, e :: rest =>
    e.payload.length ≤ auditPayloadMax ∧ e.stored = sha256 (message prev e.body) ∧
      Chained (sha256 (message prev e.body)) rest

end Hash

variable {sha256 : Bytes → Digest}

theorem verifyLoop_iff_chained {es : List AuditEntry} {fuel : Nat} (enough : es.length < fuel)
    (prev : Digest) :
    verifyLoop sha256 fuel prev (log AuditEntry.bytes es) = some 0 ↔ Chained sha256 prev es := by
  induction es generalizing fuel prev with
  | nil =>
    obtain ⟨fuel, rfl⟩ : ∃ k, fuel = k + 1 := ⟨fuel - 1, by omega⟩
    exact iff_of_true rfl trivial
  | cons e rest ih =>
    obtain ⟨fuel, rfl⟩ : ∃ k, fuel = k + 1 := ⟨fuel - 1, by omega⟩
    have shorter : rest.length < fuel := Nat.lt_of_succ_lt_succ enough
    rw [log_cons, verifyLoop_entry, Chained, message, ← ih shorter]
    split_ifs with long differs
    · exact iff_of_false (by decide) (fun h => absurd h.1 (Nat.not_le.mpr long))
    · exact iff_of_false (by decide) (fun h => differs h.2.1)
    · exact ⟨fun later => ⟨Nat.not_lt.mp long, not_not.mp differs, later⟩, fun h => h.2.2⟩

/-- A file of complete entries is verified exactly if it is chained. -/
theorem slAuditLogVerify_iff (es : List AuditEntry) :
    slAuditLogVerify sha256 (log AuditEntry.bytes es) = some 0 ↔ Chained sha256 zeroDigest es :=
  verifyLoop_iff_chained
    (Nat.lt_succ_of_le (length_le_log AuditEntry.bytes_nonempty es)) zeroDigest

/-- The stored hashes follow from the bodies. -/
theorem Chained.eq_of_bodies {es fs : List AuditEntry} {prev : Digest} (left : Chained sha256 prev es)
    (right : Chained sha256 prev fs) (bodies : es.map AuditEntry.body = fs.map AuditEntry.body) :
    es = fs := by
  induction es generalizing fs prev with
  | nil =>
    rw [List.map_nil, eq_comm, List.map_eq_nil_iff] at bodies
    exact bodies.symm
  | cons e rest ih =>
    cases fs with
    | nil => cases bodies
    | cons f rest' =>
      rw [List.map_cons, List.map_cons, List.cons.injEq] at bodies
      obtain ⟨_, storedLeft, laterLeft⟩ := left
      obtain ⟨_, storedRight, laterRight⟩ := right
      rw [← bodies.1] at storedRight laterRight
      rw [AuditEntry.ext_body bodies.1 (storedLeft.trans storedRight.symm),
        ih laterLeft laterRight bodies.2]

theorem Chained.concat {es : List AuditEntry} {e : AuditEntry} {prev : Digest} :
    Chained sha256 prev (es ++ [e]) ↔ Chained sha256 prev es ∧
      e.payload.length ≤ auditPayloadMax ∧
      e.stored = sha256 (message (chain sha256 message prev (es.map AuditEntry.body)) e.body) := by
  induction es generalizing prev with
  | nil => simp [Chained, chain]
  | cons first rest ih => simp only [List.cons_append, Chained, ih, List.map_cons, chain, and_assoc]

/-- The last bytes of a chained file are its final hash. -/
theorem last_bytes {es : List AuditEntry} (chained : Chained sha256 zeroDigest es)
    (nonempty : es ≠ []) :
    (log AuditEntry.bytes es).drop ((log AuditEntry.bytes es).length - sha256DigestLength) =
      (finalHash sha256 es).1 := by
  rcases List.eq_nil_or_concat es with rfl | ⟨init, last, rfl⟩
  · exact absurd rfl nonempty
  · rw [List.concat_eq_append] at chained ⊢
    have stored : last.stored = finalHash sha256 (init ++ [last]) := by
      rw [finalHash, List.map_append, List.map_singleton, chain_concat]
      exact (Chained.concat.mp chained).2.2
    have file : log AuditEntry.bytes (init ++ [last]) =
        (log AuditEntry.bytes init ++ last.body) ++ last.stored.1 := by
      rw [log_append, log_cons, log_nil, List.append_nil, AuditEntry.bytes, List.append_assoc]
    rw [file, List.length_append, last.stored.2, Nat.add_sub_cancel, List.drop_left, stored]

/-- Two verified files of complete entries with the same last hash are the same file. SHA-256
is assumed not to collide on what is hashed for the two files, and not to yield zeros. -/
theorem verified_files_with_same_last_hash (sha256 : Bytes → Digest) (es fs : List AuditEntry)
    (nonemptyLeft : log AuditEntry.bytes es ≠ []) (nonemptyRight : log AuditEntry.bytes fs ≠ [])
    (verifiedLeft : slAuditLogVerify sha256 (log AuditEntry.bytes es) = some 0)
    (verifiedRight : slAuditLogVerify sha256 (log AuditEntry.bytes fs) = some 0)
    (collisionFree : ∀ m ∈ hashed sha256 es, ∀ m' ∈ hashed sha256 fs,
      sha256 m = sha256 m' → m = m')
    (nonzero : ∀ m ∈ hashed sha256 es ++ hashed sha256 fs, sha256 m ≠ zeroDigest)
    (same : (log AuditEntry.bytes es).drop ((log AuditEntry.bytes es).length - sha256DigestLength) =
      (log AuditEntry.bytes fs).drop ((log AuditEntry.bytes fs).length - sha256DigestLength)) :
    log AuditEntry.bytes es = log AuditEntry.bytes fs := by
  have chainedLeft := (slAuditLogVerify_iff es).mp verifiedLeft
  have chainedRight := (slAuditLogVerify_iff fs).mp verifiedRight
  have someLeft : es ≠ [] := fun empty => nonemptyLeft (by rw [empty, log_nil])
  have someRight : fs ≠ [] := fun empty => nonemptyRight (by rw [empty, log_nil])
  rw [last_bytes chainedLeft someLeft, last_bytes chainedRight someRight] at same
  have bodies : es.map AuditEntry.body = fs.map AuditEntry.body :=
    chain_injective message_injective collisionFree
      (fun m hm => nonzero m (List.mem_append_left _ hm))
      (fun m hm => nonzero m (List.mem_append_right _ hm)) (Subtype.ext same)
  rw [chainedLeft.eq_of_bodies chainedRight bodies]

/-- A hash that is no more than a polynomial in the bytes. -/
def toySha256 (data : Bytes) : Digest :=
  ⟨encode sha256DigestLength (data.foldl (fun acc b => acc * 31 + b.toNat) 7), encode_length _ _⟩

/-- The entry `sl_audit_log_append` writes behind a hash. -/
def writtenEntry (sha256 : Bytes → Digest) (prev : Digest) (nowMs : UInt64) (event : SlAuditEvent)
    (payload : { bytes : Bytes // bytes.length ≤ auditPayloadMax }) : AuditEntry where
  header := ⟨auditHeader nowMs event payload.1.length, rfl⟩
  payload := payload.1
  stored := sha256 (message prev (auditHeader nowMs event payload.1.length ++ payload.1))
  plen := by
    have small : payload.1.length < UInt32.size :=
      Nat.lt_of_le_of_lt payload.2 (by decide)
    have field : (auditHeader nowMs event payload.1.length).drop 12 =
        packU32 (UInt32.ofNat payload.1.length) := rfl
    rw [field, ← List.append_nil (packU32 _), unpackU32_pack, UInt32.toNat_ofNat_of_lt' small]

def toyEntries : List AuditEntry :=
  let first := writtenEntry toySha256 zeroDigest 5 .authFail ⟨ascii "eve", by decide⟩
  [first, writtenEntry toySha256 first.stored 9 .shutdown ⟨[], by decide⟩]

theorem verified_files_with_same_last_hash_toy :
    slAuditLogVerify toySha256 (log AuditEntry.bytes toyEntries) = some 0 ∧
    log AuditEntry.bytes toyEntries = log AuditEntry.bytes toyEntries :=
  ⟨by decide +kernel, verified_files_with_same_last_hash toySha256 toyEntries toyEntries
    (by decide +kernel) (by decide +kernel) (by decide +kernel) (by decide +kernel)
    (by decide +kernel) (by decide +kernel) rfl⟩

/-- A handle that is in step with a chained file. -/
def Represents (sha256 : Bytes → Digest) (handle : SlAuditLog) : Prop :=
  ∃ es, handle.file = log AuditEntry.bytes es ∧ Chained sha256 zeroDigest es ∧
    handle.prevHash = finalHash sha256 es

/-- Opening a chained file recovers the hash to go on from. -/
theorem represents_open {es : List AuditEntry} (chained : Chained sha256 zeroDigest es) :
    Represents sha256 (slAuditLogOpen (log AuditEntry.bytes es)) := by
  refine ⟨es, ?_, chained, ?_⟩
  · unfold slAuditLogOpen
    split <;> rfl
  · rcases List.eq_nil_or_concat es with rfl | ⟨init, last, rfl⟩
    · rfl
    · rw [List.concat_eq_append] at chained ⊢
      have long : sha256DigestLength ≤ (log AuditEntry.bytes (init ++ [last])).length := by
        rw [log_append, log_cons, log_nil, List.append_nil, List.length_append, last.length_bytes]
        omega
      rw [slAuditLogOpen, dif_pos long]
      exact Subtype.ext (last_bytes chained (by simp))

theorem Represents.append {handle : SlAuditLog} (h : Represents sha256 handle) (nowMs : UInt64)
    (event : SlAuditEvent) (payload : Bytes) :
    Represents sha256 (slAuditLogAppend sha256 handle nowMs event payload).1 := by
  obtain ⟨es, file, chained, prev⟩ := h
  unfold slAuditLogAppend
  split
  next => exact ⟨es, file, chained, prev⟩
  next short =>
    have fits : payload.length ≤ auditPayloadMax := Nat.not_lt.mp short
    let e := writtenEntry sha256 handle.prevHash nowMs event ⟨payload, fits⟩
    have stored : e.stored = sha256 (message (finalHash sha256 es) e.body) := by
      rw [← prev]
      rfl
    refine ⟨es ++ [e], ?_, Chained.concat.mpr ⟨chained, fits, stored⟩, ?_⟩
    · rw [log_append, log_cons, log_nil, List.append_nil, ← file, AuditEntry.bytes, AuditEntry.body]
      simp only [e, writtenEntry, message, List.append_assoc]
    · rw [finalHash, List.map_append, List.map_singleton, chain_concat]
      refine Eq.trans ?_ stored
      simp only [e, writtenEntry, message, List.append_assoc]

/-- A call on the log: an event, or a new session on the file so far. -/
inductive AuditCall where
  | append (nowMs : UInt64) (event : SlAuditEvent) (payload : Bytes)
  | reopen

def auditStep (sha256 : Bytes → Digest) (handle : SlAuditLog) : AuditCall → SlAuditLog × Int
  | .append nowMs event payload => slAuditLogAppend sha256 handle nowMs event payload
  | .reopen => (slAuditLogOpen handle.file, 0)

theorem Represents.step {handle : SlAuditLog} (h : Represents sha256 handle) (call : AuditCall) :
    Represents sha256 (auditStep sha256 handle call).1 := by
  cases call with
  | append nowMs event payload => exact h.append nowMs event payload
  | reopen =>
    obtain ⟨es, file, chained, _⟩ := h
    simp only [auditStep, file]
    exact represents_open chained

theorem represents_run (sha256 : Bytes → Digest) (calls : List AuditCall) :
    Represents sha256 (run (auditStep sha256) (slAuditLogOpen []) calls) :=
  run_invariant (Represents sha256) (fun _ call h => h.step call) calls
    (@represents_open sha256 [] trivial)

/-- Whatever is appended to a new log, in any number of sessions, the file is verified. -/
theorem written_log_verified (sha256 : Bytes → Digest) (calls : List AuditCall) :
    slAuditLogVerify sha256 (run (auditStep sha256) (slAuditLogOpen []) calls).file = some 0 := by
  obtain ⟨es, file, chained, _⟩ := represents_run sha256 calls
  rw [file]
  exact (slAuditLogVerify_iff es).mpr chained

end SecureLink.Guarantees.AuditChain
