import SecureLink.Guarantees.AuditChain

/-!
# Truncated audit logs

The verifier stops without an error where fewer bytes than a header are left. So a log cut
inside an entry is reported exactly if the whole header of that entry is still there, and
the files that are verified are the chained ones with up to fifteen bytes of anything
behind them.
-/
namespace SecureLink.Guarantees.AuditTruncation
open Library.BigEndian Library.HashChain Library.Log Library.Runs Source.Audit Source.Wire
open AuditChain

variable {sha256 : Bytes → Digest}

/-- The verifier passes the chained entries and goes on with the tail. -/
theorem verifyLoop_chained {es : List AuditEntry} {prev : Digest} (chained : Chained sha256 prev es)
    (fuel : Nat) (tail : Bytes) :
    verifyLoop sha256 (es.length + fuel) prev (log AuditEntry.bytes es ++ tail) =
      verifyLoop sha256 fuel (chain sha256 message prev (es.map AuditEntry.body)) tail := by
  induction es generalizing prev with
  | nil => rw [List.length_nil, Nat.zero_add, log_nil, List.nil_append, List.map_nil, chain]
  | cons e rest ih =>
    obtain ⟨fits, stored, later⟩ := chained
    have same : ¬ e.stored ≠ sha256 (prev.1 ++ e.body) := not_not.mpr stored
    rw [List.length_cons, Nat.add_right_comm, log_cons, List.append_assoc, verifyLoop_entry,
      if_neg (Nat.not_lt.mpr fits), if_neg same]
    exact ih later

theorem slAuditLogVerify_chained {es : List AuditEntry} (chained : Chained sha256 zeroDigest es)
    (tail : Bytes) :
    ∃ fuel, slAuditLogVerify sha256 (log AuditEntry.bytes es ++ tail) =
      verifyLoop sha256 (fuel + 1) (finalHash sha256 es) tail := by
  have count := length_le_log AuditEntry.bytes_nonempty es
  refine ⟨(log AuditEntry.bytes es ++ tail).length - es.length, ?_⟩
  rw [finalHash, ← verifyLoop_chained chained, slAuditLogVerify, List.length_append]
  congr 1
  omega

theorem verifyLoop_short (fuel : Nat) (prev : Digest) {tail : Bytes}
    (short : tail.length < auditHeaderLen) : verifyLoop sha256 (fuel + 1) prev tail = some 0 := by
  have header : (tail.take auditHeaderLen).length ≠ auditHeaderLen := by
    rw [List.length_take]
    omega
  simp only [verifyLoop, if_pos header]

/-- An entry that lost its last bytes, but not its header, is an error. -/
theorem verifyLoop_torn (fuel : Nat) (prev : Digest) (e : AuditEntry) {left : Nat}
    (header : auditHeaderLen ≤ left) (torn : left < e.bytes.length) :
    verifyLoop sha256 (fuel + 1) prev (e.bytes.take left) = some (-1) := by
  rw [e.length_bytes] at torn
  have whole : e.bytes = e.header.1 ++ (e.payload ++ e.stored.1) := by
    rw [AuditEntry.bytes, AuditEntry.body, List.append_assoc]
  have first : (e.bytes.take left).take auditHeaderLen = e.header.1 := by
    rw [List.take_take, Nat.min_eq_left header, whole, List.take_left' e.header.2]
  have length : (e.bytes.take left).length = left := by
    rw [List.length_take, e.length_bytes]
    omega
  simp only [verifyLoop, first, e.header.2, ← e.plen, List.length_take, List.length_drop, length]
  rw [if_neg (by simp)]
  -- either the payload or the hash behind it is cut
  split_ifs with long payload stored
  · rfl
  · rfl
  · rfl
  · omega
  · omega

theorem chained_of_verifyLoop {fuel : Nat} {prev : Digest} {rest : Bytes}
    (verified : verifyLoop sha256 fuel prev rest = some 0) :
    ∃ es tail, Chained sha256 prev es ∧ tail.length < auditHeaderLen ∧
      rest = log AuditEntry.bytes es ++ tail := by
  induction fuel generalizing prev rest with
  | zero => cases verified
  | succ fuel ih =>
    simp only [verifyLoop] at verified
    split_ifs at verified with short long payload stored differs
    · refine ⟨[], rest, trivial, ?_, rfl⟩
      rw [List.length_take] at short
      omega
    · exact absurd verified (by decide)
    · exact absurd verified (by decide)
    · exact absurd verified (by decide)
    · exact absurd verified (by decide)
    · let e : AuditEntry := {
        header := ⟨rest.take auditHeaderLen, not_not.mp short⟩
        payload := (rest.drop auditHeaderLen).take
          (unpackU32 ((rest.take auditHeaderLen).drop 12)).toNat
        stored := ⟨(rest.drop (auditHeaderLen +
          (unpackU32 ((rest.take auditHeaderLen).drop 12)).toNat)).take sha256DigestLength,
          not_not.mp stored⟩
        plen := not_not.mp payload }
      obtain ⟨es, tail, chained, small, later⟩ := ih verified
      have hash : sha256 (prev.1 ++ rest.take auditHeaderLen ++ e.payload) =
          sha256 (message prev e.body) := by
        rw [message, AuditEntry.body, List.append_assoc]
      refine ⟨e :: es, tail, ⟨?_, ?_, hash ▸ chained⟩, small, ?_⟩
      · rw [e.plen]
        exact Nat.not_lt.mp long
      · exact (Subtype.ext (not_not.mp differs)).trans hash
      · rw [log_cons, List.append_assoc, ← later, AuditEntry.bytes, AuditEntry.body,
          List.append_assoc, List.append_assoc, ← List.drop_drop, List.take_append_drop,
          ← List.drop_drop, List.take_append_drop, List.take_append_drop]

/-- The files the verifier accepts. -/
theorem slAuditLogVerify_zero_iff (file : Bytes) :
    slAuditLogVerify sha256 file = some 0 ↔
      ∃ es tail, Chained sha256 zeroDigest es ∧ tail.length < auditHeaderLen ∧
        file = log AuditEntry.bytes es ++ tail := by
  constructor
  · exact chained_of_verifyLoop
  · intro ⟨es, tail, chained, short, whole⟩
    obtain ⟨fuel, loop⟩ := slAuditLogVerify_chained chained tail
    rw [whole, loop, verifyLoop_short fuel _ short]

/-- The file after a list of calls on a new log. -/
def fileAfter (sha256 : Bytes → Digest) (calls : List AuditCall) : Bytes :=
  (run (auditStep sha256) (slAuditLogOpen []) calls).file

/-- Where an entry of the file starts or ends. -/
def boundaries (sha256 : Bytes → Digest) (calls : List AuditCall) : List Nat :=
  (List.range (calls.length + 1)).map fun k => (fileAfter sha256 (calls.take k)).length

theorem fileAfter_chained (sha256 : Bytes → Digest) (calls : List AuditCall) :
    ∃ es, Chained sha256 zeroDigest es ∧ fileAfter sha256 calls = log AuditEntry.bytes es := by
  obtain ⟨es, file, chained, _⟩ := represents_run sha256 calls
  exact ⟨es, chained, file⟩

/-- A call leaves the file as it is or adds one entry. -/
theorem auditStep_file (handle : SlAuditLog) (call : AuditCall) :
    (auditStep sha256 handle call).1.file = handle.file ∨
      ∃ e : AuditEntry, (auditStep sha256 handle call).1.file = handle.file ++ e.bytes := by
  cases call with
  | append nowMs event payload =>
    simp only [auditStep, slAuditLogAppend]
    split
    next => exact Or.inl rfl
    next short =>
      refine Or.inr ⟨writtenEntry sha256 handle.prevHash nowMs event
        ⟨payload, Nat.not_lt.mp short⟩, ?_⟩
      simp only [AuditEntry.bytes, AuditEntry.body, writtenEntry, message, List.append_assoc]
  | reopen =>
    refine Or.inl ?_
    simp only [auditStep, slAuditLogOpen]
    split <;> rfl

theorem fileAfter_concat (sha256 : Bytes → Digest) (calls : List AuditCall) (call : AuditCall) :
    fileAfter sha256 (calls ++ [call]) = fileAfter sha256 calls ∨
      ∃ e : AuditEntry, fileAfter sha256 (calls ++ [call]) = fileAfter sha256 calls ++ e.bytes := by
  simp only [fileAfter, run_append, run_cons, run_nil]
  exact auditStep_file _ call

theorem boundaries_concat (calls : List AuditCall) (call : AuditCall) :
    boundaries sha256 (calls ++ [call]) =
      boundaries sha256 calls ++ [(fileAfter sha256 (calls ++ [call])).length] := by
  unfold boundaries
  rw [List.length_append, List.length_singleton, List.range_succ, List.map_append,
    List.map_singleton, List.take_of_length_le (by simp)]
  congr 1
  apply List.map_congr_left
  intro k hk
  rw [List.take_append_of_le_length (Nat.le_of_lt_succ (List.mem_range.mp hk))]

theorem boundaries_le {calls : List AuditCall} {b : Nat} (member : b ∈ boundaries sha256 calls) :
    b ≤ (fileAfter sha256 calls).length := by
  induction calls using List.reverseRecOn with
  | nil =>
    obtain rfl : b = 0 := List.mem_singleton.mp member
    exact Nat.zero_le _
  | append_singleton calls call ih =>
    rw [boundaries_concat, List.mem_append, List.mem_singleton] at member
    rcases member with member | rfl
    · apply Nat.le_trans (ih member)
      rcases fileAfter_concat sha256 calls call with kept | ⟨e, grown⟩
      · rw [kept]
      · rw [grown, List.length_append]
        exact Nat.le_add_right _ _
    · exact Nat.le_refl _

/-- A cut that is not at a boundary falls into an entry behind the last boundary before it. -/
theorem cut_inside_entry (calls : List AuditCall) {n : Nat}
    (cut : n ≤ (fileAfter sha256 calls).length) (inside : n ∉ boundaries sha256 calls) :
    ∃ es, ∃ e : AuditEntry, Chained sha256 zeroDigest es ∧
      (log AuditEntry.bytes es).length ∈ boundaries sha256 calls ∧
      (∀ b ∈ boundaries sha256 calls, b < n → b ≤ (log AuditEntry.bytes es).length) ∧
      (log AuditEntry.bytes es).length < n ∧
      n - (log AuditEntry.bytes es).length < e.bytes.length ∧
      (fileAfter sha256 calls).take n = log AuditEntry.bytes es ++
        e.bytes.take (n - (log AuditEntry.bytes es).length) := by
  -- the call that wrote the entry is the first one to leave the file longer than the cut
  induction calls using List.reverseRecOn with
  | nil =>
    have empty : n = 0 := Nat.le_zero.mp cut
    exact absurd (List.mem_singleton.mpr empty) inside
  | append_singleton calls call ih =>
    rw [boundaries_concat, List.mem_append, not_or] at inside
    obtain ⟨before, ends⟩ := inside
    rw [List.mem_singleton] at ends
    rw [boundaries_concat]
    by_cases earlier : n ≤ (fileAfter sha256 calls).length
    · obtain ⟨es, e, chained, member, last, behind, torn, whole⟩ := ih earlier before
      have same : (fileAfter sha256 (calls ++ [call])).take n = (fileAfter sha256 calls).take n := by
        rcases fileAfter_concat sha256 calls call with kept | ⟨added, grown⟩
        · rw [kept]
        · rw [grown, List.take_append_of_le_length earlier]
      refine ⟨es, e, chained, List.mem_append_left _ member, ?_, behind, torn, same.trans whole⟩
      intro b member below
      rcases List.mem_append.mp member with member | member
      · exact last b member below
      · rw [List.mem_singleton] at member
        omega
    · obtain ⟨es, chained, file⟩ := fileAfter_chained sha256 calls
      rcases fileAfter_concat sha256 calls call with kept | ⟨e, grown⟩
      · rw [kept] at cut
        exact absurd cut earlier
      · have start : (log AuditEntry.bytes es).length ∈ boundaries sha256 calls := by
          rw [← file]
          exact List.mem_map.mpr ⟨calls.length, by simp, by rw [List.take_length]⟩
        have length : (fileAfter sha256 (calls ++ [call])).length =
            (log AuditEntry.bytes es).length + e.bytes.length := by
          rw [grown, List.length_append, file]
        rw [file] at earlier
        refine ⟨es, e, chained, List.mem_append_left _ start, ?_, by omega, by omega, ?_⟩
        · intro b member _
          rcases List.mem_append.mp member with member | member
          · exact file ▸ boundaries_le member
          · rw [List.mem_singleton] at member
            omega
        · rw [grown, file, List.take_append, List.take_of_length_le (by omega)]

/-- A log cut inside an entry is reported exactly if the header of that entry is complete. In
general the verifier accepts chained entries with less than a header behind them. -/
theorem truncation_reported_iff (sha256 : Bytes → Digest) :
    (∀ (calls : List AuditCall) (n : Nat), n ≤ (fileAfter sha256 calls).length →
      n ∉ boundaries sha256 calls →
      (slAuditLogVerify sha256 ((fileAfter sha256 calls).take n) = some (-1) ↔
        ∀ b ∈ boundaries sha256 calls, b < n → b + auditHeaderLen ≤ n)) ∧
    (∀ file : Bytes, slAuditLogVerify sha256 file = some 0 ↔
      ∃ es tail, Chained sha256 zeroDigest es ∧ tail.length < auditHeaderLen ∧
        file = log AuditEntry.bytes es ++ tail) := by
  refine ⟨?_, slAuditLogVerify_zero_iff⟩
  intro calls n cut inside
  obtain ⟨es, e, chained, member, last, behind, torn, whole⟩ := cut_inside_entry calls cut inside
  obtain ⟨fuel, loop⟩ := slAuditLogVerify_chained chained
    (e.bytes.take (n - (log AuditEntry.bytes es).length))
  rw [whole, loop]
  by_cases header : (log AuditEntry.bytes es).length + auditHeaderLen ≤ n
  · rw [verifyLoop_torn fuel _ e (by omega) torn]
    refine iff_of_true rfl ?_
    intro b boundary below
    have := last b boundary below
    omega
  · have short : (e.bytes.take (n - (log AuditEntry.bytes es).length)).length < auditHeaderLen := by
      rw [List.length_take]
      omega
    rw [verifyLoop_short fuel _ short]
    exact iff_of_false (by decide) (fun all => header (all _ member behind))

/-- A failed authentication and a shutdown, in two sessions. -/
def toyCalls : List AuditCall :=
  [.append 5 .authFail (ascii "eve"), .reopen, .append 9 .shutdown []]

/-- A cut in the payload and one in the stored hash. -/
theorem truncation_reported_toy :
    slAuditLogVerify toySha256 ((fileAfter toySha256 toyCalls).take 18) = some (-1) ∧
    slAuditLogVerify toySha256 ((fileAfter toySha256 toyCalls).take 98) = some (-1) :=
  ⟨((truncation_reported_iff toySha256).1 toyCalls 18 (by decide +kernel) (by decide +kernel)).mpr
      (by decide +kernel),
    ((truncation_reported_iff toySha256).1 toyCalls 98 (by decide +kernel) (by decide +kernel)).mpr
      (by decide +kernel)⟩

/-- One byte of the second entry is left, which no boundary ends at, and the log is verified. -/
theorem truncated_header_accepted :
    52 ∉ boundaries toySha256 toyCalls ∧ 52 ≤ (fileAfter toySha256 toyCalls).length ∧
    slAuditLogVerify toySha256 ((fileAfter toySha256 toyCalls).take 52) = some 0 := by
  decide +kernel

end SecureLink.Guarantees.AuditTruncation
