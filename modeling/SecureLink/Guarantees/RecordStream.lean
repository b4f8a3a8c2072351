import SecureLink.Source.Record.Record

/-!
# Integrity of the record stream

The receiver of a sealed stream accepts a prefix of what was sent, whatever the network
does to the wires. An ideal AEAD opens exactly the sender's calls; the nonce fixes the
position of a record and the header, being the associated data, fixes its type.
-/
namespace SecureLink.Guarantees.RecordStream
open Library.BigEndian Library.Runs Source.Record

/-- The AEAD opens exactly the tuples that were sealed, and returns their plaintext. -/
def IdealOn (A : Aead) (calls : List Sealed) : Prop :=
  ∀ key nonce aad pt ct tag,
    (A.slAeadOpen key nonce aad ct tag).map Subtype.val = some pt ↔
      { key, nonce, aad, pt, ct, tag } ∈ calls

/-- Counters that are a short way ahead of the same start are equal only at the same
position. -/
theorem offset_injective {seq : UInt64} {i k : Nat} (hi : i < 2 ^ 64) (hk : k < 2 ^ 64)
    (same : seq + UInt64.ofNat i = seq + UInt64.ofNat k) : i = k := by
  have offsets := congrArg UInt64.toNat ((UInt64.add_right_inj seq).mp same)
  rwa [UInt64.toNat_ofNat_of_lt' hi, UInt64.toNat_ofNat_of_lt' hk] at offsets

theorem recordHeader_type (type ptLen : Nat) :
    ((recordHeader type ptLen).getD 0 0).toNat = type % 256 := by
  simp [recordHeader]

variable {A : Aead} {key : FixedBytes slAeadKeyLen} {staticIv : FixedBytes slAeadIvLen}

/-- What a receiver accepts at a position is the record sent at that position. -/
theorem opened_at {outCap ptCap : Nat} {seq : UInt64} {records : List SlRecord}
    (types : ∀ r ∈ records, r.type < 256) (short : records.length < 2 ^ 64)
    (ideal : IdealOn A ((sealRecords A key staticIv outCap seq records).map Prod.snd))
    {k : Nat} (hk : k ≤ records.length) {wire : Bytes} {r : SlRecord}
    (opened : slRecordOpen A key staticIv wire (seq + UInt64.ofNat k) ptCap = some r) :
    records[k]? = some r := by
  obtain ⟨ct, tag, pt, aeadOpened, rfl⟩ := slRecordOpen_some opened
  have logged := (ideal _ _ _ pt.1 ct tag).mp (by rw [aeadOpened]; rfl)
  obtain ⟨⟨sent, call⟩, member, rfl⟩ := List.mem_map.mp logged
  obtain ⟨i, r, at_i, sealed⟩ := mem_sealRecords member
  obtain ⟨nonce, aad, plaintext, _⟩ := slRecordSeal_some sealed
  have inside := (List.getElem?_eq_some_iff.mp at_i).1
  have position : k = i :=
    offset_injective (by omega) (by omega) (slNonceBuild_injective staticIv nonce)
  have type := types r (List.mem_of_getElem? at_i)
  subst position
  rw [at_i]
  simp only at aad plaintext
  rw [aad, recordHeader_type, Nat.mod_eq_of_lt type, plaintext]

/-- Over any number of wires of any content, the accepted records are a prefix of the
sent ones. The number of records is below 2^64, as it is when the counter does not wrap. -/
theorem accepted_prefix_of_sent (A : Aead) (key : FixedBytes slAeadKeyLen)
    (staticIv : FixedBytes slAeadIvLen) (outCap ptCap : Nat) (seq : UInt64)
    (records : List SlRecord) (types : ∀ r ∈ records, r.type < 256)
    (short : records.length < 2 ^ 64)
    (ideal : IdealOn A ((sealRecords A key staticIv outCap seq records).map Prod.snd))
    (wires : List Bytes) :
    openRecords A key staticIv ptCap seq wires <+: records := by
  -- the receiver's counter stands at the record it would accept next
  have kept : openRecords A key staticIv ptCap seq wires <+: records.drop 0 := by
    refine collect_prefix
      (fun counter k => k ≤ records.length ∧ counter = seq + UInt64.ofNat k) ?_ wires
      ⟨Nat.zero_le _, by simp⟩
    rintro counter k wire counter' r ⟨hk, rfl⟩ opened
    obtain ⟨r', opened, same⟩ := Option.map_eq_some_iff.mp opened
    cases same
    have item := opened_at types short ideal hk opened
    refine ⟨item, (List.getElem?_eq_some_iff.mp item).1, ?_⟩
    rw [UInt64.ofNat_add, UInt64.add_assoc]
    rfl
  simpa using kept

/-- An AEAD that leaves the plaintext as it is and opens what a given list holds. -/
def toyAead (calls : List Sealed) : Aead where
  slAeadSeal _ _ _ pt := some (⟨pt, rfl⟩, ⟨List.replicate 16 0, by decide⟩)
  slAeadOpen key nonce aad ct tag :=
    if { key, nonce, aad, pt := ct, ct, tag } ∈ calls then some ⟨ct, rfl⟩ else none

theorem toyAead_ideal {calls : List Sealed} (plain : ∀ call ∈ calls, call.pt = call.ct) :
    IdealOn (toyAead calls) calls := by
  intro key nonce aad pt ct tag
  simp only [toyAead]
  by_cases same : pt = ct
  · subst same
    split <;> simp_all
  · have absent : { key, nonce, aad, pt, ct, tag : Sealed } ∉ calls :=
      fun member => same (plain _ member)
    split <;> simp [absent, Ne.symm same]

def toyRecords : List SlRecord := [⟨22, [1, 2, 3]⟩, ⟨23, []⟩]

def toyRecordKey : FixedBytes slAeadKeyLen := ⟨List.replicate 32 1, by decide⟩

def toyStaticIv : FixedBytes slAeadIvLen := ⟨List.replicate 12 2, by decide⟩

def toySent : List (Bytes × Sealed) :=
  sealRecords (toyAead []) toyRecordKey toyStaticIv 64 7 toyRecords

/-- The wires in order are accepted, and the first one again behind them is not. -/
theorem accepted_prefix_of_sent_toy :
    openRecords (toyAead (toySent.map Prod.snd)) toyRecordKey toyStaticIv 64 7
      (toySent.map Prod.fst ++ (toySent.map Prod.fst).take 1) = toyRecords ∧
    openRecords (toyAead (toySent.map Prod.snd)) toyRecordKey toyStaticIv 64 7
      (toySent.map Prod.fst ++ (toySent.map Prod.fst).take 1) <+: toyRecords :=
  ⟨by decide +kernel, accepted_prefix_of_sent (toyAead (toySent.map Prod.snd)) toyRecordKey
    toyStaticIv 64 64 7 toyRecords (by decide) (by decide) (toyAead_ideal (by decide +kernel)) _⟩

end SecureLink.Guarantees.RecordStream
