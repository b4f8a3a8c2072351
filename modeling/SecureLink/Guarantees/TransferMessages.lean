import SecureLink.Library.Paths
import SecureLink.Source.Transfer.FileReceiver

/-!
# Messages of a file transfer

The number of chunks that metadata announce is compared with a quotient computed in 64 bits
(src/sl_file_meta.c:87-88). For a size so close to 2^64 that rounding it up wraps, the quotient
is 0, and metadata without chunks are accepted for a file of that size. Below that the numbers
agree, and the receiver cannot make a file of 2^63 bytes or more at all. Both kinds of messages
come back from their wire, and an accepted name is an entry of the destination directory, or `.`.
-/
namespace SecureLink.Guarantees.TransferMessages
open Library.BigEndian Library.Paths Source.Transfer Source.Transfer.FileReceiver

/-! ## Sizes -/

/-- As many chunks as the size needs: none for an empty file, and otherwise the last one is begun. -/
def Consistent (m : SlFileMeta) : Prop :=
  if m.totalSize = 0 then m.totalChunks = 0
  else (m.totalChunks.toNat - 1) * m.chunkSize.toNat < m.totalSize.toNat ∧
    m.totalSize.toNat ≤ m.totalChunks.toNat * m.chunkSize.toNat

instance (m : SlFileMeta) : Decidable (Consistent m) :=
  inferInstanceAs (Decidable (if m.totalSize = 0 then m.totalChunks = 0
    else (m.totalChunks.toNat - 1) * m.chunkSize.toNat < m.totalSize.toNat ∧
      m.totalSize.toNat ≤ m.totalChunks.toNat * m.chunkSize.toNat))

/-- The size can be rounded up to whole chunks within 64 bits. -/
def RoundsUp (m : SlFileMeta) : Prop := m.totalSize.toNat + m.chunkSize.toNat ≤ 2 ^ 64

instance (m : SlFileMeta) : Decidable (RoundsUp m) := inferInstanceAs (Decidable (_ ≤ _))

theorem toNat_roundUp (totalSize chunkSize : UInt64) :
    (totalSize + chunkSize - 1).toNat =
      (totalSize.toNat + chunkSize.toNat + (2 ^ 64 - 1)) % 2 ^ 64 := by
  rw [UInt64.toNat_sub, UInt64.toNat_add]
  simp
  omega

/-- The quotient rounded up is the number of chunks that just hold the size. -/
theorem ceil_bounds {size chunk : Nat} (positive : 0 < chunk) (nonempty : 0 < size) :
    ((size + chunk - 1) / chunk - 1) * chunk < size ∧ size ≤ (size + chunk - 1) / chunk * chunk := by
  have division := Nat.div_add_mod (size + chunk - 1) chunk
  have remainder := Nat.mod_lt (size + chunk - 1) positive
  rw [Nat.mul_comm] at division
  rw [Nat.sub_mul, Nat.one_mul]
  omega

theorem consistent_iff {m : SlFileMeta} (valid : slFileMetaValidate m = true) :
    Consistent m ↔ RoundsUp m := by
  obtain ⟨⟨least, most⟩, _, _, chunks⟩ := slFileMetaValidate_iff.mp valid
  have small : m.chunkSize.toNat ≤ 65536 := UInt32.le_iff_toNat_le.mp most
  have positive : 1024 ≤ m.chunkSize.toNat := UInt32.le_iff_toNat_le.mp least
  have bound := m.totalSize.toNat_lt
  unfold Consistent RoundsUp
  by_cases empty : m.totalSize = 0
  · rw [if_pos empty] at chunks ⊢
    have zero : m.totalSize.toNat = 0 := by rw [empty]; rfl
    exact iff_of_true chunks (by omega)
  · rw [if_neg empty] at chunks ⊢
    have nonempty : 0 < m.totalSize.toNat :=
      Nat.pos_of_ne_zero fun zero => empty (UInt64.toNat_inj.mp zero)
    have announced : m.totalChunks.toNat =
        (m.totalSize.toNat + m.chunkSize.toNat + (2 ^ 64 - 1)) % 2 ^ 64 / m.chunkSize.toNat := by
      have quotient := congrArg UInt64.toNat chunks
      rwa [UInt64.toNat_div, toNat_roundUp, UInt32.toNat_toUInt64, UInt32.toNat_toUInt64] at quotient
    by_cases fits : m.totalSize.toNat + m.chunkSize.toNat ≤ 2 ^ 64
    · have sum : (m.totalSize.toNat + m.chunkSize.toNat + (2 ^ 64 - 1)) % 2 ^ 64 =
          m.totalSize.toNat + m.chunkSize.toNat - 1 := by omega
      rw [sum] at announced
      rw [announced]
      exact iff_of_true (ceil_bounds (by omega) nonempty) fits
    · -- the sum wraps to less than a chunk
      have wrapped : (m.totalSize.toNat + m.chunkSize.toNat + (2 ^ 64 - 1)) % 2 ^ 64 <
          m.chunkSize.toNat := by omega
      rw [Nat.div_eq_of_lt wrapped] at announced
      rw [announced]
      exact iff_of_false (by omega) fits

/-- Metadata that begin a transfer have passed the check and fit a file offset. -/
theorem onMeta_accepted {r : FileReceiver} {wire : Bytes} {opened : Bool}
    (accepted : (r.onMeta wire opened).2 = .accepted) :
    ∃ m, slFileMetaUnpack wire = some m ∧ (r.onMeta wire opened).1.info = m ∧
      m.totalSize.toNat < 2 ^ 63 := by
  unfold onMeta at accepted ⊢
  split_ifs at accepted ⊢ with isSet
  cases unpacked : slFileMetaUnpack wire with
  | none =>
    simp only [unpacked] at accepted
    cases accepted
  | some m =>
    simp only [unpacked] at accepted ⊢
    split_ifs at accepted ⊢ with refused
    simp only [canTruncate, Bool.not_eq_true', Bool.not_eq_false, Bool.and_eq_true,
      decide_eq_true_eq] at refused
    exact ⟨m, rfl, rfl, refused.2⟩

/-- Of the metadata that pass the check, and so of those that are unpacked, exactly the ones whose
size rounds up within 64 bits are consistent. All that begin a transfer are. -/
theorem file_meta_sizes_iff (m : SlFileMeta) (r : FileReceiver) (wire : Bytes) (opened : Bool) :
    (slFileMetaValidate m = true → (Consistent m ↔ RoundsUp m)) ∧
    (slFileMetaUnpack wire = some m → (Consistent m ↔ RoundsUp m)) ∧
    ((r.onMeta wire opened).2 = .accepted → Consistent (r.onMeta wire opened).1.info) := by
  refine ⟨consistent_iff, fun unpacked => ?_, fun accepted => ?_⟩
  · exact consistent_iff (slFileMetaUnpack_some unpacked).1
  · obtain ⟨m, unpacked, info, small⟩ := onMeta_accepted accepted
    have valid := (slFileMetaUnpack_some unpacked).1
    have most := UInt32.le_iff_toNat_le.mp (slFileMetaValidate_spec valid).1.2
    have limit : slFileChunkMax.toNat = 65536 := rfl
    rw [info, consistent_iff valid, RoundsUp]
    omega

theorem three_chunks_consistent :
    slFileMetaValidate (toyMeta 2049 3) = true ∧ Consistent (toyMeta 2049 3) ∧
      slFileMetaUnpack (toyMeta 2049 3).wire = some (toyMeta 2049 3) ∧
      Consistent (FileReceiver.initial.onMeta (toyMeta 2049 3).wire true).1.info := by
  have valid : slFileMetaValidate (toyMeta 2049 3) = true := by decide +kernel
  obtain ⟨checked, -, begun⟩ :=
    file_meta_sizes_iff (toyMeta 2049 3) FileReceiver.initial (toyMeta 2049 3).wire true
  exact ⟨valid, (checked valid).mpr (by decide +kernel), by decide +kernel, begun (by decide +kernel)⟩

/-- The largest size there is, in no chunks. -/
theorem largest_size_without_chunks :
    slFileMetaValidate (toyMeta 0xFFFFFFFFFFFFFFFF 0) = true ∧
      slFileMetaUnpack (toyMeta 0xFFFFFFFFFFFFFFFF 0).wire = some (toyMeta 0xFFFFFFFFFFFFFFFF 0) ∧
      ¬ Consistent (toyMeta 0xFFFFFFFFFFFFFFFF 0) := by
  decide +kernel

/-! ## Names -/

/-- What every accepted name is. -/
structure SafeName (name : Bytes) : Prop where
  nonempty : name ≠ []
  chars : ∀ c ∈ name, c ≠ 0x2F ∧ c ≠ 0x5C ∧ 0x20 ≤ c
  noDots : ¬ [dot, dot] <+: name

theorem safeName_of_accepted {bytes : Bytes} {m : SlFileMeta}
    (accepted : slFileMetaUnpack bytes = some m) : SafeName m.name := by
  obtain ⟨valid, length⟩ := slFileMetaUnpack_some accepted
  obtain ⟨_, ⟨some_name, _⟩, ok, _⟩ := slFileMetaValidate_iff.mp valid
  rw [← length, List.take_length, nameOk_iff] at ok
  refine ⟨?_, ok.1, ok.2⟩
  intro empty
  rw [empty] at length
  exact some_name (UInt16.toNat_inj.mp length.symm)

/-- The name ends at the terminator and nowhere before. -/
structure Terminated (array : Bytes) (len : Nat) (name : Bytes) : Prop where
  size : array.length = slFileNameMax + 1
  terminated : array[len]? = some 0
  before : array.take len = name
  inside : (0 : UInt8) ∉ name

theorem terminated_of_accepted {bytes : Bytes} {m : SlFileMeta}
    (accepted : slFileMetaUnpack bytes = some m) :
    Terminated (nameArray m.name) m.nameLen.toNat m.name := by
  obtain ⟨valid, length⟩ := slFileMetaUnpack_some accepted
  have fits := (slFileMetaValidate_spec valid).2
  have safe := safeName_of_accepted accepted
  have nonempty : m.name.isEmpty = false := List.isEmpty_eq_false_iff.mpr safe.nonempty
  have array : nameArray m.name =
      (m.name ++ List.replicate (slFileNameMax + 1 - m.name.length) 0).set m.name.length 0 := by
    simp [nameArray, SecureLink.Library.Files.writeAt, nonempty]
  have room : m.name.length < slFileNameMax + 1 := by omega
  rw [array, ← length]
  refine ⟨?_, ?_, ?_, ?_⟩
  · rw [List.length_set, List.length_append, List.length_replicate]
    omega
  · rw [List.getElem?_set_self]
    rw [List.length_append, List.length_replicate]
    omega
  · rw [List.take_set, List.take_left]
    exact List.set_eq_of_length_le (Nat.le_refl _)
  · intro zero
    exact absurd (safe.chars 0 zero).2.2 (by decide)

/-- The tree that paths are followed through, with the characters of this system. -/
def Posix {ν : Type} (t : Tree UInt8 ν) : Prop := t.sep = 0x2F ∧ t.dot = dot

/-- Wherever paths lead, the destination path is the entry with the name in the directory, or, for
the name `.`, that directory itself. -/
structure StaysInside (destDir : Bytes) (m : SlFileMeta) : Prop where
  whole : (0 : UInt8) ∉ destDir → (0 : UInt8) ∉ destPath destDir m
  located : ∀ {ν : Type} (t : Tree UInt8 ν) (cwd : ν), Posix t →
    t.locate cwd (destPath destDir m) = (t.resolve cwd (destDir ++ [t.sep])).map (·, m.name)
  directory : ∀ {ν : Type} (t : Tree UInt8 ν) (cwd : ν), Posix t → destDir ≠ [] →
    t.resolve cwd (destDir ++ [t.sep]) = t.resolve cwd destDir
  entry : ∀ {ν : Type} (t : Tree UInt8 ν) (d : ν), Posix t →
    t.enter d m.name = if m.name = [t.dot] then some d else t.entry d m.name

theorem staysInside_of_safe {m : SlFileMeta} (safe : SafeName m.name) (destDir : Bytes) :
    StaysInside destDir m where
  whole noNul zero := by
    rcases List.mem_append.mp zero with inDir | behind
    · exact noNul inDir
    · rcases List.mem_cons.mp behind with separator | inName
      · exact absurd separator (by decide)
      · exact absurd (safe.chars 0 inName).2.2 (by decide)
  located t cwd posix := by
    have separator : t.sep ∉ m.name := by
      rw [posix.1]
      exact fun member => (safe.chars _ member).1 rfl
    rw [destPath, ← posix.1]
    exact Tree.locate_child cwd destDir safe.nonempty separator
  directory t cwd posix nonempty := Tree.resolve_append_sep cwd nonempty
  entry t d posix := by
    have notParent : m.name ≠ [t.dot, t.dot] := by
      intro dots
      have name : m.name = [dot, dot] := by rw [dots, posix.2]
      exact safe.noDots (name ▸ List.prefix_rfl)
    rw [Tree.enter, if_neg notParent]

/-- Metadata and chunks come back from their wire, whatever follows it, and whatever metadata are
accepted, their name is safe, terminated where it says, and stays in the destination directory. -/
theorem transfer_messages_inverse :
    (∀ m outCap, slFileMetaValidate m = true → m.nameLen.toNat ≤ m.name.length →
      slFileMetaFixedLen + m.nameLen.toNat ≤ outCap →
      ∃ wire, slFileMetaPack m outCap = some wire ∧
        ∀ rest, slFileMetaUnpack (wire ++ rest) =
          some { m with name := m.name.take m.nameLen.toNat }) ∧
    (∀ c outCap, c.dataLen ≤ slFileChunkMax → c.dataLen.toNat ≤ c.data.length →
      slFileChunkHeaderLen + c.dataLen.toNat ≤ outCap →
      ∃ wire, slFileChunkPack c outCap = some wire ∧
        ∀ rest, ∃ c', slFileChunkUnpack (wire ++ rest) = some c' ∧ c'.chunkIndex = c.chunkIndex ∧
          c'.flags = c.flags ∧ c'.dataLen = c.dataLen ∧ c'.data = c.data.take c.dataLen.toNat ∧
          slFileChunkCrcOk c' = true) ∧
    ∀ bytes m, slFileMetaUnpack bytes = some m →
      SafeName m.name ∧ Terminated (nameArray m.name) m.nameLen.toNat m.name ∧
        ∀ destDir, StaysInside destDir m := by
  refine ⟨?_, ?_, ?_⟩
  · intro m outCap valid held room
    exact ⟨m.wire, slFileMetaPack_eq valid room, slFileMetaUnpack_wire valid held⟩
  · intro c outCap fits held room
    refine ⟨c.wire, slFileChunkPack_eq held room, fun rest => ⟨_, slFileChunkUnpack_wire held fits rest,
      rfl, rfl, rfl, rfl, slFileChunkCrcOk_wire c⟩⟩
  · intro bytes m accepted
    have safe := safeName_of_accepted accepted
    exact ⟨safe, terminated_of_accepted accepted, staysInside_of_safe safe⟩

end SecureLink.Guarantees.TransferMessages
