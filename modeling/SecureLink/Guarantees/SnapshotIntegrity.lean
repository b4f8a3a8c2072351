import SecureLink.Guarantees.SnapshotReplacement
import SecureLink.Source.Store.Checksum

/-!
# Integrity of a snapshot file

A saved snapshot loads back. The length in the header makes every shorter file incomplete,
and the checksum over header and payload (src/sl_snapshot.c:105-113) shows every change of up
to four payload bytes in a row and every change of the checksum itself.
-/
namespace SecureLink.Guarantees.SnapshotIntegrity
open Library.BigEndian Library.Files Library.Runs Source.Store Source.Wire SnapshotReplacement

/-- Another file of the same length that is the same but for `len` bytes from `start` on. -/
structure ChangedWithin (file changed : Bytes) (start len : Nat) : Prop where
  differs : changed ≠ file
  length : changed.length = file.length
  before : changed.take start = file.take start
  after : changed.drop (start + len) = file.drop (start + len)

/-- What a load into a large enough buffer makes of a snapshot's file and of damaged ones. -/
structure Integrity (payload file : Bytes) (bufCap : Nat) : Prop where
  loads : slSnapshotLoad (some file) bufCap =
    { rc := 0, outLen := some payload.length, buf := payload }
  truncated : ∀ cut, cut <+: file → cut ≠ file → (slSnapshotLoad (some cut) bufCap).rc = -1
  payloadBurst : ∀ changed start len, len ≤ 4 → snapshotHeaderLen ≤ start →
    start + len ≤ snapshotHeaderLen + payload.length → ChangedWithin file changed start len →
    (slSnapshotLoad (some changed) bufCap).rc = -1
  crcField : ∀ changed, ChangedWithin file changed (snapshotHeaderLen + payload.length) snapshotCrcLen →
    (slSnapshotLoad (some changed) bufCap).rc = -1

theorem ChangedWithin.middle {front middle back changed : Bytes}
    (h : ChangedWithin (front ++ (middle ++ back)) changed front.length middle.length) :
    ∃ other, changed = front ++ (other ++ back) ∧ other.length = middle.length ∧ other ≠ middle := by
  have start : changed.take front.length = front := h.before.trans List.take_left
  have rest : changed.drop (front.length + middle.length) = back := by
    rw [h.after, ← List.drop_drop, List.drop_left, List.drop_left]
  have parts : changed = front ++ ((changed.drop front.length).take middle.length ++ back) := by
    calc changed
        = changed.take front.length ++ changed.drop front.length :=
          (List.take_append_drop _ _).symm
      _ = front ++ ((changed.drop front.length).take middle.length ++
            (changed.drop front.length).drop middle.length) := by
          rw [start, List.take_append_drop]
      _ = front ++ ((changed.drop front.length).take middle.length ++ back) := by
          rw [List.drop_drop, rest]
  refine ⟨(changed.drop front.length).take middle.length, parts, ?_, ?_⟩
  · have lengths := h.length
    rw [parts] at lengths
    simp only [List.length_append] at lengths
    omega
  · intro same
    rw [same] at parts
    exact h.differs parts

/-- A save on its own leaves the complete file at the path. -/
theorem saved_file {m : SnapshotManager} (wf : m.files.WellFormed) (who : Saver)
    (parts : Saver → SnapshotParts) :
    (run (SnapshotManager.saveStep parts) m (saveSteps who)).files.read .path =
      some (parts who).whole := by
  have written : Writing (run (SnapshotManager.saveStep parts) m (writingSteps who)) who
      (parts who).whole (m.files.read .path) := (writing_block (fun _ => True) wf who trivial).2
  have tmp := written.read_tmp
  rw [saveSteps, run_append]
  generalize run (SnapshotManager.saveStep parts) m (writingSteps who) = m at tmp ⊢
  simp only [run_cons, run_nil, SnapshotManager.saveStep]
  cases renamed : m.files.rename .tmp .path with
  | none =>
    rw [Directory.rename_eq_none.mp renamed] at tmp
    cases tmp
  | some files =>
    simp only [SnapshotManager.files_account]
    rw [(Directory.rename_some (by decide) renamed).1, tmp]

section Load
variable {payload stored : Bytes} (small : payload.length < 2 ^ 64)
  (width : stored.length = snapshotCrcLen) {bufCap : Nat} (room : payload.length ≤ bufCap)
include small width room

/-- A file cut anywhere lacks bytes that its header announces. -/
theorem slSnapshotLoad_cut {n : Nat}
    (cut : n < (snapshotHeader payload.length ++ (payload ++ stored)).length) :
    (slSnapshotLoad (some ((snapshotHeader payload.length ++ (payload ++ stored)).take n))
      bufCap).rc = -1 := by
  simp only [List.length_append, length_snapshotHeader, width] at cut
  by_cases inHeader : n < snapshotHeaderLen
  · have unread : readHeader ((snapshotHeader payload.length ++ (payload ++ stored)).take n) = none := by
      have length : (((snapshotHeader payload.length ++ (payload ++ stored)).take n).take
          snapshotHeaderLen).length ≠ snapshotHeaderLen := by
        simp only [List.length_take]
        omega
      simp only [readHeader, if_pos length]
    simp only [slSnapshotLoad, unread]
  · obtain ⟨k, rfl⟩ := Nat.exists_eq_add_of_le (Nat.not_lt.mp inHeader)
    have parts : (snapshotHeader payload.length ++ (payload ++ stored)).take (snapshotHeaderLen + k) =
        snapshotHeader payload.length ++ (payload ++ stored).take k := by
      rw [← length_snapshotHeader payload.length, List.take_length_add_append]
    have behind : (snapshotHeader payload.length ++ (payload ++ stored).take k).drop
        snapshotHeaderLen = (payload ++ stored).take k := List.drop_left' (length_snapshotHeader _)
    rw [parts]
    simp only [slSnapshotLoad, readHeader_header small, if_neg (Nat.not_lt.mpr room),
      ← List.drop_drop, behind]
    by_cases inPayload : k < payload.length
    · rw [if_pos]
      simp only [List.length_take, List.length_append]
      omega
    · rw [if_neg, if_pos]
      · simp only [List.length_take, List.length_drop, List.length_append, width]
        omega
      · simp only [List.length_take, List.length_append]
        omega

theorem slSnapshotLoad_wrong_crc
    (wrong : unpackU32 stored ≠ snapshotCrc (snapshotHeader payload.length) payload) :
    (slSnapshotLoad (some (snapshotHeader payload.length ++ (payload ++ stored))) bufCap).rc = -1 := by
  rw [slSnapshotLoad_framed small width room]
  exact if_neg wrong

end Load

theorem snapshotCrc_detects {header before first second after : Bytes}
    (length : first.length = second.length) (short : first.length ≤ 4)
    (same : snapshotCrc header (before ++ (first ++ after)) =
      snapshotCrc header (before ++ (second ++ after))) : first = second :=
  slCrc32cUpdate_detects length short ((UInt32.xor_left_inj _).mp same)

theorem unpackU32_packed (v : UInt32) : unpackU32 (packU32 v) = v := unpackU32_pack v []

theorem unpackU32_injective {first second : Bytes} (length : first.length = 4)
    (length' : second.length = 4) (same : unpackU32 first = unpackU32 second) : first = second := by
  have packed := congrArg packU32 same
  rwa [packU32_unpack (Nat.le_of_eq length.symm), packU32_unpack (Nat.le_of_eq length'.symm),
    List.take_of_length_le (Nat.le_of_eq length),
    List.take_of_length_le (Nat.le_of_eq length')] at packed

section Damaged
variable (payload : SnapshotPayload) {bufCap : Nat} (room : payload.1.length ≤ bufCap)
include room

theorem truncated_refused {cut : Bytes} (isPrefix : cut <+: snapshotFile payload)
    (differs : cut ≠ snapshotFile payload) : (slSnapshotLoad (some cut) bufCap).rc = -1 := by
  have shorter : cut.length < (snapshotFile payload).length := by
    apply Nat.lt_of_le_of_ne isPrefix.length_le
    intro same
    exact differs (isPrefix.eq_of_length same)
  rw [List.prefix_iff_eq_take.mp isPrefix]
  rw [snapshotFile_eq] at shorter ⊢
  exact slSnapshotLoad_cut payload.2 (length_packU32 _) room shorter

theorem burst_refused {changed : Bytes} {start len : Nat} (short : len ≤ 4)
    (inPayload : snapshotHeaderLen ≤ start)
    (inside : start + len ≤ snapshotHeaderLen + payload.1.length)
    (h : ChangedWithin (snapshotFile payload) changed start len) :
    (slSnapshotLoad (some changed) bufCap).rc = -1 := by
  obtain ⟨payload, small⟩ := payload
  dsimp only at room inside
  obtain ⟨s, rfl⟩ := Nat.exists_eq_add_of_le inPayload
  -- the payload around the changed bytes
  obtain ⟨before, middle, after, rfl, atStart, size⟩ : ∃ before middle after,
      payload = before ++ (middle ++ after) ∧ before.length = s ∧ middle.length = len := by
    refine ⟨payload.take s, (payload.drop s).take len, payload.drop (s + len), ?_, ?_, ?_⟩
    · rw [← List.drop_drop, List.take_append_drop, List.take_append_drop]
    · rw [List.length_take]
      omega
    · rw [List.length_take, List.length_drop]
      omega
  have file : snapshotFile ⟨before ++ (middle ++ after), small⟩ =
      (snapshotHeader (before ++ (middle ++ after)).length ++ before) ++ (middle ++ (after ++
        packU32 (snapshotCrc (snapshotHeader (before ++ (middle ++ after)).length)
          (before ++ (middle ++ after))))) := by
    rw [snapshotFile_eq]
    simp only [List.append_assoc]
  have place : snapshotHeaderLen + s =
      (snapshotHeader (before ++ (middle ++ after)).length ++ before).length := by
    rw [List.length_append, length_snapshotHeader, atStart]
  rw [file, place, ← size] at h
  obtain ⟨other, rfl, sameSize, differs⟩ := h.middle
  have total : (before ++ (middle ++ after)).length = (before ++ (other ++ after)).length := by
    simp only [List.length_append, sameSize]
  rw [total] at small room ⊢
  have shape : snapshotHeader (before ++ (other ++ after)).length ++ before ++ (other ++ (after ++
      packU32 (snapshotCrc (snapshotHeader (before ++ (other ++ after)).length)
        (before ++ (middle ++ after))))) =
      snapshotHeader (before ++ (other ++ after)).length ++ ((before ++ (other ++ after)) ++
        packU32 (snapshotCrc (snapshotHeader (before ++ (other ++ after)).length)
          (before ++ (middle ++ after)))) := by
    simp only [List.append_assoc]
  rw [shape]
  apply slSnapshotLoad_wrong_crc small (length_packU32 _) room
  rw [unpackU32_packed]
  intro same
  exact differs (snapshotCrc_detects sameSize.symm (by omega) same).symm

theorem crc_change_refused {changed : Bytes}
    (h : ChangedWithin (snapshotFile payload) changed (snapshotHeaderLen + payload.1.length)
      snapshotCrcLen) : (slSnapshotLoad (some changed) bufCap).rc = -1 := by
  have file : snapshotFile payload = (snapshotHeader payload.1.length ++ payload.1) ++
      (packU32 (snapshotCrc (snapshotHeader payload.1.length) payload.1) ++ []) := by
    rw [snapshotFile_eq, List.append_nil, List.append_assoc]
  have place : snapshotHeaderLen + payload.1.length =
      (snapshotHeader payload.1.length ++ payload.1).length := by
    rw [List.length_append, length_snapshotHeader]
  rw [file, place] at h
  obtain ⟨other, rfl, size, differs⟩ := ChangedWithin.middle h
  rw [List.append_nil, List.append_assoc]
  apply slSnapshotLoad_wrong_crc payload.2 size room
  intro same
  apply differs
  apply unpackU32_injective size (length_packU32 _)
  rw [same, unpackU32_packed]

end Damaged

/-- A save leaves a file at the path that loads back as the payload into every buffer that is
large enough; cut short, changed in up to four payload bytes in a row or changed in the
checksum, it is refused. -/
theorem saved_snapshot_integrity (m : SnapshotManager) (wf : m.files.WellFormed) (who : Saver)
    (payload : Saver → SnapshotPayload) (bufCap : Nat) (room : (payload who).1.length ≤ bufCap) :
    ∃ file,
      (run (SnapshotManager.saveStep fun who => snapshotParts (payload who)) m
        (saveSteps who)).files.read .path = some file ∧
      Integrity (payload who).1 file bufCap :=
  ⟨snapshotFile (payload who), saved_file wf who _, slSnapshotLoad_snapshotFile (payload who) room,
    fun _ isPrefix differs => truncated_refused (payload who) room isPrefix differs,
    fun _ _ _ short inPayload inside h => burst_refused (payload who) room short inPayload inside h,
    fun _ h => crc_change_refused (payload who) room h⟩

/-- Over an old snapshot, with a temporary file left behind. -/
theorem saved_snapshot_integrity_sample :
    ∃ file,
      (run (SnapshotManager.saveStep fun who => snapshotParts (unevenPayloads .direct who))
        (start (some [1, 2]) (some [3])) (saveSteps .direct)).files.read .path = some file ∧
      Integrity [2, 3] file 2 :=
  saved_snapshot_integrity (start (some [1, 2]) (some [3])) (start_wellFormed _ _) .direct
    (unevenPayloads .direct) 2 (by decide)

end SecureLink.Guarantees.SnapshotIntegrity
