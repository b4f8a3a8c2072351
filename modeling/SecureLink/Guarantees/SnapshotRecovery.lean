import SecureLink.Guarantees.SnapshotIntegrity

/-!
# Restoring behind saves that fail

A save that fails, or is cut off by the end of the process, has touched the temporary file
only. So a restore hands over the payload of the last save that completed, and the checksum
never stands in its way.
-/
namespace SecureLink.Guarantees.SnapshotRecovery
open Library.BigEndian Library.Files Source.Store SnapshotReplacement SnapshotIntegrity

/-- The payload of the last save that completed. -/
def lastSaved (last : Option SnapshotPayload) (a : Attempt) : Option SnapshotPayload :=
  if a.how = .completes then some a.payload else last

/-- The file at the path is the snapshot of this payload, if there is one. -/
structure Holds (m : SnapshotManager) (last : Option SnapshotPayload) : Prop where
  wf : m.files.WellFormed
  path : m.files.read .path = last.map snapshotFile

variable {m : SnapshotManager} {last : Option SnapshotPayload}

theorem stopped_writing (wf : m.files.WellFormed) (a : Attempt) (done : Nat) (torn : Bytes) :
    ∃ content, Writing (m.stopped a done torn) a.who content (m.files.read .path) := by
  have opened : Writing (m.saveStep (fun _ => snapshotParts a.payload) (a.who, .openTmp)).1 a.who []
      (m.files.read .path) := writing_open wf a.who
  rcases done with _ | _ | _ | done
  · exact ⟨_, opened.fwrite torn⟩
  · exact ⟨_, (opened.fwrite _).fwrite torn⟩
  · exact ⟨_, ((opened.fwrite _).fwrite _).fwrite torn⟩
  · rw [SnapshotManager.stopped, List.take_of_length_le (Nat.le_add_left 4 done)]
    exact ⟨_, (writing_block (fun _ => True) wf a.who trivial).2.fwrite torn⟩

theorem Holds.saveNow (h : Holds m last) (a : Attempt) : Holds (m.saveNow a) (lastSaved last a) := by
  obtain ⟨who, payload, how⟩ := a
  cases how with
  | completes =>
    have settled : Settled (m.files.read .path) (fun _ => payload) _ :=
      settled_writing h.wf (Or.inr (Or.inl rfl)) who
    exact ⟨(settled.publishing who).wf, saved_file h.wf who _⟩
  | unopened => exact ⟨h.wf, h.path⟩
  | fails done torn =>
    obtain ⟨content, writing⟩ := stopped_writing h.wf _ done torn
    refine ⟨writing.wf.unlink .tmp, ?_⟩
    exact (Directory.read_unlink_other _ (by decide)).trans (writing.path.trans h.path)
  | dies done torn =>
    obtain ⟨content, writing⟩ := stopped_writing h.wf _ done torn
    exact ⟨writing.wf, writing.path.trans h.path⟩

theorem restore_snapshotFile (payload : SnapshotPayload) :
    restore (some (snapshotFile payload)) = .handed payload.1 := by
  have whole := slSnapshotLoad_snapshotFile payload (Nat.le_refl _)
  rcases Nat.eq_zero_or_pos payload.1.length with empty | filled
  · rw [empty] at whole
    rw [restore, whole]
    simp only [Option.getD_some, whole]
    rfl
  · have first : slSnapshotLoad (some (snapshotFile payload)) 0 =
        { rc := -2, outLen := some payload.1.length } := by
      rw [snapshotFile_eq]
      simp only [slSnapshotLoad, readHeader_header payload.2, if_pos filled]
    rw [restore, first]
    simp only [Option.getD_some, whole]
    rfl

/-- Whatever saves fail, a restore hands over what was saved last. -/
theorem restores_last_saved (old : Option SnapshotPayload) (stale : Option Bytes)
    (attempts : List Attempt) :
    restore ((attempts.foldl SnapshotManager.saveNow
        (start (old.map snapshotFile) stale)).files.read .path) =
      (attempts.foldl lastSaved old).elim .nothing fun payload => .handed payload.1 := by
  have holds : Holds (start (old.map snapshotFile) stale) old :=
    ⟨start_wellFormed _ _, read_start _ _⟩
  generalize start (old.map snapshotFile) stale = m at holds ⊢
  induction attempts generalizing m old with
  | nil =>
    rw [List.foldl_nil, List.foldl_nil, holds.path]
    cases old with
    | none => rfl
    | some payload => exact restore_snapshotFile payload
  | cons a rest ih => exact ih _ _ (holds.saveNow a)

end SecureLink.Guarantees.SnapshotRecovery
