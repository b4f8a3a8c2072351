import SecureLink.Source.Store.Snapshot

/-!
# Two saves of one snapshot file

Both saves write through the same temporary name, and the manager takes no lock around
them. Whichever opens the file second empties it under the other, and a rename publishes
whatever the file holds at that moment. The file at the path is never seen half-written
exactly if neither save takes a step between the open and the last write of the other.
-/
namespace SecureLink.Guarantees.SnapshotReplacement
open Library.BigEndian Library.Files Library.Runs Source.Store

/-- The files before the saves: an old snapshot, and a temporary file left behind earlier. -/
def start (old stale : Option Bytes) : SnapshotManager where
  files :=
    { inode := fun
        | .path => old.map fun _ => 0
        | .tmp => stale.map fun _ => 1
      contents := fun i => if i = 0 then old.getD [] else stale.getD []
      fresh := 2 }

/-- A snapshot file that loads, or none. -/
def ValidOrMissing (old : Option Bytes) : Prop :=
  ∀ file, old = some file → ∃ bufCap, (slSnapshotLoad old bufCap).rc = 0

/-- What a reader of the path may see: nothing, the old file, or the complete file of one of
the two payloads, which loads. -/
def Acceptable (old : Option Bytes) (payload : Saver → SnapshotPayload) (seen : Option Bytes) : Prop :=
  seen = none ∨ seen = old ∨ ∃ who, seen = some (snapshotFile (payload who)) ∧
    slSnapshotLoad seen (payload who).1.length =
      { rc := 0, outLen := some (payload who).1.length, buf := (payload who).1 }

/-- After every step of the schedule the file at the path is acceptable. -/
def NeverTorn (old stale : Option Bytes) (payload : Saver → SnapshotPayload)
    (schedule : List (Saver × SaveStep)) : Prop :=
  AllSteps (SnapshotManager.saveStep fun who => snapshotParts (payload who))
    (fun m op => Acceptable old payload
      (((m.saveStep fun who => snapshotParts (payload who)) op).1.files.read .path))
    (start old stale) schedule

/-- The two parts of a save that are to run without a step of the other in between. -/
inductive SaveBlock where
  | writing (who : Saver)
  | publishing (who : Saver)
  deriving DecidableEq

def SaveBlock.steps : SaveBlock → List (Saver × SaveStep)
  | .writing who => writingSteps who
  | .publishing who => [(who, .renameTmp)]

def saveBlocks (who : Saver) : List SaveBlock := [.writing who, .publishing who]

/-- No step of one save falls between the open and the last write of the other. -/
def Uninterrupted (schedule : List (Saver × SaveStep)) : Prop :=
  ∃ blocks, Interleaves (saveBlocks .background) (saveBlocks .direct) blocks ∧
    schedule = blocks.flatMap SaveBlock.steps

section Writing

variable {parts : Saver → SnapshotParts}

/-- A save in its writing part, alone with its file: what is written so far and where. -/
structure Writing (m : SnapshotManager) (who : Saver) (content : Bytes) (seen : Option Bytes) :
    Prop where
  wf : m.files.WellFormed
  file : ∃ i, m.files.inode .tmp = some i ∧ m.files.contents i = content ∧
    m.fp who = some { inode := i, off := content.length }
  path : m.files.read .path = seen

theorem writing_open {m : SnapshotManager} (wf : m.files.WellFormed) (who : Saver) :
    Writing (m.saveStep parts (who, .openTmp)).1 who [] (m.files.read .path) where
  wf := wf.openTruncate .tmp
  file := ⟨(m.files.openTruncate .tmp).2, m.files.inode_openTruncate .tmp,
    m.files.contents_openTruncate .tmp, Function.update_self ..⟩
  path := Directory.read_openTruncate_other wf (by decide)

theorem Writing.fwrite {m : SnapshotManager} {who : Saver} {content : Bytes} {seen : Option Bytes}
    (h : Writing m who content seen) (data : Bytes) :
    Writing (m.fwrite who data) who (content ++ data) seen := by
  obtain ⟨wf, ⟨i, named, written, fp⟩, path⟩ := h
  simp only [SnapshotManager.fwrite, fp]
  refine ⟨wf.write _ _ _, ⟨i, named, ?_, ?_⟩, ?_⟩
  · simp only [Directory.write, Function.update_self, written, writeAt_length]
  · simp only [Function.update_self, List.length_append]
  · exact (Directory.read_write_other wf named (by decide) _ _).trans path

theorem Writing.read_tmp {m : SnapshotManager} {who : Saver} {content : Bytes} {seen : Option Bytes}
    (h : Writing m who content seen) : m.files.read .tmp = some content := by
  obtain ⟨i, named, written, _⟩ := h.file
  rw [Directory.read, named, Option.map_some, written]

/-- The writing part of a save leaves the path alone and ends with the complete file under
the temporary name. -/
theorem writing_block (good : Option Bytes → Prop) {m : SnapshotManager} (wf : m.files.WellFormed)
    (who : Saver) (before : good (m.files.read .path)) :
    AllSteps (SnapshotManager.saveStep parts)
      (fun m op => good ((m.saveStep parts op).1.files.read .path)) m (writingSteps who) ∧
    Writing (run (SnapshotManager.saveStep parts) m (writingSteps who)) who (parts who).whole
      (m.files.read .path) := by
  have opened : Writing (m.saveStep parts (who, .openTmp)).1 who [] (m.files.read .path) :=
    writing_open wf who
  have header := opened.fwrite (parts who).header
  have payload := header.fwrite (parts who).payload
  have crc := payload.fwrite (parts who).crc
  have seen : ∀ {m' : SnapshotManager} {content : Bytes},
      Writing m' who content (m.files.read .path) → good (m'.files.read .path) :=
    fun h => h.path.symm ▸ before
  rw [List.nil_append] at crc
  exact ⟨⟨seen opened, seen header, seen payload, seen crc, trivial⟩, crc⟩

end Writing

section Blocks

variable {old : Option Bytes} {payload : Saver → SnapshotPayload}

theorem acceptable_file (who : Saver) : Acceptable old payload (some (snapshotFile (payload who))) :=
  Or.inr (Or.inr ⟨who, rfl, slSnapshotLoad_snapshotFile (payload who) (Nat.le_refl _)⟩)

/-- Between two blocks, once something was written: the temporary file is complete or gone. -/
structure Settled (old : Option Bytes) (payload : Saver → SnapshotPayload) (m : SnapshotManager) :
    Prop where
  wf : m.files.WellFormed
  path : Acceptable old payload (m.files.read .path)
  tmp : m.files.read .tmp = none ∨ ∃ who, m.files.read .tmp = some (snapshotFile (payload who))

theorem settled_writing {m : SnapshotManager} (wf : m.files.WellFormed)
    (path : Acceptable old payload (m.files.read .path)) (who : Saver) :
    Settled old payload
      (run (SnapshotManager.saveStep fun who => snapshotParts (payload who)) m (writingSteps who)) := by
  have written : Writing (run (SnapshotManager.saveStep fun who => snapshotParts (payload who)) m
      (writingSteps who)) who (snapshotFile (payload who)) (m.files.read .path) :=
    (writing_block (Acceptable old payload) wf who path).2
  exact ⟨written.wf, written.path.symm ▸ path, Or.inr ⟨who, written.read_tmp⟩⟩

theorem Settled.publishing {m : SnapshotManager} (h : Settled old payload m) (who : Saver) :
    Settled old payload
      ((m.saveStep fun who => snapshotParts (payload who)) (who, .renameTmp)).1 := by
  simp only [SnapshotManager.saveStep]
  cases renamed : m.files.rename .tmp .path with
  | none =>
    have missing := Directory.rename_eq_none.mp renamed
    refine ⟨?_, ?_, ?_⟩
    all_goals simp only [SnapshotManager.files_account]
    · exact h.wf.unlink .tmp
    · rw [Directory.read_unlink_other _ (by decide)]
      exact h.path
    · exact Or.inl (Directory.read_unlink_self _ _)
  | some files =>
    obtain ⟨moved, gone⟩ := Directory.rename_some (by decide) renamed
    refine ⟨?_, ?_, ?_⟩
    all_goals simp only [SnapshotManager.files_account]
    · exact h.wf.rename renamed
    · rw [moved]
      rcases h.tmp with absent | ⟨author, file⟩
      · rw [absent]
        exact Or.inl rfl
      · rw [file]
        exact acceptable_file author
    · exact Or.inl gone

/-- From then on any order of blocks keeps the file at the path acceptable. -/
theorem Settled.blocks {m : SnapshotManager} (h : Settled old payload m) (blocks : List SaveBlock) :
    AllSteps (SnapshotManager.saveStep fun who => snapshotParts (payload who))
      (fun m op => Acceptable old payload
        (((m.saveStep fun who => snapshotParts (payload who)) op).1.files.read .path))
      m (blocks.flatMap SaveBlock.steps) := by
  induction blocks generalizing m with
  | nil => trivial
  | cons block rest ih =>
    rw [List.flatMap_cons, allSteps_append]
    cases block with
    | writing who =>
      exact ⟨(writing_block (Acceptable old payload) h.wf who h.path).1,
        ih (settled_writing h.wf h.path who)⟩
    | publishing who => exact ⟨⟨(h.publishing who).path, trivial⟩, ih (h.publishing who)⟩

theorem start_wellFormed (old stale : Option Bytes) : (start old stale).files.WellFormed := by
  have values : ∀ name i, (start old stale).files.inode name = some i →
      name = .path ∧ i = 0 ∨ name = .tmp ∧ i = 1 := by
    intro name i h
    cases name with
    | path =>
      obtain ⟨_, _, rfl⟩ := Option.map_eq_some_iff.mp h
      exact Or.inl ⟨rfl, rfl⟩
    | tmp =>
      obtain ⟨_, _, rfl⟩ := Option.map_eq_some_iff.mp h
      exact Or.inr ⟨rfl, rfl⟩
  refine ⟨fun name i h => ?_, fun name name' i h h' => ?_⟩
  · rcases values name i h with ⟨_, rfl⟩ | ⟨_, rfl⟩
    · exact Nat.zero_lt_two
    · exact Nat.one_lt_two
  · rcases values name i h with ⟨rfl, rfl⟩ | ⟨rfl, rfl⟩ <;>
      rcases values name' _ h' with ⟨rfl, same⟩ | ⟨rfl, same⟩ <;> first | rfl | cases same

theorem read_start (old stale : Option Bytes) : (start old stale).files.read .path = old := by
  cases old <;> rfl

/-- A save starts with its writing part. -/
theorem first_block {blocks : List SaveBlock}
    (h : Interleaves (saveBlocks .background) (saveBlocks .direct) blocks) :
    ∃ who rest, blocks = .writing who :: rest := by
  cases h with
  | left _ => exact ⟨_, _, rfl⟩
  | right _ => exact ⟨_, _, rfl⟩

theorem neverTorn_of_uninterrupted {schedule : List (Saver × SaveStep)}
    (uninterrupted : Uninterrupted schedule) (old stale : Option Bytes)
    (payload : Saver → SnapshotPayload) : NeverTorn old stale payload schedule := by
  obtain ⟨blocks, interleaved, rfl⟩ := uninterrupted
  obtain ⟨who, rest, rfl⟩ := first_block interleaved
  have wf := start_wellFormed old stale
  have path : Acceptable old payload ((start old stale).files.read .path) :=
    Or.inr (Or.inl (read_start old stale))
  rw [NeverTorn, List.flatMap_cons, allSteps_append]
  exact ⟨(writing_block (Acceptable old payload) wf who path).1, (settled_writing wf path who).blocks rest⟩

end Blocks

/-- Payloads of different lengths, the longer one with the given saver. -/
def unevenPayloads (longer who : Saver) : SnapshotPayload :=
  if who = longer then ⟨[2, 3], by decide⟩ else ⟨[1], by decide⟩

/-- The parts of those payloads, with their checksums worked out. -/
def unevenParts (longer who : Saver) : SnapshotParts :=
  if who = longer then
    { header := [83, 76, 83, 83, 0, 0, 0, 1, 0, 0, 0, 0, 0, 0, 0, 2]
      payload := [2, 3]
      crc := [32, 33, 75, 208] }
  else
    { header := [83, 76, 83, 83, 0, 0, 0, 1, 0, 0, 0, 0, 0, 0, 0, 1]
      payload := [1]
      crc := [237, 207, 76, 13] }

theorem unevenParts_eq (longer : Saver) :
    (fun who => snapshotParts (unevenPayloads longer who)) = unevenParts longer := by
  funext who
  cases longer <;> cases who <;> decide +kernel

/-- In every other schedule a reader can see a file that is neither missing nor complete. -/
theorem interrupted_tears : ∀ schedule ∈ interleavings (saveSteps .background) (saveSteps .direct),
    schedule ∈ (interleavings (saveBlocks .background) (saveBlocks .direct)).map
      (List.flatMap SaveBlock.steps) ∨
    ∃ longer ∈ [Saver.background, Saver.direct],
      ¬ AllSteps (SnapshotManager.saveStep (unevenParts longer))
        (fun m op => (m.saveStep (unevenParts longer) op).1.files.read .path ∈
          [none, some (unevenParts longer .background).whole, some (unevenParts longer .direct).whole])
        (start none none) schedule := by
  decide +kernel

theorem uninterrupted_of_mem {schedule : List (Saver × SaveStep)}
    (member : schedule ∈ (interleavings (saveBlocks .background) (saveBlocks .direct)).map
      (List.flatMap SaveBlock.steps)) : Uninterrupted schedule := by
  obtain ⟨blocks, block, rfl⟩ := List.mem_map.mp member
  exact ⟨blocks, mem_interleavings.mp block, rfl⟩

/-- An acceptable file, from no old snapshot, is missing or complete. -/
theorem acceptable_uneven {longer : Saver} {seen : Option Bytes}
    (h : Acceptable none (unevenPayloads longer) seen) :
    seen ∈ [none, some (unevenParts longer .background).whole,
      some (unevenParts longer .direct).whole] := by
  have file : ∀ who, snapshotFile (unevenPayloads longer who) = (unevenParts longer who).whole :=
    fun who => congrArg SnapshotParts.whole (congrFun (unevenParts_eq longer) who)
  rcases h with missing | missing | ⟨who, complete, _⟩
  · simp [missing]
  · simp [missing]
  · rw [complete, file]
    cases who <;> simp

/-- For a schedule of two saves: whatever the payloads, the old snapshot and a leftover
temporary file are, a reader of the path sees nothing half-written after any step, exactly if
the writing part of neither save is interrupted by a step of the other. -/
theorem two_saves_never_torn_iff (schedule : List (Saver × SaveStep))
    (interleaved : Interleaves (saveSteps .background) (saveSteps .direct) schedule) :
    (∀ old stale payload, ValidOrMissing old → NeverTorn old stale payload schedule) ↔
      Uninterrupted schedule := by
  constructor
  · intro never
    rcases interrupted_tears schedule (mem_interleavings.mpr interleaved) with
      member | ⟨longer, _, torn⟩
    · exact uninterrupted_of_mem member
    · have intact : NeverTorn none none (unevenPayloads longer) schedule :=
        never none none (unevenPayloads longer) (fun _ h => absurd h (by simp))
      rw [NeverTorn, unevenParts_eq] at intact
      exact absurd (intact.mono fun m op h => acceptable_uneven h) torn
  · intro uninterrupted old stale payload _
    exact neverTorn_of_uninterrupted uninterrupted old stale payload

/-- The second save writes after the first, and the first one's rename publishes its file. -/
theorem two_saves_one_after_the_other :
    NeverTorn none none (unevenPayloads .direct)
      (writingSteps .background ++ (writingSteps .direct ++
        [(.background, .renameTmp), (.direct, .renameTmp)])) :=
  (two_saves_never_torn_iff _ (mem_interleavings.mp (by decide +kernel))).mpr
    (uninterrupted_of_mem (by decide +kernel)) none none (unevenPayloads .direct)
    fun _ found => absurd found (by simp)

/-- A direct call opens the temporary file when the background save is about to rename it:
the path is left with an empty file, which does not load. -/
theorem rename_publishes_emptied_file :
    Interleaves (saveSteps .background) (saveSteps .direct)
      (writingSteps .background ++ [(.direct, .openTmp), (.background, .renameTmp),
        (.direct, .writeHeader), (.direct, .writePayload), (.direct, .writeCrc),
        (.direct, .renameTmp)]) ∧
    (run (SnapshotManager.saveStep fun who => snapshotParts (unevenPayloads .direct who))
      (start none none) (writingSteps .background ++ [(.direct, .openTmp),
        (.background, .renameTmp)])).files.read .path = some [] ∧
    (slSnapshotLoad (some []) 0).rc = -1 ∧
    ¬ NeverTorn none none (unevenPayloads .direct)
      (writingSteps .background ++ [(.direct, .openTmp), (.background, .renameTmp),
        (.direct, .writeHeader), (.direct, .writePayload), (.direct, .writeCrc),
        (.direct, .renameTmp)]) := by
  refine ⟨mem_interleavings.mp (by decide +kernel), by decide +kernel, rfl, fun never => ?_⟩
  rw [NeverTorn, unevenParts_eq] at never
  exact absurd (never.mono fun m op h => acceptable_uneven h) (by decide +kernel)

end SecureLink.Guarantees.SnapshotReplacement
