import SecureLink.Library.Runs
import SecureLink.Source.Store.IdentityFile

/-!
# Keeping the identity

`sl_identity_file_load_or_create` takes every failure to load for the absence of the file. A
file that is there but cannot be read, or is short, or does not check, is replaced by that of a
new key pair.
-/
namespace SecureLink.Guarantees.IdentityKept
open Library.BigEndian Library.Runs Source.Store

/-- The call returns with the file as it was, and with the key pair in it or -1. -/
def Kept (calls : IdentityCalls) (files : IdentityDir) (content : Bytes) : Prop :=
  ∃ result, slIdentityFileLoadOrCreate calls files = some result ∧
    result.files.read .path = some content ∧
    (result.rc = 0 ∧ (storedIdentity content).isSome ∧ result.identity = storedIdentity content ∨
      result.rc = -1)

/-- One call after another; one that does not return leaves the directory to nobody. -/
def step (files : IdentityDir) (calls : IdentityCalls) : IdentityDir × Option IdentityResult :=
  match slIdentityFileLoadOrCreate calls files with
  | none => (files, none)
  | some result => (result.files, some result)

/-- Every one of the calls returns the key pair and leaves the files alone. -/
def Returns (id : SlIdentity) (files : IdentityDir) (later : List IdentityCalls) : Prop :=
  AllSteps step (fun files calls => slIdentityFileLoadOrCreate calls files =
    some { files, rc := 0, identity := some id }) files later

theorem returns_of_file {id : SlIdentity} {files : IdentityDir}
    (present : files.read .path = some (identityFile id)) {later : List IdentityCalls}
    (readable : ∀ calls ∈ later, Readable calls.fread) : Returns id files later := by
  have loads : ∀ calls, Readable calls.fread → slIdentityFileLoadOrCreate calls files =
      some { files, rc := 0, identity := some id } := by
    intro calls readable
    apply slIdentityFileLoadOrCreate_loads
    refine (slIdentityFileLoad_iff present).mpr ⟨readable, ?_⟩
    rw [storedIdentity, List.take_of_length_le (length_identityFile id).le, parseIdentity_file]
  unfold Returns
  induction later with
  | nil => trivial
  | cons calls rest ih =>
    have here := loads calls (readable calls (by simp))
    refine ⟨here, ?_⟩
    rw [step, here]
    exact ih fun calls member => readable calls (by simp [member])

/-- Two key pairs with different files. -/
def firstIdentity : SlIdentity := ⟨⟨List.replicate 32 1, by decide⟩, ⟨List.replicate 32 2, by decide⟩⟩
def secondIdentity : SlIdentity := ⟨⟨List.replicate 32 3, by decide⟩, ⟨List.replicate 32 4, by decide⟩⟩

theorem exists_other_file (content : Bytes) : ∃ id, identityFile id ≠ content := by
  by_cases first : identityFile firstIdentity = content
  · refine ⟨secondIdentity, ?_⟩
    intro second
    have same := congrArg parseIdentity (first.trans second.symm)
    rw [parseIdentity_file, parseIdentity_file] at same
    exact absurd same (by decide)
  · exact ⟨firstIdentity, first⟩

/-- Whatever the other calls do, an existing file survives exactly if it can be read and holds a
key pair. A key pair that was created is returned by every later call that can read the file. -/
theorem identity_kept_iff {files : IdentityDir} (wf : files.WellFormed) :
    (∀ content, files.read .path = some content → ∀ fread,
      (∀ calls, calls.fread = fread → Kept calls files content) ↔
        Readable fread ∧ (storedIdentity content).isSome) ∧
    ∀ calls result, slIdentityFileLoadOrCreate calls files = some result →
      result.wasCreated = true → ∃ id, result.identity = some id ∧
        ∀ later, (∀ calls ∈ later, Readable calls.fread) → Returns id result.files later := by
  refine ⟨fun content present fread => ⟨?_, ?_⟩, ?_⟩
  · intro kept
    -- a new key pair with another file is written unless one is loaded
    obtain ⟨id, other⟩ := exists_other_file content
    cases loaded : slIdentityFileLoad (smoothCalls fread id) files with
    | some found =>
      obtain ⟨readable, stored⟩ := (slIdentityFileLoad_iff present).mp loaded
      exact ⟨readable, by rw [stored]; rfl⟩
    | none =>
      obtain ⟨files', creates, replaced⟩ := slIdentityFileLoadOrCreate_smooth wf loaded
      obtain ⟨result, returned, unchanged, -⟩ := kept (smoothCalls fread id) rfl
      rw [creates] at returned
      cases returned
      exact absurd (Option.some.inj (replaced.symm.trans unchanged)) other
  · intro cond calls reads
    obtain ⟨id, stored⟩ := Option.isSome_iff_exists.mp cond.2
    have loaded : slIdentityFileLoad calls files = some id :=
      (slIdentityFileLoad_iff present).mpr ⟨reads ▸ cond.1, stored⟩
    exact ⟨_, slIdentityFileLoadOrCreate_loads loaded, present, .inl ⟨rfl, cond.2, stored.symm⟩⟩
  · intro calls result returned created
    obtain ⟨id, -, identity, file⟩ := slIdentityFileLoadOrCreate_created wf returned created
    exact ⟨id, identity, fun later readable => returns_of_file file readable⟩

/-- A directory with a file at the path and nothing else. -/
def oneFile (content : Bytes) : IdentityDir where
  inode := fun name => if name = .path then some 0 else none
  contents := fun _ => content
  fresh := 1

theorem oneFile_read (content : Bytes) : (oneFile content).read .path = some content := rfl

theorem oneFile_wf (content : Bytes) : (oneFile content).WellFormed := by
  refine ⟨fun name i named => ?_, fun name name' i named named' => ?_⟩
  · cases name <;> simp_all [oneFile]
  · cases name <;> cases name' <;> simp_all [oneFile]

theorem saved_identity_kept :
    Kept (smoothCalls (some slIdTotal) secondIdentity) (oneFile (identityFile firstIdentity))
      (identityFile firstIdentity) := by
  have stored : (storedIdentity (identityFile firstIdentity)).isSome := by
    rw [storedIdentity, List.take_of_length_le (length_identityFile _).le, parseIdentity_file]
    rfl
  exact (((identity_kept_iff (oneFile_wf _)).1 _ (oneFile_read _) (some slIdTotal)).mpr
    ⟨⟨slIdTotal, rfl, Nat.le_refl _⟩, stored⟩) _ rfl

/-- A file that lost its last byte is replaced by that of a new key pair, and the call returns 0. -/
theorem truncated_identity_replaced :
    ∃ result, slIdentityFileLoadOrCreate (smoothCalls (some slIdTotal) secondIdentity)
        (oneFile ((identityFile firstIdentity).take 75)) = some result ∧
      result.rc = 0 ∧ result.identity = some secondIdentity ∧ result.wasCreated = true ∧
      result.files.read .path = some (identityFile secondIdentity) ∧
      identityFile secondIdentity ≠ (identityFile firstIdentity).take 75 := by
  have short : ((identityFile firstIdentity).take 75).length = 75 := by
    rw [List.length_take, length_identityFile]
    rfl
  have missing : slIdentityFileLoad (smoothCalls (some slIdTotal) secondIdentity)
      (oneFile ((identityFile firstIdentity).take 75)) = none := by
    cases loaded : slIdentityFileLoad (smoothCalls (some slIdTotal) secondIdentity)
        (oneFile ((identityFile firstIdentity).take 75)) with
    | none => rfl
    | some id =>
      have length := parseIdentity_length ((slIdentityFileLoad_iff (oneFile_read _)).mp loaded).2
      rw [List.length_take, short] at length
      exact absurd length (by decide)
  obtain ⟨files', creates, replaced⟩ := slIdentityFileLoadOrCreate_smooth (oneFile_wf _) missing
  refine ⟨_, creates, rfl, rfl, rfl, replaced, ?_⟩
  intro same
  have lengths := congrArg List.length same
  rw [length_identityFile, short] at lengths
  exact absurd lengths (by decide)

end SecureLink.Guarantees.IdentityKept
