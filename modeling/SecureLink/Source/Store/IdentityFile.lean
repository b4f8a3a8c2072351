import SecureLink.Library.Files
import SecureLink.Source.Store.Codec
import SecureLink.Source.Wire.Fields

/-!
# Identity files

src/sl_identity_file.c:27-101. The file system is a directory with two names, the path and the path
with the suffix ".tmp"; what each system call returns is an argument. What a failed call leaves
in the caller's key buffers is left out.
-/
namespace SecureLink.Source.Store
open Library.BigEndian Library.Files Wire

def slIdMagic : Bytes := ascii "SLID"
def slIdVer : UInt32 := 1
def slEd25519KeyLen : Nat := 32
def slIdTotal : Nat := 4 + 4 + slEd25519KeyLen + slEd25519KeyLen + 4

structure SlIdentity where
  priv : FixedBytes slEd25519KeyLen
  pub : FixedBytes slEd25519KeyLen
  deriving DecidableEq

inductive IdentityName where
  | path | tmp
  deriving DecidableEq, Repr

abbrev IdentityDir := Directory IdentityName UInt8

/-- What the calls out of the library return. `fread` is `none` if `fopen` fails on a file that
exists, else the bytes that can be read; a write is `none` for -1. -/
structure IdentityCalls where
  fread : Option Nat
  keypairNew : Option SlIdentity
  tmpFits : Bool
  openTmp : Bool
  writes : List (Option Nat)
  renames : Bool

/-- The bytes in front of the checksum. -/
def identityBody (id : SlIdentity) : Bytes :=
  slIdMagic ++ (packU32 slIdVer ++ (id.priv.1 ++ id.pub.1))

/-- The complete file of a key pair. -/
def identityFile (id : SlIdentity) : Bytes :=
  identityBody id ++ packU32 (slCrc32c (identityBody id))

/-- The loop around `write`, from an offset; `none` while it is still running. -/
def writeAll (fd : Nat) (buf : Bytes) :
    List (Option Nat) → IdentityDir → Nat → Option (IdentityDir × Bool)
  | [], files, off => if buf.length ≤ off then some (files, true) else none
  | w :: later, files, off =>
    if buf.length ≤ off then some (files, true)
    else
      match w with
      | none => some (files, false)
      | some w =>
        let data := (buf.drop off).take w
        writeAll fd buf later (files.write fd off data) (off + data.length)

def slIdentityFileSave (calls : IdentityCalls) (files : IdentityDir) (id : SlIdentity) :
    Option (IdentityDir × Int) :=
  if !calls.tmpFits then some (files, -1)
  else if !calls.openTmp then some (files, -1)
  else
    let (files, fd) := files.openTruncate .tmp
    match writeAll fd (identityFile id) calls.writes files 0 with
    | none => none
    | some (files, false) => some (files.unlink .tmp, -1)
    | some (files, true) =>
      if !calls.renames then some (files, -1)
      else
        match files.rename .tmp .path with
        | none => some (files, -1)
        | some files => some (files, 0)

theorem length_field {buf : Bytes} (whole : ¬ buf.length ≠ slIdTotal) {off : Nat}
    (inside : off + slEd25519KeyLen ≤ slIdTotal) :
    ((buf.drop off).take slEd25519KeyLen).length = slEd25519KeyLen := by
  rw [List.length_take, List.length_drop]
  omega

/-- The checks on the bytes that were read. -/
def parseIdentity (buf : Bytes) : Option SlIdentity :=
  if whole : buf.length ≠ slIdTotal then none
  else if buf.take 4 ≠ slIdMagic then none
  else if unpackU32 (buf.drop 4) ≠ slIdVer then none
  else if unpackU32 (buf.drop (slIdTotal - 4)) ≠ slCrc32c (buf.take (slIdTotal - 4)) then none
  else some
    { priv := ⟨(buf.drop 8).take slEd25519KeyLen, length_field whole (by decide)⟩
      pub := ⟨(buf.drop (8 + slEd25519KeyLen)).take slEd25519KeyLen,
        length_field whole (by decide)⟩ }

def slIdentityFileLoad (calls : IdentityCalls) (files : IdentityDir) : Option SlIdentity :=
  match calls.fread, files.read .path with
  | some limit, some content => parseIdentity ((content.take limit).take slIdTotal)
  | _, _ => none

/-- What a call leaves behind and returns; the key pair is that of a call that returns 0. -/
structure IdentityResult where
  files : IdentityDir
  rc : Int
  identity : Option SlIdentity := none
  wasCreated : Bool := false

def slIdentityFileLoadOrCreate (calls : IdentityCalls) (files : IdentityDir) :
    Option IdentityResult :=
  match slIdentityFileLoad calls files with
  | some id => some { files, rc := 0, identity := some id }
  | none =>
    match calls.keypairNew with
    | none => some { files, rc := -1 }
    | some id =>
      match slIdentityFileSave calls files id with
      | none => none
      | some (files, rc) =>
        if rc ≠ 0 then some { files, rc := -1 }
        else some { files, rc := 0, identity := some id, wasCreated := true }

/-! ## Loading -/

variable {files files' : IdentityDir} {calls : IdentityCalls} {id : SlIdentity}

theorem length_identityBody (id : SlIdentity) : (identityBody id).length = slIdTotal - 4 := by
  simp [identityBody, slIdMagic, ascii, id.priv.2, id.pub.2, slIdTotal, slEd25519KeyLen]

theorem length_identityFile (id : SlIdentity) : (identityFile id).length = slIdTotal := by
  rw [identityFile, List.length_append, length_identityBody, length_packU32]
  rfl

/-- A saved key pair is read back. -/
theorem parseIdentity_file (id : SlIdentity) : parseIdentity (identityFile id) = some id := by
  have size := length_identityFile id
  have front : (identityFile id).take (slIdTotal - 4) = identityBody id :=
    List.take_left' (length_identityBody id)
  have back : (identityFile id).drop (slIdTotal - 4) = packU32 (slCrc32c (identityBody id)) :=
    List.drop_left' (length_identityBody id)
  have crc : unpackU32 ((identityFile id).drop (slIdTotal - 4)) = slCrc32c (identityBody id) := by
    rw [back, ← List.append_nil (packU32 _), unpackU32_pack]
  have behind : (identityFile id).drop 8 =
      id.priv.1 ++ (id.pub.1 ++ packU32 (slCrc32c (identityBody id))) := by
    simp only [identityFile, identityBody, List.append_assoc]
    rfl
  have priv : ((identityFile id).drop 8).take slEd25519KeyLen = id.priv.1 := by
    rw [behind, List.take_left' id.priv.2]
  have pub : ((identityFile id).drop (8 + slEd25519KeyLen)).take slEd25519KeyLen = id.pub.1 := by
    rw [← List.drop_drop, behind, List.drop_left' id.priv.2, List.take_left' id.pub.2]
  have version : unpackU32 ((identityFile id).drop 4) = slIdVer := unpackU32_pack slIdVer _
  have magic : (identityFile id).take 4 = slIdMagic := rfl
  rw [parseIdentity, dif_neg (not_not_intro size), if_neg (not_not_intro magic),
    if_neg (not_not_intro version), front, crc, if_neg (not_not_intro rfl)]
  simp only [priv, pub]

theorem parseIdentity_length {buf : Bytes} (parsed : parseIdentity buf = some id) :
    buf.length = slIdTotal := by
  by_contra short
  rw [parseIdentity, dif_pos short] at parsed
  cases parsed

/-- The key pair stored in a file. -/
def storedIdentity (content : Bytes) : Option SlIdentity := parseIdentity (content.take slIdTotal)

/-- The file can be opened, and read to the end of a key pair. -/
def Readable (fread : Option Nat) : Prop := ∃ limit ∈ fread, slIdTotal ≤ limit

/-- What can be read and checks is loaded, and nothing else. -/
theorem slIdentityFileLoad_iff {content : Bytes} (present : files.read .path = some content) :
    slIdentityFileLoad calls files = some id ↔
      Readable calls.fread ∧ storedIdentity content = some id := by
  cases reads : calls.fread with
  | none => simp [slIdentityFileLoad, reads, Readable]
  | some limit =>
    simp only [slIdentityFileLoad, reads, present, Readable, Option.mem_def, Option.some.injEq,
      exists_eq_left', storedIdentity, List.take_take]
    constructor
    · intro loaded
      have length := parseIdentity_length loaded
      rw [List.length_take] at length
      have enough : slIdTotal ≤ limit := by omega
      rw [Nat.min_eq_left enough] at loaded
      exact ⟨enough, loaded⟩
    · intro stored
      rw [Nat.min_eq_left stored.1]
      exact stored.2

/-! ## Saving -/

/-- The written part of the buffer lies in the open file; no other name is touched. -/
structure Writing (before : IdentityDir) (fd : Nat) (buf : Bytes) (files : IdentityDir) (off : Nat) :
    Prop where
  wf : files.WellFormed
  opened : files.inode .tmp = some fd
  inside : off ≤ buf.length
  written : files.contents fd = buf.take off
  path : files.read .path = before.read .path

theorem Writing.write {before : IdentityDir} {fd off : Nat} {buf : Bytes}
    (writing : Writing before fd buf files off) (w : Nat) :
    Writing before fd buf (files.write fd off ((buf.drop off).take w))
      (off + ((buf.drop off).take w).length) := by
  have length : (buf.take off).length = off := List.length_take_of_le writing.inside
  refine ⟨writing.wf.write _ _ _, writing.opened, ?_, ?_, ?_⟩
  · rw [List.length_take, List.length_drop]
    have inside := writing.inside
    omega
  · have placed := writeAt_length (buf.take off) ((buf.drop off).take w)
    rw [length] at placed
    simp only [Directory.write, Function.update_self, writing.written, placed]
    rw [List.take_add, List.length_take, ← List.take_take, List.take_length]
  · rw [Directory.read_write_other writing.wf writing.opened (by decide)]
    exact writing.path

theorem writeAll_spec {before : IdentityDir} {fd : Nat} {buf : Bytes} {writes : List (Option Nat)}
    {off : Nat} {ok : Bool} (writing : Writing before fd buf files off)
    (done : writeAll fd buf writes files off = some (files', ok)) :
    ∃ off', Writing before fd buf files' off' ∧ (ok = true → off' = buf.length) := by
  induction writes generalizing files off with
  | nil =>
    rw [writeAll] at done
    split_ifs at done with complete
    cases done
    exact ⟨off, writing, fun _ => Nat.le_antisymm writing.inside complete⟩
  | cons w later ih =>
    cases w with
    | none =>
      rw [writeAll] at done
      split_ifs at done with complete
      · cases done
        exact ⟨off, writing, fun _ => Nat.le_antisymm writing.inside complete⟩
      · cases done
        exact ⟨off, writing, fun ok => by cases ok⟩
    | some w =>
      rw [writeAll] at done
      split_ifs at done with complete
      · cases done
        exact ⟨off, writing, fun _ => Nat.le_antisymm writing.inside complete⟩
      · exact ih (writing.write w) done

theorem writing_openTruncate (wf : files.WellFormed) (buf : Bytes) :
    Writing files (files.openTruncate .tmp).2 buf (files.openTruncate .tmp).1 0 where
  wf := wf.openTruncate .tmp
  opened := files.inode_openTruncate .tmp
  inside := Nat.zero_le _
  written := files.contents_openTruncate .tmp
  path := Directory.read_openTruncate_other wf (by decide)

/-- A save that returns 0 has put the key pair at the path; any other leaves the path alone. -/
theorem slIdentityFileSave_spec (wf : files.WellFormed) {rc : Int}
    (saved : slIdentityFileSave calls files id = some (files', rc)) :
    rc = 0 ∧ files'.read .path = some (identityFile id) ∨
      rc = -1 ∧ files'.read .path = files.read .path := by
  unfold slIdentityFileSave at saved
  by_cases short : (!calls.tmpFits) = true
  · rw [if_pos short] at saved
    cases saved
    exact .inr ⟨rfl, rfl⟩
  rw [if_neg short] at saved
  by_cases closed : (!calls.openTmp) = true
  · rw [if_pos closed] at saved
    cases saved
    exact .inr ⟨rfl, rfl⟩
  rw [if_neg closed] at saved
  cases done : writeAll (files.openTruncate .tmp).2 (identityFile id) calls.writes
      (files.openTruncate .tmp).1 0 with
  | none => simp [done] at saved
  | some result =>
    obtain ⟨written, ok⟩ := result
    obtain ⟨off, writing, complete⟩ := writeAll_spec (writing_openTruncate wf _) done
    cases ok with
    | false =>
      simp only [done, Option.some.injEq, Prod.mk.injEq] at saved
      obtain ⟨rfl, rfl⟩ := saved
      refine .inr ⟨rfl, ?_⟩
      rw [Directory.read_unlink_other _ (by decide)]
      exact writing.path
    | true =>
      have contents : written.read .tmp = some (identityFile id) := by
        rw [Directory.read, writing.opened, Option.map_some, writing.written, complete rfl,
          List.take_length]
      simp only [done] at saved
      by_cases refused : (!calls.renames) = true
      · rw [if_pos refused] at saved
        cases saved
        exact .inr ⟨rfl, writing.path⟩
      rw [if_neg refused] at saved
      cases renamed : written.rename .tmp .path with
      | none =>
        simp only [renamed, Option.some.injEq, Prod.mk.injEq] at saved
        obtain ⟨rfl, rfl⟩ := saved
        exact .inr ⟨rfl, writing.path⟩
      | some moved =>
        simp only [renamed, Option.some.injEq, Prod.mk.injEq] at saved
        obtain ⟨rfl, rfl⟩ := saved
        refine .inl ⟨rfl, ?_⟩
        rw [(Directory.rename_some (by decide) renamed).1, contents]

/-- Calls that all succeed, with the write in one piece. -/
def smoothCalls (fread : Option Nat) (id : SlIdentity) : IdentityCalls where
  fread
  keypairNew := some id
  tmpFits := true
  openTmp := true
  writes := [some slIdTotal]
  renames := true

theorem slIdentityFileSave_smooth (wf : files.WellFormed) (fread : Option Nat) (id : SlIdentity) :
    ∃ files', slIdentityFileSave (smoothCalls fread id) files id = some (files', 0) ∧
      files'.read .path = some (identityFile id) := by
  have start := writing_openTruncate wf (identityFile id)
  have size := length_identityFile id
  have data : ((identityFile id).drop 0).take slIdTotal = identityFile id :=
    List.take_of_length_le (by simp [size])
  have all := start.write slIdTotal
  rw [data, Nat.zero_add] at all
  have done : writeAll (files.openTruncate .tmp).2 (identityFile id) [some slIdTotal]
      (files.openTruncate .tmp).1 0 = some ((files.openTruncate .tmp).1.write
        (files.openTruncate .tmp).2 0 (identityFile id), true) := by
    rw [writeAll, if_neg (by rw [size]; decide)]
    simp only [data, writeAll, Nat.zero_add, Nat.le_refl, if_true]
  cases renamed : ((files.openTruncate .tmp).1.write (files.openTruncate .tmp).2 0
      (identityFile id)).rename .tmp .path with
  | none =>
    rw [Directory.rename_eq_none, Directory.read, all.opened] at renamed
    cases renamed
  | some moved =>
    have saved : slIdentityFileSave (smoothCalls fread id) files id = some (moved, 0) := by
      simp only [slIdentityFileSave, smoothCalls, Bool.not_true, Bool.false_eq_true, if_false, done,
        renamed]
    refine ⟨moved, saved, ?_⟩
    rcases slIdentityFileSave_spec wf saved with ⟨-, replaced⟩ | ⟨failed, -⟩
    · exact replaced
    · cases failed

/-! ## Loading or creating -/

theorem slIdentityFileLoadOrCreate_loads (loaded : slIdentityFileLoad calls files = some id) :
    slIdentityFileLoadOrCreate calls files = some { files, rc := 0, identity := some id } := by
  rw [slIdentityFileLoadOrCreate, loaded]

/-- Where nothing can be loaded and nothing fails, there is a new key pair at the path. -/
theorem slIdentityFileLoadOrCreate_smooth (wf : files.WellFormed) {fread : Option Nat}
    (missing : slIdentityFileLoad (smoothCalls fread id) files = none) :
    ∃ files', slIdentityFileLoadOrCreate (smoothCalls fread id) files =
        some { files := files', rc := 0, identity := some id, wasCreated := true } ∧
      files'.read .path = some (identityFile id) := by
  obtain ⟨files', saved, replaced⟩ := slIdentityFileSave_smooth wf fread id
  have key : (smoothCalls fread id).keypairNew = some id := rfl
  refine ⟨files', ?_, replaced⟩
  simp only [slIdentityFileLoadOrCreate, missing, key, saved]
  rfl

/-- A creation puts the key pair it returns at the path. -/
theorem slIdentityFileLoadOrCreate_created (wf : files.WellFormed) {result : IdentityResult}
    (returned : slIdentityFileLoadOrCreate calls files = some result)
    (created : result.wasCreated = true) :
    ∃ id, result.rc = 0 ∧ result.identity = some id ∧
      result.files.read .path = some (identityFile id) := by
  rw [slIdentityFileLoadOrCreate] at returned
  cases loaded : slIdentityFileLoad calls files with
  | some id =>
    rw [loaded] at returned
    cases returned
    cases created
  | none =>
    cases key : calls.keypairNew with
    | none =>
      simp only [loaded, key, Option.some.injEq] at returned
      subst returned
      cases created
    | some id =>
      cases saved : slIdentityFileSave calls files id with
      | none => simp [loaded, key, saved] at returned
      | some pair =>
        obtain ⟨files', rc⟩ := pair
        simp only [loaded, key, saved] at returned
        split_ifs at returned with failed
        · cases returned
          cases created
        · cases returned
          refine ⟨id, rfl, rfl, ?_⟩
          rcases slIdentityFileSave_spec wf saved with ⟨-, replaced⟩ | ⟨rfl, -⟩
          · exact replaced
          · exact absurd (by decide) failed

end SecureLink.Source.Store
