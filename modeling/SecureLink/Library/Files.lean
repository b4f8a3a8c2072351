import Mathlib.Data.List.Basic

/-!
# Files

The contents of a file after a write at an offset, and a directory of names over inodes:
a file stays the same file for those who have it open when its name is given to another
or taken away.
-/
namespace SecureLink.Library.Files

section Contents

variable {α : Type*} [OfNat α (nat_lit 0)]

/-- Contents after a write at an offset; a gap behind the old end reads as zeros, and a write
of nothing changes nothing. -/
def writeAt (content : List α) (off : Nat) (data : List α) : List α :=
  if data.isEmpty then content
  else content.take off ++ List.replicate (off - content.length) 0 ++ data ++
    content.drop (off + data.length)

@[simp] theorem writeAt_nil (content : List α) (off : Nat) : writeAt content off [] = content := rfl

/-- A write at the end appends. -/
theorem writeAt_length (content data : List α) :
    writeAt content content.length data = content ++ data := by
  unfold writeAt
  cases data with
  | nil => simp
  | cons b rest => simp

/-- A write inside the file keeps its length. -/
theorem length_writeAt {content data : List α} {off : Nat}
    (inside : off + data.length ≤ content.length) :
    (writeAt content off data).length = content.length := by
  unfold writeAt
  split
  · rfl
  · simp
    omega

/-- What a write inside the file leaves at each position. -/
theorem getElem?_writeAt {content data : List α} {off : Nat}
    (inside : off + data.length ≤ content.length) (pos : Nat) :
    (writeAt content off data)[pos]? =
      if off ≤ pos ∧ pos < off + data.length then data[pos - off]? else content[pos]? := by
  cases data with
  | nil =>
    rw [writeAt_nil, if_neg (by simp)]
  | cons b rest =>
    have gap : off - content.length = 0 := by
      rw [List.length_cons] at inside
      omega
    have before : (content.take off).length = off := by
      rw [List.length_take]
      omega
    rw [writeAt, if_neg (by simp), gap, List.replicate_zero, List.append_nil]
    by_cases early : pos < off
    · rw [if_neg (by omega), List.append_assoc, List.getElem?_append_left (by omega),
        List.getElem?_take_of_lt early]
    · by_cases within : pos < off + (b :: rest).length
      · rw [if_pos ⟨by omega, within⟩, List.append_assoc, List.getElem?_append_right (by omega),
          before, List.getElem?_append_left (by omega)]
      · rw [if_neg (by omega), List.getElem?_append_right (by rw [List.length_append]; omega),
          List.length_append, before, List.getElem?_drop]
        congr 1
        omega

/-- Two writes one behind the other are one write. -/
theorem writeAt_writeAt {content : List α} (off : Nat) (first second : List α) :
    writeAt (writeAt content off first) (off + first.length) second =
      writeAt content off (first ++ second) := by
  cases first with
  | nil => rfl
  | cons b rest =>
    cases second with
    | nil => simp
    | cons b' rest' =>
      -- what lies in front of the second write is all in place after the first
      have front : (content.take off ++ List.replicate (off - content.length) 0 ++
          (b :: rest)).length = off + (b :: rest).length := by
        simp
        omega
      have placed : writeAt content off (b :: rest) =
          content.take off ++ List.replicate (off - content.length) 0 ++ (b :: rest) ++
            content.drop (off + (b :: rest).length) := rfl
      have long : off + (b :: rest).length - (writeAt content off (b :: rest)).length = 0 := by
        rw [placed, List.length_append, front]
        omega
      rw [writeAt, if_neg (by simp), long, placed, List.take_left' front,
        List.drop_append, front, List.drop_eq_nil_of_le (by rw [front]; omega), Nat.add_sub_cancel_left,
        List.drop_drop]
      rw [writeAt, if_neg (by simp), List.length_append, Nat.add_assoc]
      simp only [List.replicate_zero, List.append_nil, List.nil_append, List.append_assoc]

end Contents

section Blocks

variable {α : Type*}

/-- The part of a file with the given number, for blocks of one size. -/
def block (content : List α) (size i : Nat) : List α := (content.drop (i * size)).take size

/-- The number of blocks of a file. -/
def blockCount (length size : Nat) : Nat := (length + size - 1) / size

/-- Two files have the same block. -/
def SameBlock (file content : List α) (size i : Nat) : Prop :=
  ∀ pos, pos / size = i → file[pos]? = content[pos]?

variable {size : Nat} {content : List α} {i : Nat}

/-- Every block begins inside the file. -/
theorem block_begins (positive : 0 < size) {length : Nat} (hi : i < blockCount length size) :
    i * size < length := by
  have bound : (i + 1) * size ≤ length + size - 1 :=
    (Nat.le_div_iff_mul_le positive).mp hi
  rw [Nat.add_mul, Nat.one_mul] at bound
  omega

theorem length_block (content : List α) (size i : Nat) :
    (block content size i).length = min size (content.length - i * size) := by
  rw [block, List.length_take, List.length_drop]

theorem block_ne_nil (positive : 0 < size) (hi : i < blockCount content.length size) :
    block content size i ≠ [] := by
  have begins := block_begins positive hi
  apply List.ne_nil_of_length_pos
  rw [length_block]
  omega

/-- All but the last block are whole. -/
theorem block_whole (positive : 0 < size) (hi : i + 1 < blockCount content.length size) :
    (block content size i).length = size := by
  have begins := block_begins positive hi
  rw [Nat.add_mul, Nat.one_mul] at begins
  rw [length_block]
  omega

theorem block_inside (positive : 0 < size) (hi : i < blockCount content.length size) :
    i * size + (block content size i).length ≤ content.length := by
  have begins := block_begins positive hi
  rw [length_block]
  omega

theorem div_lt_blockCount (positive : 0 < size) {length pos : Nat} (hpos : pos < length) :
    pos / size < blockCount length size := by
  rw [blockCount, Nat.lt_iff_add_one_le, Nat.le_div_iff_mul_le positive, Nat.add_mul, Nat.one_mul]
  have := Nat.div_mul_le_self pos size
  omega

/-- A position of a block that lies inside the file lies inside the block. -/
theorem inside_block (positive : 0 < size) {pos : Nat} (hpos : pos < content.length) :
    pos / size * size ≤ pos ∧ pos < pos / size * size + (block content size (pos / size)).length := by
  have low := Nat.div_mul_le_self pos size
  have high := Nat.lt_div_mul_add positive (a := pos)
  rw [length_block]
  omega

/-- Two files of one length with the same blocks are the same. -/
theorem eq_of_sameBlocks (positive : 0 < size) {file : List α} (lengths : file.length = content.length)
    (same : ∀ i < blockCount content.length size, SameBlock file content size i) : file = content := by
  apply List.ext_getElem?
  intro pos
  by_cases inside : pos < content.length
  · exact same _ (div_lt_blockCount positive inside) pos rfl
  · rw [List.getElem?_eq_none (by omega), List.getElem?_eq_none (by omega)]

variable [OfNat α (nat_lit 0)] {file : List α}

/-- Writing a block puts it in place and leaves the others alone. -/
theorem sameBlock_writeAt (positive : 0 < size) (lengths : file.length = content.length)
    (hi : i < blockCount content.length size) {j : Nat}
    (already : j = i ∨ SameBlock file content size j) :
    SameBlock (writeAt file (i * size) (block content size i)) content size j := by
  intro pos hpos
  have inside : i * size + (block content size i).length ≤ file.length :=
    lengths ▸ block_inside positive hi
  rw [getElem?_writeAt inside]
  split
  next within =>
    rw [block, List.getElem?_take_of_lt (by have := length_block content size i; omega),
      List.getElem?_drop]
    congr 1
    omega
  next outside =>
    rcases already with rfl | same
    · by_cases hlen : pos < content.length
      · subst hpos
        exact absurd (inside_block positive hlen) outside
      · rw [List.getElem?_eq_none (by omega), List.getElem?_eq_none (by omega)]
    · exact same pos hpos

end Blocks

/-- A directory and the contents of its inodes. -/
structure Directory (κ α : Type*) where
  inode : κ → Option Nat
  contents : Nat → List α
  fresh : Nat

namespace Directory

variable {κ α : Type*} {fs fs' : Directory κ α} {name name' source target : κ} {content : List α}

/-- What a reader of the name sees. -/
def read (fs : Directory κ α) (name : κ) : Option (List α) := (fs.inode name).map fs.contents

/-- Every name has its own inode, and new inodes are new. -/
structure WellFormed (fs : Directory κ α) : Prop where
  below : ∀ name i, fs.inode name = some i → i < fs.fresh
  apart : ∀ name name' i, fs.inode name = some i → fs.inode name' = some i → name = name'

section Write

variable [OfNat α (nat_lit 0)]

/-- A write through an open file. -/
def write (fs : Directory κ α) (i off : Nat) (data : List α) : Directory κ α :=
  { fs with contents := Function.update fs.contents i (writeAt (fs.contents i) off data) }

theorem WellFormed.write (wf : fs.WellFormed) (i off : Nat) (data : List α) :
    (fs.write i off data).WellFormed := ⟨wf.below, wf.apart⟩

/-- A write leaves every other name's file alone. -/
theorem read_write_other (wf : fs.WellFormed) {i : Nat} (named : fs.inode name = some i)
    (other : name' ≠ name) (off : Nat) (data : List α) :
    (fs.write i off data).read name' = fs.read name' := by
  simp only [read, Directory.write]
  cases target : fs.inode name' with
  | none => rfl
  | some j =>
    have different : j ≠ i := by
      rintro rfl
      exact other (wf.apart _ _ _ target named)
    simp [Function.update_of_ne different]

end Write

variable [DecidableEq κ]

/-- Open for writing: an existing file is emptied, a missing one made. -/
def openTruncate (fs : Directory κ α) (name : κ) : Directory κ α × Nat :=
  match fs.inode name with
  | some i => ({ fs with contents := Function.update fs.contents i [] }, i)
  | none =>
    ({ inode := Function.update fs.inode name (some fs.fresh)
       contents := Function.update fs.contents fs.fresh []
       fresh := fs.fresh + 1 }, fs.fresh)

/-- The target's name moves to the source's file; `none` if there is no source. -/
def rename (fs : Directory κ α) (source target : κ) : Option (Directory κ α) :=
  match fs.inode source with
  | none => none
  | some i =>
    some { fs with inode := Function.update (Function.update fs.inode target (some i)) source none }

def unlink (fs : Directory κ α) (name : κ) : Directory κ α :=
  { fs with inode := Function.update fs.inode name none }

theorem inode_openTruncate (fs : Directory κ α) (name : κ) :
    (fs.openTruncate name).1.inode name = some (fs.openTruncate name).2 := by
  unfold openTruncate
  cases named : fs.inode name <;> simp [named]

theorem contents_openTruncate (fs : Directory κ α) (name : κ) :
    (fs.openTruncate name).1.contents (fs.openTruncate name).2 = [] := by
  unfold openTruncate
  cases named : fs.inode name <;> simp

theorem WellFormed.openTruncate (wf : fs.WellFormed) (name : κ) :
    (fs.openTruncate name).1.WellFormed := by
  unfold Directory.openTruncate
  cases named : fs.inode name with
  | some i => exact ⟨wf.below, wf.apart⟩
  | none =>
    refine ⟨fun n i h => ?_, fun n n' i h h' => ?_⟩
    · simp only [Function.update_apply] at h
      split at h
      · cases h
        exact Nat.lt_succ_self _
      · exact Nat.lt_succ_of_lt (wf.below n i h)
    · simp only [Function.update_apply] at h h'
      split at h <;> split at h'
      next left right => exact left.trans right.symm
      · cases h
        exact absurd (wf.below _ _ h') (Nat.lt_irrefl _)
      · cases h'
        exact absurd (wf.below _ _ h) (Nat.lt_irrefl _)
      · exact wf.apart _ _ _ h h'

/-- Opening a file leaves every other name's file alone. -/
theorem read_openTruncate_other (wf : fs.WellFormed) (other : name' ≠ name) :
    (fs.openTruncate name).1.read name' = fs.read name' := by
  unfold openTruncate
  cases named : fs.inode name with
  | some i =>
    simp only [read]
    cases target : fs.inode name' with
    | none => rfl
    | some j =>
      have different : j ≠ i := by
        rintro rfl
        exact other (wf.apart _ _ _ target named)
      simp [Function.update_of_ne different]
  | none =>
    simp only [read, Function.update_of_ne other]
    cases target : fs.inode name' with
    | none => rfl
    | some j =>
      have different : j ≠ fs.fresh := Nat.ne_of_lt (wf.below _ _ target)
      simp [Function.update_of_ne different]

/-- What a rename does to the two names. -/
theorem rename_some (other : target ≠ source) (renamed : fs.rename source target = some fs') :
    fs'.read target = fs.read source ∧ fs'.read source = none := by
  unfold rename at renamed
  cases named : fs.inode source with
  | none => simp [named] at renamed
  | some i =>
    simp only [named, Option.some.injEq] at renamed
    subst renamed
    simp [read, Function.update_of_ne other, named]

theorem rename_eq_none : fs.rename source target = none ↔ fs.read source = none := by
  unfold rename read
  cases fs.inode source <;> simp

theorem WellFormed.rename (wf : fs.WellFormed) (renamed : fs.rename source target = some fs') :
    fs'.WellFormed := by
  unfold Directory.rename at renamed
  cases named : fs.inode source with
  | none => simp [named] at renamed
  | some i =>
    simp only [named, Option.some.injEq] at renamed
    subst renamed
    -- a name that keeps an inode other than the target is not the source
    have kept : ∀ n j, Function.update (Function.update fs.inode target (some i)) source none n =
        some j → n ≠ source ∧ (n = target ∧ j = i ∨ n ≠ target ∧ fs.inode n = some j) := by
      intro n j h
      simp only [Function.update_apply] at h
      split_ifs at h with isSource isTarget
      · exact ⟨isSource, Or.inl ⟨isTarget, (Option.some.inj h).symm⟩⟩
      · exact ⟨isSource, Or.inr ⟨isTarget, h⟩⟩
    refine ⟨fun n j h => ?_, fun n n' j h h' => ?_⟩
    · obtain ⟨_, ⟨_, rfl⟩ | ⟨_, old⟩⟩ := kept n j h
      · exact wf.below _ _ named
      · exact wf.below _ _ old
    · obtain ⟨notSource, ⟨left, rfl⟩ | ⟨_, old⟩⟩ := kept n j h
      · obtain ⟨notSource', ⟨right, _⟩ | ⟨_, old'⟩⟩ := kept n' j h'
        · exact left.trans right.symm
        · exact absurd (wf.apart _ _ _ old' named) notSource'
      · obtain ⟨notSource', ⟨right, rfl⟩ | ⟨_, old'⟩⟩ := kept n' j h'
        · exact absurd (wf.apart _ _ _ old named) notSource
        · exact wf.apart _ _ _ old old'

theorem WellFormed.unlink (wf : fs.WellFormed) (name : κ) : (fs.unlink name).WellFormed := by
  have kept : ∀ n i, (fs.unlink name).inode n = some i → fs.inode n = some i := by
    intro n i h
    simp only [Directory.unlink, Function.update_apply] at h
    split_ifs at h
    exact h
  exact ⟨fun n i h => wf.below n i (kept n i h),
    fun n n' i h h' => wf.apart n n' i (kept n i h) (kept n' i h')⟩

theorem read_unlink_other (fs : Directory κ α) (other : name' ≠ name) :
    (fs.unlink name).read name' = fs.read name' := by
  simp [read, unlink, Function.update_of_ne other]

theorem read_unlink_self (fs : Directory κ α) (name : κ) : (fs.unlink name).read name = none := by
  simp [read, unlink]

end Directory

end SecureLink.Library.Files
