import SecureLink.Source.Transfer.FileMessage
import SecureLink.Source.Transfer.ResumeMap

/-!
# The resume bitmap as a set of chunks

Up to 2³² − 8 chunks the bitmap is a set: every query answers from the indices set so far, and a
serialized map comes back as it was. Above that the number of octets wraps (src/sl_resume_map.c:8)
and the single octet that is allocated is left behind by the ninth chunk.
-/
namespace SecureLink.Guarantees.ResumeBitmap
open Library Source.Transfer Source.Transfer.SlResumeMap

/-! ## Accesses -/

inductive MapCall where
  | set (chunkIndex : UInt32)
  | has (chunkIndex : UInt32)
  | missing (outCap : Nat)
  | complete

/-- `none` is an access behind the end of the array. -/
def mapStep (r : SlResumeMap) : MapCall → Option SlResumeMap
  | .set chunkIndex => slResumeMapSet r chunkIndex
  | .has chunkIndex => (slResumeMapHas r chunkIndex).map fun _ => r
  | .missing outCap => (slResumeMapMissing r outCap).map fun _ => r
  | .complete => some r

/-- No call of the sequence leaves the array, whose size stays as it was allocated. -/
def Inside (r : SlResumeMap) (calls : List MapCall) : Prop :=
  ∃ r', calls.foldlM mapStep r = some r' ∧ r'.bits.length = r.bits.length

/-- The array has an octet for every chunk. -/
def Wide (r : SlResumeMap) : Prop := ∀ i < r.totalChunks, r.Covers i

theorem wide_of_length {r : SlResumeMap} (few : r.totalChunks.toNat ≤ 2 ^ 32 - 8)
    (length : r.bits.length = (slResumeMapInit r.totalChunks).bits.length) : Wide r := by
  intro i below
  have covered := covers_init few below
  rw [Covers] at covered ⊢
  rwa [length]

theorem Wide.reads {r : SlResumeMap} (wide : Wide r) :
    ∀ i < r.totalChunks, slResumeMapHas r i = some ((slResumeMapHas r i).getD false) := by
  intro i below
  rw [has_eq below, ByteBitmap.bitAt, List.getElem?_eq_getElem (wide i below)]
  rfl

/-- One call. -/
theorem mapStep_inside {r : SlResumeMap} (wide : Wide r) (call : MapCall) :
    ∃ r', mapStep r call = some r' ∧ Wide r' ∧ r'.bits.length = r.bits.length := by
  cases call with
  | set i =>
    obtain ⟨r', result⟩ : ∃ r', slResumeMapSet r i = some r' := by
      by_cases outside : r.totalChunks ≤ i
      · exact ⟨r, set_outside outside⟩
      · have inside : i.toNat / 8 < r.bits.length := wide i (UInt32.not_le.mp outside)
        rw [slResumeMapSet, if_neg outside, octet_index, List.getElem?_eq_getElem inside]
        exact ⟨_, rfl⟩
    obtain ⟨total, length, -⟩ := set_keeps result
    refine ⟨r', result, fun j below => ?_, length⟩
    rw [Covers, length]
    exact wide j (total ▸ below)
  | has i =>
    by_cases outside : r.totalChunks ≤ i
    · exact ⟨r, by rw [mapStep, slResumeMapHas, if_pos outside]; rfl, wide, rfl⟩
    · exact ⟨r, by rw [mapStep, wide.reads i (UInt32.not_le.mp outside)]; rfl, wide, rfl⟩
  | missing outCap =>
    exact ⟨r, by rw [mapStep, slResumeMapMissing_eq wide.reads]; rfl, wide, rfl⟩
  | complete => exact ⟨r, rfl, wide, rfl⟩

theorem inside_of_wide {r : SlResumeMap} (wide : Wide r) (calls : List MapCall) : Inside r calls := by
  induction calls generalizing r with
  | nil => exact ⟨r, rfl, rfl⟩
  | cons call calls ih =>
    obtain ⟨next, step, wide', length⟩ := mapStep_inside wide call
    obtain ⟨last, rest, kept⟩ := ih wide'
    refine ⟨last, ?_, kept.trans length⟩
    rw [List.foldlM_cons, step]
    exact rest

/-- The array that a deserialized map gets has the size of a new one. -/
theorem length_restored {bytes : List UInt8} {totalChunks : UInt32}
    (long : bitmapBytes totalChunks ≤ bytes.length) :
    (bytes.take (bitmapBytes totalChunks) ++
      (slResumeMapInit totalChunks).bits.drop (bitmapBytes totalChunks)).length =
        (slResumeMapInit totalChunks).bits.length := by
  have size : bitmapBytes totalChunks ≤ (slResumeMapInit totalChunks).bits.length := by
    rw [bits_init, List.length_replicate]
    split <;> omega
  rw [List.length_append, List.length_take, List.length_drop]
  omega

theorem slResumeMapDeserialize_inside {totalChunks : UInt32} (few : totalChunks.toNat ≤ 2 ^ 32 - 8)
    (bytes : List UInt8) :
    ∃ result, slResumeMapDeserialize bytes totalChunks = some result ∧ ∀ r ∈ result, Wide r := by
  by_cases short : bytes.length < bitmapBytes totalChunks
  · exact ⟨none, if_pos short, by simp⟩
  · have long := Nat.le_of_not_lt short
    have wide : ∀ receivedChunks, Wide ⟨_, totalChunks, receivedChunks⟩ :=
      fun _ => wide_of_length few (length_restored long)
    have counts := countLoop_eq (wide 0).reads (Nat.le_of_eq (Nat.zero_add _)) 0
    rw [slResumeMapDeserialize_eq long rfl]
    refine ⟨_, congrArg (Option.map _) counts, ?_⟩
    intro r result
    cases result
    exact wide _

/-- Behind the bound the array has one octet, and the ninth chunk is outside. -/
theorem has_wrapped {totalChunks : UInt32} (many : 2 ^ 32 - 8 < totalChunks.toNat) :
    (slResumeMapInit totalChunks).bits = [0] ∧
      slResumeMapHas (slResumeMapInit totalChunks) 8 = none := by
  have wrapped : (totalChunks + 7).toNat < 8 := by
    rw [UInt32.toNat_add, show (7 : UInt32).toNat = 7 from rfl]
    have largest := totalChunks.toNat_lt
    omega
  have none_ : bitmapBytes totalChunks = 0 := by
    rw [bitmapBytes, octet_index, Nat.div_eq_of_lt wrapped]
  have single : (slResumeMapInit totalChunks).bits = [0] := by
    rw [bits_init, if_pos none_]
    rfl
  refine ⟨single, has_uncovered ?_ ?_⟩
  · change (8 : UInt32).toNat < totalChunks.toNat
    rw [show (8 : UInt32).toNat = 8 from rfl]
    omega
  · rw [Covers, single]
    decide

/-- Every access of every sequence of calls is inside the allocated array, exactly if the number
of octets did not wrap. -/
theorem accesses_inside_iff (totalChunks : UInt32) :
    ((∀ calls, Inside (slResumeMapInit totalChunks) calls) ∧
      ∀ bytes, ∃ result, slResumeMapDeserialize bytes totalChunks = some result ∧
        ∀ r ∈ result, ∀ calls, Inside r calls) ↔
      totalChunks.toNat ≤ 2 ^ 32 - 8 := by
  constructor
  · intro ⟨inside, _⟩
    by_contra many
    obtain ⟨r', result, _⟩ := inside [.has 8]
    rw [List.foldlM_cons, mapStep, (has_wrapped (Nat.lt_of_not_le many)).2] at result
    cases result
  · intro few
    have wide : Wide (slResumeMapInit totalChunks) := wide_of_length few rfl
    constructor
    · exact inside_of_wide wide
    · intro bytes
      obtain ⟨result, restored, wides⟩ := slResumeMapDeserialize_inside few bytes
      exact ⟨result, restored, fun r member => inside_of_wide (wides r member)⟩

/-- Metadata with as many chunks as the field holds. -/
def mostChunks : SlFileMeta := toyMeta 0x3FFFFFFFC00 0xFFFFFFFF

theorem ninth_chunk_outside :
    slFileMetaValidate mostChunks = true ∧
      (slResumeMapInit mostChunks.totalChunks).bits.length = 1 ∧
      ¬ Inside (slResumeMapInit mostChunks.totalChunks) [.has 8] := by
  have outside := (@has_wrapped 0xFFFFFFFF (by decide)).2
  refine ⟨by decide, by decide, ?_⟩
  intro ⟨r', result, _⟩
  rw [List.foldlM_cons, mapStep, show mostChunks.totalChunks = 0xFFFFFFFF from rfl, outside] at result
  cases result

/-! ## The set of chunks -/

/-- The map answers like a set of chunks. -/
structure Refines (r : SlResumeMap) (chunks : Finset UInt32) : Prop where
  has : ∀ i, slResumeMapHas r i = some (decide (i ∈ chunks))
  received : r.receivedChunks.toNat = chunks.card
  complete : slResumeMapComplete r = true ↔ ∀ i < r.totalChunks, i ∈ chunks
  missing : ∃ absent : List UInt32, absent.Pairwise (· < ·) ∧
    (∀ i, i ∈ absent ↔ i < r.totalChunks ∧ i ∉ chunks) ∧
    ∀ outCap, slResumeMapMissing r outCap =
      some (absent.take outCap, decide (outCap < absent.length))

/-- What calls of `slResumeMapSet` lead to from a new map. -/
structure Reached (totalChunks : UInt32) (r : SlResumeMap) (seen : List UInt32) : Prop where
  total : r.totalChunks = totalChunks
  marks : r.Marks seen
  length : r.bits.length = (slResumeMapInit totalChunks).bits.length
  behind : r.bits.drop (bitmapBytes totalChunks) =
    (slResumeMapInit totalChunks).bits.drop (bitmapBytes totalChunks)

section Reached
variable {totalChunks : UInt32} (few : totalChunks.toNat ≤ 2 ^ 32 - 8) {r : SlResumeMap}
  {seen : List UInt32} (h : Reached totalChunks r seen)
include few h

theorem Reached.wide : Wide r :=
  wide_of_length (by rw [h.total]; exact few) (by rw [h.total]; exact h.length)

/-- One call: a chunk below the total is recorded, once. -/
theorem Reached.set (i : UInt32) :
    ∃ r' seen', slResumeMapSet r i = some r' ∧ Reached totalChunks r' seen' ∧
      ∀ j, j ∈ seen' ↔ j ∈ seen ∨ j = i ∧ i < totalChunks := by
  by_cases inside : i < totalChunks
  · have below : i < r.totalChunks := h.total ▸ inside
    have covered := h.wide few i below
    by_cases known : i ∈ seen
    · refine ⟨r, seen, h.marks.set_known covered known, h, fun j => ?_⟩
      constructor
      · exact Or.inl
      · intro either
        rcases either with old | ⟨rfl, _⟩
        · exact old
        · exact known
    · obtain ⟨r', result, marks, total, length⟩ := h.marks.set below covered known
      have octets : r.totalChunks.toNat ≤ 8 * bitmapBytes totalChunks := by
        rw [h.total, bitmapBytes_eq few]
        omega
      have behind := (set_keeps result).2.2 _ octets
      refine ⟨r', i :: seen, result,
        ⟨total.trans h.total, marks, length.trans h.length, behind.trans h.behind⟩, fun j => ?_⟩
      rw [List.mem_cons, or_comm, and_iff_left inside]
  · have outside : r.totalChunks ≤ i := by
      rw [h.total]
      exact UInt32.not_lt.mp inside
    exact ⟨r, seen, set_outside outside, h, fun j => by simp [inside]⟩

/-- All calls. -/
theorem Reached.sets (sets : List UInt32) :
    ∃ r' seen', sets.foldlM slResumeMapSet r = some r' ∧ Reached totalChunks r' seen' ∧
      ∀ j, j ∈ seen' ↔ j ∈ seen ∨ j ∈ sets ∧ j < totalChunks := by
  induction sets generalizing r seen with
  | nil => exact ⟨r, seen, rfl, h, by simp⟩
  | cons i sets ih =>
    obtain ⟨next, seen₁, step, reached, members₁⟩ := h.set few i
    obtain ⟨last, seen₂, rest, reached₂, members₂⟩ := ih reached
    refine ⟨last, seen₂, ?_, reached₂, fun j => ?_⟩
    · rw [List.foldlM_cons, step]
      exact rest
    · rw [members₂, members₁, List.mem_cons]
      constructor
      · intro either
        rcases either with (old | ⟨rfl, inside⟩) | ⟨later, inside⟩
        · exact Or.inl old
        · exact Or.inr ⟨Or.inl rfl, inside⟩
        · exact Or.inr ⟨Or.inr later, inside⟩
      · intro either
        rcases either with old | ⟨rfl | later, inside⟩
        · exact Or.inl (Or.inl old)
        · exact Or.inl (Or.inr ⟨rfl, inside⟩)
        · exact Or.inr ⟨later, inside⟩

theorem Reached.reads : ∀ i < r.totalChunks, slResumeMapHas r i = some (decide (i ∈ seen)) :=
  fun i below => h.marks.has below (h.wide few i below)

theorem Reached.refines {chunks : Finset UInt32} (same : ∀ i, i ∈ seen ↔ i ∈ chunks) :
    Refines r chunks where
  has i := by
    by_cases below : i < r.totalChunks
    · rw [h.reads few i below, decide_eq_decide.mpr (same i)]
    · have absent : i ∉ chunks := fun member => below (h.marks.below i ((same i).mpr member))
      rw [slResumeMapHas, if_pos (UInt32.not_lt.mp below), decide_eq_false absent]
  received := by
    have equal : chunks = seen.toFinset := by
      ext i
      rw [List.mem_toFinset, same]
    rw [h.marks.counted, equal, List.toFinset_card_of_nodup h.marks.distinct]
  complete := by
    rw [h.marks.complete_iff]
    exact forall₂_congr fun i _ => same i
  missing := by
    refine ⟨_, (indices_increasing r.totalChunks).filter _, fun i => ?_,
      slResumeMapMissing_eq (h.reads few)⟩
    rw [List.mem_filter, mem_indices, ← same]
    simp

omit few in
/-- The bits of the whole map count the chunks. -/
theorem Reached.counts : (indices r.totalChunks).countP (fun i => decide (i ∈ seen)) = seen.length := by
  have distinct : (indices r.totalChunks).Nodup := (indices_increasing _).imp UInt32.ne_of_lt
  have perm : ((indices r.totalChunks).filter fun i => decide (i ∈ seen)).Perm seen := by
    rw [List.perm_ext_iff_of_nodup (distinct.filter _) h.marks.distinct]
    intro i
    rw [List.mem_filter, mem_indices, decide_eq_true_eq]
    exact and_iff_right_of_imp (h.marks.below i)
  rw [List.countP_eq_length_filter, perm.length_eq]

/-- A serialized map comes back as it was. -/
theorem Reached.restored (rest : List UInt8) :
    slResumeMapDeserialize (r.bits.take (bitmapBytes totalChunks) ++ rest) totalChunks =
      some (some r) := by
  have size : bitmapBytes totalChunks ≤ r.bits.length := by
    rw [h.length, bits_init, List.length_replicate]
    split <;> omega
  have taken : (r.bits.take (bitmapBytes totalChunks) ++ rest).take (bitmapBytes totalChunks) =
      r.bits.take (bitmapBytes totalChunks) :=
    List.take_left' (by rw [List.length_take, Nat.min_eq_left size])
  have long : bitmapBytes totalChunks ≤ (r.bits.take (bitmapBytes totalChunks) ++ rest).length := by
    rw [List.length_append, List.length_take, Nat.min_eq_left size]
    exact Nat.le_add_right _ _
  have copied : (r.bits.take (bitmapBytes totalChunks) ++ rest).take (bitmapBytes totalChunks) ++
      (slResumeMapInit totalChunks).bits.drop (bitmapBytes totalChunks) = r.bits := by
    rw [taken, ← h.behind, List.take_append_drop]
  have reads : ∀ i < r.totalChunks, slResumeMapHas { r with receivedChunks := 0 } i =
      some (decide (i ∈ seen)) := h.reads few
  have counted : countLoop { r with receivedChunks := 0 } r.totalChunks.toNat 0 0 =
      some r.receivedChunks := by
    have whole := @countLoop_eq { r with receivedChunks := 0 } _ reads _ _
      (Nat.le_of_eq (Nat.zero_add r.totalChunks.toNat)) 0
    rw [UInt32.zero_add, ← indices, h.counts, ← h.marks.counted, UInt32.ofNat_toNat] at whole
    exact whole
  rw [slResumeMapDeserialize_eq long copied, ← h.total, counted]
  rfl

end Reached

/-- After any calls of `slResumeMapSet` on a new map it answers like the set of the indices below
the total that were given, and so does what its serialized form, with anything behind it, gives. -/
theorem resume_map_refines_set {totalChunks : UInt32} (few : totalChunks.toNat ≤ 2 ^ 32 - 8)
    (sets : List UInt32) :
    ∃ r, sets.foldlM slResumeMapSet (slResumeMapInit totalChunks) = some r ∧
      r.totalChunks = totalChunks ∧ Refines r (sets.filter (· < totalChunks)).toFinset ∧
      ∀ outCap ≥ bitmapBytes totalChunks, ∃ bytes, slResumeMapSerialize r outCap = some bytes ∧
        ∀ rest, slResumeMapDeserialize (bytes ++ rest) totalChunks = some (some r) := by
  have start : Reached totalChunks (slResumeMapInit totalChunks) [] :=
    ⟨rfl, marks_init totalChunks, rfl, rfl⟩
  obtain ⟨r, seen, result, reached, members⟩ := start.sets few sets
  refine ⟨r, result, reached.total, reached.refines few fun i => ?_, fun outCap room => ?_⟩
  · rw [members, List.mem_toFinset, List.mem_filter]
    simp
  · refine ⟨r.bits.take (bitmapBytes totalChunks), ?_, reached.restored few⟩
    rw [slResumeMapSerialize, reached.total, if_neg (Nat.not_lt.mpr room)]

/-- A chunk twice and one that does not exist. -/
theorem two_of_ten_recorded :
    ∃ r, [3, 3, 12, 9].foldlM slResumeMapSet (slResumeMapInit 10) = some r ∧ Refines r {3, 9} := by
  have chunks : ([3, 3, 12, 9].filter (· < (10 : UInt32))).toFinset = {3, 9} := by decide
  obtain ⟨r, result, _, refines, _⟩ :=
    @resume_map_refines_set 10 (by decide) [3, 3, 12, 9]
  rw [chunks] at refines
  exact ⟨r, result, refines⟩

end SecureLink.Guarantees.ResumeBitmap
