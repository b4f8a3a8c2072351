import SecureLink.Library.ByteBitmap

/-!
# Resume map

src/sl_resume_map.c:6-82. The number of octets is computed in 32 bits, so for the largest chunk
counts the array is shorter than the chunks need; an access behind its end is undefined and
gives `none`.
-/
namespace SecureLink.Source.Transfer
open Library.ByteBitmap

structure SlResumeMap where
  bits : List UInt8 := []
  totalChunks : UInt32 := 0
  receivedChunks : UInt32 := 0
deriving DecidableEq

def slResumeMapInit (totalChunks : UInt32) : SlResumeMap :=
  let bytes := ((totalChunks + 7) / 8).toNat
  { bits := List.replicate (if bytes = 0 then 1 else bytes) 0, totalChunks, receivedChunks := 0 }

/-- `none` is undefined. -/
def slResumeMapSet (r : SlResumeMap) (chunkIndex : UInt32) : Option SlResumeMap :=
  if chunkIndex ≥ r.totalChunks then some r
  else
    (r.bits[(chunkIndex / 8).toNat]?).map fun byte =>
      let mask : UInt8 := 1 <<< (chunkIndex % 8).toUInt8
      if byte &&& mask == 0 then
        { r with
          bits := r.bits.set (chunkIndex / 8).toNat (byte ||| mask)
          receivedChunks := r.receivedChunks + 1 }
      else r

/-- `none` is undefined. -/
def slResumeMapHas (r : SlResumeMap) (chunkIndex : UInt32) : Option Bool :=
  if chunkIndex ≥ r.totalChunks then some false
  else (r.bits[(chunkIndex / 8).toNat]?).map fun byte =>
    byte >>> (chunkIndex % 8).toUInt8 &&& 1 != 0

def slResumeMapComplete (r : SlResumeMap) : Bool := r.receivedChunks == r.totalChunks

/-- The loop over the chunks from `i` on, with those found so far. The flag says that there are
more; `none` is undefined. -/
def missingLoop (r : SlResumeMap) (outCap : Nat) :
    Nat → UInt32 → List UInt32 → Option (List UInt32 × Bool)
  | 0, _, found => some (found, false)
  | left + 1, i, found =>
    (slResumeMapHas r i).bind fun has =>
      if has then missingLoop r outCap left (i + 1) found
      else if found.length < outCap then missingLoop r outCap left (i + 1) (found ++ [i])
      else some (found, true)

def slResumeMapMissing (r : SlResumeMap) (outCap : Nat) : Option (List UInt32 × Bool) :=
  missingLoop r outCap r.totalChunks.toNat 0 []

/-- The number of octets, as each function computes it. -/
def bitmapBytes (totalChunks : UInt32) : Nat := ((totalChunks + 7) / 8).toNat

/-- The array has at least as many octets, whichever the map. -/
def slResumeMapSerialize (r : SlResumeMap) (outCap : Nat) : Option (List UInt8) :=
  if outCap < bitmapBytes r.totalChunks then none else some (r.bits.take (bitmapBytes r.totalChunks))

/-- The loop that counts the chunks from `i` on; `none` is undefined. -/
def countLoop (r : SlResumeMap) : Nat → UInt32 → UInt32 → Option UInt32
  | 0, _, received => some received
  | left + 1, i, received =>
    (slResumeMapHas r i).bind fun has =>
      countLoop r left (i + 1) (if has then received + 1 else received)

/-- `none` is undefined; a failed call is `some none`. -/
def slResumeMapDeserialize (bytes : List UInt8) (totalChunks : UInt32) : Option (Option SlResumeMap) :=
  if bytes.length < bitmapBytes totalChunks then some none
  else
    let r := slResumeMapInit totalChunks
    let r := { r with
      bits := bytes.take (bitmapBytes totalChunks) ++ r.bits.drop (bitmapBytes totalChunks) }
    (countLoop r totalChunks.toNat 0 0).map fun receivedChunks => some { r with receivedChunks }

namespace SlResumeMap
variable {r : SlResumeMap} {seen : List UInt32} {i : UInt32}

/-- The array has the octet of the index. -/
def Covers (r : SlResumeMap) (i : UInt32) : Prop := i.toNat / 8 < r.bits.length

instance (r : SlResumeMap) (i : UInt32) : Decidable (r.Covers i) :=
  inferInstanceAs (Decidable (i.toNat / 8 < r.bits.length))

/-- The map records exactly the given chunks. -/
structure Marks (r : SlResumeMap) (seen : List UInt32) : Prop where
  distinct : seen.Nodup
  below : ∀ i ∈ seen, i < r.totalChunks
  counted : r.receivedChunks.toNat = seen.length
  bits : ∀ i, r.Covers i → bitAt r.bits i.toNat = some (decide (i ∈ seen))

theorem octet_index (i : UInt32) : (i / 8).toNat = i.toNat / 8 := by simp

theorem bit_index (i : UInt32) : (i % 8).toUInt8 = UInt8.ofNat (i.toNat % 8) := by
  apply UInt8.toNat_inj.mp
  simp

theorem marks_init (totalChunks : UInt32) : Marks (slResumeMapInit totalChunks) [] where
  distinct := List.nodup_nil
  below := by simp
  counted := rfl
  bits i inside := by
    rw [Covers, slResumeMapInit, List.length_replicate] at inside
    rw [slResumeMapInit, bitAt_replicate inside]
    rfl

theorem bits_init (totalChunks : UInt32) : (slResumeMapInit totalChunks).bits =
    List.replicate (if bitmapBytes totalChunks = 0 then 1 else bitmapBytes totalChunks) 0 := rfl

theorem bitmapBytes_eq {totalChunks : UInt32} (few : totalChunks.toNat ≤ 2 ^ 32 - 8) :
    bitmapBytes totalChunks = (totalChunks.toNat + 7) / 8 := by
  have sum : (totalChunks + 7).toNat = totalChunks.toNat + 7 := by
    rw [UInt32.toNat_add]
    exact Nat.mod_eq_of_lt (by simp; omega)
  rw [bitmapBytes, octet_index, sum]

theorem covers_init {totalChunks : UInt32} (few : totalChunks.toNat ≤ 2 ^ 32 - 8)
    (hi : i < totalChunks) : (slResumeMapInit totalChunks).Covers i := by
  have bytes : ((totalChunks + 7) / 8).toNat = (totalChunks.toNat + 7) / 8 := bitmapBytes_eq few
  have small : i.toNat < totalChunks.toNat := hi
  rw [Covers, slResumeMapInit, List.length_replicate, bytes]
  split <;> omega

/-- For the largest count the array has a single octet. -/
example : slResumeMapHas (slResumeMapInit 0xFFFFFFFF) 8 = none := by decide

theorem has_eq (hi : i < r.totalChunks) : slResumeMapHas r i = bitAt r.bits i.toNat := by
  rw [slResumeMapHas, if_neg (UInt32.not_le.mpr hi), octet_index, bit_index, bitAt]
  congr 1
  funext byte
  exact shifted_and_one byte (Nat.mod_lt _ (by decide))

theorem has_uncovered (hi : i < r.totalChunks) (outside : ¬ r.Covers i) :
    slResumeMapHas r i = none := by
  rw [has_eq hi, bitAt, List.getElem?_eq_none (Nat.le_of_not_lt outside), Option.map_none]

theorem Marks.has (h : Marks r seen) (hi : i < r.totalChunks) (inside : r.Covers i) :
    slResumeMapHas r i = some (decide (i ∈ seen)) :=
  (has_eq hi).trans (h.bits i inside)

/-- The indices as numbers below the total. -/
theorem Marks.indices (h : Marks r seen) :
    (seen.map UInt32.toNat).Nodup ∧ ∀ n ∈ seen.map UInt32.toNat, n < r.totalChunks.toNat := by
  refine ⟨h.distinct.map fun _ _ => UInt32.toNat_inj.mp, fun n hn => ?_⟩
  obtain ⟨i, hi, rfl⟩ := List.mem_map.mp hn
  exact h.below i hi

/-- A chunk that is missing leaves the count below the total. -/
theorem Marks.room (h : Marks r seen) (hi : i < r.totalChunks) (new : i ∉ seen) :
    seen.length < r.totalChunks.toNat := by
  have distinct : (i.toNat :: seen.map UInt32.toNat).Nodup := by
    refine List.nodup_cons.mpr ⟨fun known => new ?_, h.indices.1⟩
    obtain ⟨j, hj, same⟩ := List.mem_map.mp known
    rwa [← UInt32.toNat_inj.mp same]
  have bounded := length_le_of_below distinct (List.forall_mem_cons.mpr ⟨hi, h.indices.2⟩)
  rwa [List.length_cons, List.length_map] at bounded

/-- The counter does not wrap below the total. -/
theorem Marks.counted_succ (h : Marks r seen) (room : seen.length < r.totalChunks.toNat) :
    (r.receivedChunks + 1).toNat = seen.length + 1 := by
  have total := r.totalChunks.toNat_lt
  rw [UInt32.toNat_add, h.counted]
  exact Nat.mod_eq_of_lt (by simp; omega)

/-- The octet of an index, and what the test of the mask against it says. -/
theorem Marks.octet (h : Marks r seen) (inside : r.Covers i) :
    ∃ byte, r.bits[i.toNat / 8]? = some byte ∧
      (byte &&& (1 : UInt8) <<< UInt8.ofNat (i.toNat % 8) == 0) = !decide (i ∈ seen) := by
  obtain ⟨byte, old⟩ : ∃ byte, r.bits[i.toNat / 8]? = some byte :=
    ⟨_, List.getElem?_eq_getElem inside⟩
  have bit := h.bits i inside
  rw [bitAt, old, Option.map_some, Option.some.injEq] at bit
  refine ⟨byte, old, ?_⟩
  rw [and_mask_eq_zero byte (Nat.mod_lt i.toNat (show 8 > 0 by decide)), bit]

/-- A new chunk is recorded and counted. -/
theorem Marks.set (h : Marks r seen) (hi : i < r.totalChunks) (inside : r.Covers i) (new : i ∉ seen) :
    ∃ r', slResumeMapSet r i = some r' ∧ Marks r' (i :: seen) ∧
      r'.totalChunks = r.totalChunks ∧ r'.bits.length = r.bits.length := by
  obtain ⟨byte, old, free⟩ := h.octet inside
  rw [decide_eq_false new, Bool.not_false] at free
  refine ⟨{ r with
    bits := r.bits.set (i.toNat / 8) (byte ||| (1 : UInt8) <<< UInt8.ofNat (i.toNat % 8))
    receivedChunks := r.receivedChunks + 1 }, ?_, ?_, rfl, List.length_set⟩
  · rw [slResumeMapSet, if_neg (UInt32.not_le.mpr hi), octet_index, bit_index, old,
      Option.map_some, if_pos free]
  · refine ⟨List.nodup_cons.mpr ⟨new, h.distinct⟩, List.forall_mem_cons.mpr ⟨hi, h.below⟩, ?_, ?_⟩
    · rw [h.counted_succ (h.room hi new), List.length_cons]
    · intro j covered
      rw [Covers, List.length_set] at covered
      rw [bitAt_set old, h.bits j covered, Option.map_some]
      have same : (j.toNat == i.toNat) = decide (j = i) := by
        rw [Bool.eq_iff_iff, beq_iff_eq, decide_eq_true_eq]
        exact UInt32.toNat_inj
      simp only [same, List.mem_cons, Bool.decide_or, Bool.or_comm]

theorem Marks.complete_iff_length (h : Marks r seen) :
    slResumeMapComplete r = true ↔ seen.length = r.totalChunks.toNat := by
  rw [slResumeMapComplete, beq_iff_eq, ← UInt32.toNat_inj, h.counted]

/-- One more chunk fills the map exactly if the count was one short. -/
theorem Marks.complete_cons_iff {r' : SlResumeMap} (h : Marks r seen) (h' : Marks r' (i :: seen))
    (total : r'.totalChunks = r.totalChunks) :
    slResumeMapComplete r' = true ↔ r.receivedChunks + 1 = r.totalChunks := by
  have bound := length_le_of_below h'.indices.1 h'.indices.2
  rw [List.length_map, List.length_cons, total] at bound
  rw [h'.complete_iff_length, ← UInt32.toNat_inj, h.counted_succ bound, total, List.length_cons]

/-- The count is full exactly if no chunk is missing. -/
theorem Marks.complete_iff (h : Marks r seen) :
    slResumeMapComplete r = true ↔ ∀ i < r.totalChunks, i ∈ seen := by
  rw [h.complete_iff_length]
  refine ⟨fun full i hi => ?_, fun all => ?_⟩
  · have known := mem_of_length_eq h.indices.1 h.indices.2 (by rw [List.length_map, full]) hi
    obtain ⟨j, hj, same⟩ := List.mem_map.mp known
    rwa [← UInt32.toNat_inj.mp same]
  · have bounded := length_le_of_below h.indices.1 h.indices.2
    rw [List.length_map] at bounded
    have covered : List.range r.totalChunks.toNat ⊆ seen.map UInt32.toNat := by
      intro n hn
      have small := List.mem_range.mp hn
      have total := r.totalChunks.toNat_lt
      have value : (UInt32.ofNat n).toNat = n := UInt32.toNat_ofNat_of_lt' (Nat.lt_trans small total)
      have below : UInt32.ofNat n < r.totalChunks := by
        rw [UInt32.lt_iff_toNat_lt, value]
        exact small
      rw [← value]
      exact List.mem_map_of_mem (all _ below)
    have long := (List.nodup_range.subperm covered).length_le
    rw [List.length_range, List.length_map] at long
    exact Nat.le_antisymm bounded long

/-- A chunk that is recorded already changes nothing. -/
theorem Marks.set_known (h : Marks r seen) (inside : r.Covers i) (known : i ∈ seen) :
    slResumeMapSet r i = some r := by
  obtain ⟨byte, old, taken⟩ := h.octet inside
  rw [decide_eq_true known, Bool.not_true] at taken
  rw [slResumeMapSet, if_neg (UInt32.not_le.mpr (h.below i known)), octet_index, bit_index, old,
    Option.map_some, if_neg (by rw [taken]; exact Bool.false_ne_true)]

theorem set_outside (outside : r.totalChunks ≤ i) : slResumeMapSet r i = some r := by
  rw [slResumeMapSet, if_pos outside]

/-- A call leaves the total, the size of the array, and the octets behind that of the index. -/
theorem set_keeps {r' : SlResumeMap} (result : slResumeMapSet r i = some r') :
    r'.totalChunks = r.totalChunks ∧ r'.bits.length = r.bits.length ∧
      ∀ n, r.totalChunks.toNat ≤ 8 * n → r'.bits.drop n = r.bits.drop n := by
  rw [slResumeMapSet, octet_index] at result
  by_cases outside : r.totalChunks ≤ i
  · rw [if_pos outside] at result
    cases result
    exact ⟨rfl, rfl, fun _ _ => rfl⟩
  · have below : i.toNat < r.totalChunks.toNat := UInt32.not_le.mp outside
    rw [if_neg outside] at result
    obtain ⟨byte, old, rfl⟩ := Option.map_eq_some_iff.mp result
    dsimp only
    split
    · exact ⟨rfl, List.length_set, fun n behind => List.drop_set_of_lt (by omega)⟩
    · exact ⟨rfl, rfl, fun _ _ => rfl⟩

theorem slResumeMapDeserialize_eq {bytes : List UInt8} {totalChunks : UInt32}
    (long : bitmapBytes totalChunks ≤ bytes.length) {bits : List UInt8}
    (copied : bytes.take (bitmapBytes totalChunks) ++
      (slResumeMapInit totalChunks).bits.drop (bitmapBytes totalChunks) = bits) :
    slResumeMapDeserialize bytes totalChunks =
      (countLoop ⟨bits, totalChunks, 0⟩ totalChunks.toNat 0 0).map fun receivedChunks =>
        some ⟨bits, totalChunks, receivedChunks⟩ := by
  rw [slResumeMapDeserialize, if_neg (Nat.not_lt.mpr long), ← copied]
  rfl

/-! ## The loops over all chunks -/

/-- The indices from `first` on. -/
def indicesFrom (first count : Nat) : List UInt32 := (List.range' first count).map UInt32.ofNat

/-- All indices below a total. -/
def indices (totalChunks : UInt32) : List UInt32 := indicesFrom 0 totalChunks.toNat

theorem indicesFrom_succ (first count : Nat) :
    indicesFrom first (count + 1) = UInt32.ofNat first :: indicesFrom (first + 1) count := by
  rw [indicesFrom, List.range'_succ, List.map_cons, indicesFrom]

theorem mem_indices {totalChunks : UInt32} : i ∈ indices totalChunks ↔ i < totalChunks := by
  have total := totalChunks.toNat_lt
  rw [indices, indicesFrom, List.mem_map, UInt32.lt_iff_toNat_lt]
  constructor
  · intro ⟨n, member, value⟩
    have small : n < totalChunks.toNat := by simpa using member
    rw [← value, UInt32.toNat_ofNat_of_lt' (Nat.lt_trans small total)]
    exact small
  · intro small
    exact ⟨i.toNat, by simpa using small, UInt32.ofNat_toNat⟩

theorem indices_increasing (totalChunks : UInt32) : (indices totalChunks).Pairwise (· < ·) := by
  rw [indices, indicesFrom, List.pairwise_map]
  refine List.Pairwise.imp_of_mem ?_ List.pairwise_lt_range'
  intro a b inA inB less
  have total := totalChunks.toNat_lt
  have smallA : a < totalChunks.toNat := by simpa using inA
  have smallB : b < totalChunks.toNat := by simpa using inB
  rw [UInt32.lt_iff_toNat_lt, UInt32.toNat_ofNat_of_lt' (Nat.lt_trans smallA total),
    UInt32.toNat_ofNat_of_lt' (Nat.lt_trans smallB total)]
  exact less

section Loops
variable {marked : UInt32 → Bool}
  (reads : ∀ i < r.totalChunks, slResumeMapHas r i = some (marked i))
include reads

/-- The index of a round is below the total. -/
theorem reads_round {first count : Nat} (within : first + (count + 1) ≤ r.totalChunks.toNat) :
    slResumeMapHas r (UInt32.ofNat first) = some (marked (UInt32.ofNat first)) := by
  have total := r.totalChunks.toNat_lt
  apply reads
  rw [UInt32.lt_iff_toNat_lt, UInt32.toNat_ofNat_of_lt' (Nat.lt_of_lt_of_le (by omega) (Nat.le_of_lt total))]
  omega

theorem missingLoop_eq (outCap : Nat) {first count : Nat} {found : List UInt32}
    (within : first + count ≤ r.totalChunks.toNat) (room : found.length ≤ outCap) :
    missingLoop r outCap count (UInt32.ofNat first) found =
      some (found ++ ((indicesFrom first count).filter (!marked ·)).take (outCap - found.length),
        decide (outCap - found.length < ((indicesFrom first count).filter (!marked ·)).length)) := by
  induction count generalizing first found with
  | zero => simp [missingLoop, indicesFrom]
  | succ count ih =>
    have next : UInt32.ofNat first + 1 = UInt32.ofNat (first + 1) := (UInt32.ofNat_add first 1).symm
    rw [missingLoop, reads_round reads within, Option.bind_some, next, indicesFrom_succ]
    cases isMarked : marked (UInt32.ofNat first) with
    | true =>
      rw [if_pos rfl, ih (by omega) room, List.filter_cons_of_neg (by simp [isMarked])]
    | false =>
      rw [if_neg Bool.false_ne_true, List.filter_cons_of_pos (by simp [isMarked])]
      by_cases more : found.length < outCap
      · have left : outCap - found.length = outCap - (found ++ [UInt32.ofNat first]).length + 1 := by
          rw [List.length_append, List.length_singleton]
          omega
        rw [if_pos more, ih (by omega) (by simpa using Nat.succ_le_of_lt more), left, List.take_succ_cons,
          List.append_assoc, List.singleton_append, List.length_cons]
        simp only [Nat.add_lt_add_iff_right]
      · have full : outCap - found.length = 0 := by omega
        rw [if_neg more, full]
        simp

theorem slResumeMapMissing_eq (outCap : Nat) :
    slResumeMapMissing r outCap =
      some (((indices r.totalChunks).filter (!marked ·)).take outCap,
        decide (outCap < ((indices r.totalChunks).filter (!marked ·)).length)) := by
  have whole := @missingLoop_eq r marked reads outCap 0 r.totalChunks.toNat []
    (by rw [Nat.zero_add]) (Nat.zero_le _)
  rw [List.nil_append, List.length_nil, Nat.sub_zero] at whole
  exact whole

theorem countLoop_eq {first count : Nat} (within : first + count ≤ r.totalChunks.toNat)
    (received : UInt32) :
    countLoop r count (UInt32.ofNat first) received =
      some (received + UInt32.ofNat ((indicesFrom first count).countP marked)) := by
  induction count generalizing first received with
  | zero => simp [countLoop, indicesFrom]
  | succ count ih =>
    have next : UInt32.ofNat first + 1 = UInt32.ofNat (first + 1) := (UInt32.ofNat_add first 1).symm
    rw [countLoop, reads_round reads within, Option.bind_some, next, ih (by omega), indicesFrom_succ]
    cases isMarked : marked (UInt32.ofNat first) with
    | true =>
      rw [if_pos rfl, List.countP_cons_of_pos isMarked, UInt32.ofNat_add, UInt32.add_assoc,
        UInt32.add_comm 1]
      rfl
    | false => rw [if_neg Bool.false_ne_true, List.countP_cons_of_neg (by simp [isMarked])]

end Loops

end SlResumeMap

end SecureLink.Source.Transfer
