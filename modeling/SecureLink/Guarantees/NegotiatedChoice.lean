import Mathlib.Order.Bounds.Basic
import SecureLink.Source.Handshake.Negotiation

/-!
# What is negotiated

A choice depends on which entries the lists have, and for suites on the order of the server's.
Lists hold no entry twice and come back from the wire as they were. So whoever reorders an offer
in transit changes nothing.
-/
namespace SecureLink.Guarantees.NegotiatedChoice
open Library.BigEndian Source.Handshake

/-- What the calls of the add function make of a new list, whether they succeed or not. -/
def versions (added : List UInt16) : SlVersionList :=
  added.foldl (fun l v => (slVersionListAdd l v).1) slVersionListInit

def suites (added : List UInt16) : SlCipherList :=
  added.foldl (fun l s => (slCipherListAdd l s).1) slCipherListInit

/-- The largest version of both lists, or 0 if there is none. -/
def HighestCommon (a b : SlVersionList) (chosen : UInt16) : Prop :=
  IsGreatest { v | v ∈ a.entries ∧ v ∈ b.entries } chosen ∨
    (∀ v ∈ a.entries, v ∉ b.entries) ∧ chosen = 0

/-- The first suite of the server that is supported and offered, or 0 if there is none. -/
def FirstSupported (s c : SlCipherList) (chosen : UInt16) : Prop :=
  (∃ before after, s.entries = before ++ chosen :: after ∧
    chosen ∈ c.entries ∧ slCipherIsSupported chosen = true ∧
    ∀ x ∈ before, ¬ (x ∈ c.entries ∧ slCipherIsSupported x = true)) ∨
  (∀ x ∈ s.entries, ¬ (x ∈ c.entries ∧ slCipherIsSupported x = true)) ∧ chosen = 0

/-! ## Lists -/

theorem adds_nodup {cap : Nat} (added : List UInt16) {l : ShortList cap} (distinct : l.entries.Nodup) :
    (added.foldl (fun l v => (shortListAdd l v).1) l).entries.Nodup := by
  induction added generalizing l with
  | nil => exact distinct
  | cons v rest ih => exact ih (shortListAdd_nodup distinct)

theorem versions_nodup (added : List UInt16) : (versions added).entries.Nodup :=
  adds_nodup added (l := shortListInit) List.nodup_nil

theorem suites_nodup (added : List UInt16) : (suites added).entries.Nodup :=
  adds_nodup added (l := shortListInit) List.nodup_nil

/-- A list without duplicates is encoded whenever it fits, and decoded to itself. -/
theorem survives_wire {cap : Nat} (byte : cap < 256) {l : ShortList cap} (distinct : l.entries.Nodup)
    {outCap : Nat} (room : 1 + l.entries.length * 2 ≤ outCap) :
    ∃ bytes, shortListEncode l outCap = some bytes ∧
      ∀ out rest, shortListDecode out (bytes ++ rest) = (l, 0) := by
  refine ⟨entriesWire l.entries, ?_, fun out rest => shortListDecode_wire byte distinct l.few out rest⟩
  rw [shortListEncode_eq, if_pos room]

/-- Entries in another order are decoded to the list in that order. -/
theorem reordered_decoded {cap : Nat} (byte : cap < 256) {l : ShortList cap} (distinct : l.entries.Nodup)
    {entries : List UInt16} (reordered : entries.Perm l.entries) (out : ShortList cap) (rest : Bytes) :
    ∃ offered : ShortList cap, shortListDecode out (entriesWire entries ++ rest) = (offered, 0) ∧
      ∀ v, v ∈ offered.entries ↔ v ∈ l.entries := by
  have few : entries.length ≤ cap := by
    rw [reordered.length_eq]
    exact l.few
  exact ⟨⟨entries, few⟩, shortListDecode_wire byte (reordered.nodup_iff.mpr distinct) few out rest,
    fun v => reordered.mem_iff⟩

/-! ## Versions -/

/-- The best so far is raised to the largest common version of the rest, and never lowered. -/
theorem slVersionChooseLoop_spec (b : SlVersionList) (entries : List UInt16) (best : UInt16) :
    best ≤ slVersionChooseLoop b entries best ∧
    (∀ v ∈ entries, v ∈ b.entries → v ≤ slVersionChooseLoop b entries best) ∧
    (slVersionChooseLoop b entries best = best ∨
      slVersionChooseLoop b entries best ∈ entries ∧ slVersionChooseLoop b entries best ∈ b.entries) := by
  induction entries generalizing best with
  | nil => exact ⟨UInt16.le_refl _, fun v member => absurd member List.not_mem_nil, Or.inl rfl⟩
  | cons x rest ih =>
    rw [slVersionChooseLoop]
    by_cases better : (slVersionListHas b x && decide (x > best)) = true
    · rw [if_pos better]
      rw [Bool.and_eq_true, decide_eq_true_eq] at better
      have common : x ∈ b.entries := shortListHas_iff.mp better.1
      obtain ⟨above, bound, found⟩ := ih x
      refine ⟨UInt16.le_trans (UInt16.le_of_lt better.2) above, ?_, Or.inr ?_⟩
      · intro v member inB
        rcases List.mem_cons.mp member with rfl | later
        · exact above
        · exact bound v later inB
      · rcases found with same | ⟨member, inB⟩
        · rw [same]
          exact ⟨List.mem_cons_self, common⟩
        · exact ⟨List.mem_cons_of_mem x member, inB⟩
    · rw [if_neg better]
      rw [Bool.and_eq_true, decide_eq_true_eq, not_and] at better
      obtain ⟨above, bound, found⟩ := ih best
      refine ⟨above, ?_, found.imp_right fun both => ⟨List.mem_cons_of_mem x both.1, both.2⟩⟩
      intro v member inB
      rcases List.mem_cons.mp member with rfl | later
      · exact UInt16.le_trans (UInt16.not_lt.mp (better (shortListHas_iff.mpr inB))) above
      · exact bound v later inB

theorem slVersionChoose_highest (a b : SlVersionList) : HighestCommon a b (slVersionChoose a b) := by
  obtain ⟨_, bound, found⟩ := slVersionChooseLoop_spec b a.entries 0
  rcases found with zero | common
  · by_cases disjoint : ∀ v ∈ a.entries, v ∉ b.entries
    · exact Or.inr ⟨disjoint, zero⟩
    · -- the only common version is 0 itself
      obtain ⟨v, inA, inB⟩ : ∃ v ∈ a.entries, v ∈ b.entries := by
        by_contra never
        exact disjoint fun v inA inB => never ⟨v, inA, inB⟩
      have least : v = 0 := by
        have small := bound v inA inB
        rw [zero] at small
        exact UInt16.le_antisymm small UInt16.zero_le
      refine Or.inl ⟨?_, fun w both => bound w both.1 both.2⟩
      rw [slVersionChoose, zero, ← least]
      exact ⟨inA, inB⟩
  · exact Or.inl ⟨common, fun w both => bound w both.1 both.2⟩

/-- The common versions determine the highest. -/
theorem HighestCommon.unique {a b a' b' : SlVersionList} {chosen chosen' : UInt16}
    (same : ∀ v, v ∈ a.entries ∧ v ∈ b.entries ↔ v ∈ a'.entries ∧ v ∈ b'.entries)
    (h : HighestCommon a b chosen) (h' : HighestCommon a' b' chosen') : chosen = chosen' := by
  have sets : { v | v ∈ a.entries ∧ v ∈ b.entries } = { v | v ∈ a'.entries ∧ v ∈ b'.entries } :=
    Set.ext same
  rcases h with greatest | ⟨none, zero⟩
  · rcases h' with greatest' | ⟨disjoint', _⟩
    · rw [← sets] at greatest'
      exact UInt16.le_antisymm (greatest'.2 greatest.1) (greatest.2 greatest'.1)
    · have both := (same chosen).mp greatest.1
      exact absurd both.2 (disjoint' chosen both.1)
  · rcases h' with greatest' | ⟨_, zero'⟩
    · have both := (same chosen').mpr greatest'.1
      exact absurd both.2 (none chosen' both.1)
    · rw [zero, zero']

theorem slVersionChoose_congr {a b a' b' : SlVersionList}
    (same : ∀ v, v ∈ a.entries ∧ v ∈ b.entries ↔ v ∈ a'.entries ∧ v ∈ b'.entries) :
    slVersionChoose a b = slVersionChoose a' b' :=
  (slVersionChoose_highest a b).unique same (slVersionChoose_highest a' b')

/-! ## Suites -/

theorem slCipherChooseLoop_first (c : SlCipherList) (entries : List UInt16) :
    (∃ before after, entries = before ++ slCipherChooseLoop c entries :: after ∧
      slCipherChooseLoop c entries ∈ c.entries ∧
      slCipherIsSupported (slCipherChooseLoop c entries) = true ∧
      ∀ x ∈ before, ¬ (x ∈ c.entries ∧ slCipherIsSupported x = true)) ∨
    (∀ x ∈ entries, ¬ (x ∈ c.entries ∧ slCipherIsSupported x = true)) ∧
      slCipherChooseLoop c entries = 0 := by
  induction entries with
  | nil => exact Or.inr ⟨fun x member => absurd member List.not_mem_nil, rfl⟩
  | cons s rest ih =>
    rw [slCipherChooseLoop]
    by_cases here : (slCipherListHas c s && slCipherIsSupported s) = true
    · rw [if_pos here]
      rw [Bool.and_eq_true] at here
      exact Or.inl ⟨[], rest, rfl, shortListHas_iff.mp here.1, here.2,
        fun x member => absurd member List.not_mem_nil⟩
    · rw [if_neg here]
      have passed : ¬ (s ∈ c.entries ∧ slCipherIsSupported s = true) := fun both =>
        here (Bool.and_eq_true _ _ ▸ ⟨shortListHas_iff.mpr both.1, both.2⟩)
      rcases ih with ⟨before, after, split, offered, supported, earlier⟩ | ⟨none, zero⟩
      · refine Or.inl ⟨s :: before, after, congrArg (s :: ·) split, offered, supported, ?_⟩
        exact List.forall_mem_cons.mpr ⟨passed, earlier⟩
      · exact Or.inr ⟨List.forall_mem_cons.mpr ⟨passed, none⟩, zero⟩

theorem slCipherChoose_congr {s c c' : SlCipherList} (same : ∀ x, x ∈ c.entries ↔ x ∈ c'.entries) :
    slCipherChoose s c = slCipherChoose s c' := by
  have has : ∀ x, slCipherListHas c x = slCipherListHas c' x := by
    intro x
    rw [Bool.eq_iff_iff]
    exact shortListHas_iff.trans ((same x).trans shortListHas_iff.symm)
  rw [slCipherChoose, slCipherChoose]
  induction s.entries with
  | nil => rfl
  | cons x rest ih => rw [slCipherChooseLoop, slCipherChooseLoop, has, ih]

/-! ## Both -/

/-- For all lists that were built: they survive the wire. The version is the highest common one,
whichever list is first and whatever the orders. The suite is the first of the server that is
supported and offered, whatever the order of the offer. An offer whose entries are reordered on the
wire is decoded, and leads to the same choice. -/
theorem negotiation_optimal :
    (∀ added outCap, 1 + (versions added).entries.length * 2 ≤ outCap →
      ∃ bytes, slVersionListEncode (versions added) outCap = some bytes ∧
        ∀ out rest, slVersionListDecode out (bytes ++ rest) = (versions added, 0)) ∧
    (∀ added outCap, 1 + (suites added).entries.length * 2 ≤ outCap →
      ∃ bytes, slCipherListEncode (suites added) outCap = some bytes ∧
        ∀ out rest, slCipherListDecode out (bytes ++ rest) = (suites added, 0)) ∧
    (∀ a b, HighestCommon (versions a) (versions b) (slVersionChoose (versions a) (versions b)) ∧
      slVersionChoose (versions a) (versions b) = slVersionChoose (versions b) (versions a) ∧
      ∀ a' b', (versions a').entries.Perm (versions a).entries →
        (versions b').entries.Perm (versions b).entries →
        slVersionChoose (versions a') (versions b') = slVersionChoose (versions a) (versions b)) ∧
    (∀ s c, FirstSupported (suites s) (suites c) (slCipherChoose (suites s) (suites c)) ∧
      ∀ c', (suites c').entries.Perm (suites c).entries →
        slCipherChoose (suites s) (suites c') = slCipherChoose (suites s) (suites c)) ∧
    (∀ a b entries, entries.Perm (versions b).entries → ∀ out rest, ∃ offered,
      slVersionListDecode out (entriesWire entries ++ rest) = (offered, 0) ∧
      slVersionChoose (versions a) offered = slVersionChoose (versions a) (versions b)) ∧
    (∀ s c entries, entries.Perm (suites c).entries → ∀ out rest, ∃ offered,
      slCipherListDecode out (entriesWire entries ++ rest) = (offered, 0) ∧
      slCipherChoose (suites s) offered = slCipherChoose (suites s) (suites c)) := by
  refine ⟨?_, ?_, ?_, ?_, ?_, ?_⟩
  · intro added outCap room
    exact survives_wire (by decide) (versions_nodup added) room
  · intro added outCap room
    exact survives_wire (by decide) (suites_nodup added) room
  · intro a b
    refine ⟨slVersionChoose_highest _ _, slVersionChoose_congr fun v => and_comm, ?_⟩
    intro a' b' orderA orderB
    exact slVersionChoose_congr fun v => and_congr orderA.mem_iff orderB.mem_iff
  · intro s c
    refine ⟨slCipherChooseLoop_first _ _, ?_⟩
    intro c' order
    exact slCipherChoose_congr fun x => order.mem_iff
  · intro a b entries order out rest
    obtain ⟨offered, decoded, same⟩ :=
      reordered_decoded (by decide) (versions_nodup b) order out rest
    exact ⟨offered, decoded, slVersionChoose_congr fun v => and_congr_right fun _ => same v⟩
  · intro s c entries order out rest
    obtain ⟨offered, decoded, same⟩ :=
      reordered_decoded (by decide) (suites_nodup c) order out rest
    exact ⟨offered, decoded, slCipherChoose_congr same⟩

end SecureLink.Guarantees.NegotiatedChoice
