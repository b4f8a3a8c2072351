import Mathlib.Data.List.AList

/-!
# Finite tables

Operations on a whole table with unique keys, and what a look-up sees afterwards. The
entries before an operation are, up to order, those it takes out and those it leaves.
-/
namespace SecureLink.Library.Table

variable {κ α : Type*}

/-- Every value replaced. -/
def mapValues (f : κ → α → α) (t : AList fun _ : κ => α) : AList fun _ : κ => α :=
  ⟨t.entries.map (Sigma.map id f), t.nodupKeys.map₂ f _⟩

/-- The entries that satisfy a predicate. -/
def keep (p : κ → α → Bool) (t : AList fun _ : κ => α) : AList fun _ : κ => α :=
  ⟨t.entries.filter fun e => p e.1 e.2, t.nodupKeys.sublist List.filter_sublist⟩

/-- The number of entries. -/
def size (t : AList fun _ : κ => α) : Nat := t.entries.length

theorem keep_perm (p : κ → α → Bool) (t : AList fun _ : κ => α) :
    t.entries.Perm ((t.entries.filter fun e => !p e.1 e.2) ++ (keep p t).entries) :=
  (List.filter_append_perm (fun e : (_ : κ) × α => p e.1 e.2) t.entries).symm.trans
    List.perm_append_comm

variable [DecidableEq κ]

@[simp] theorem lookup_mapValues (f : κ → α → α) (t : AList fun _ : κ => α) (k : κ) :
    (mapValues f t).lookup k = (t.lookup k).map (f k) :=
  List.dlookup_map₂ k

theorem lookup_keep (p : κ → α → Bool) (t : AList fun _ : κ => α) (k : κ) :
    (keep p t).lookup k = (t.lookup k).filter (p k) := by
  ext v
  rw [← Option.mem_def, ← Option.mem_def, Option.mem_filter_iff, AList.mem_lookup_iff,
    AList.mem_lookup_iff]
  exact List.mem_filter

theorem erase_perm {t : AList fun _ : κ => α} {k : κ} {v : α} (found : t.lookup k = some v) :
    t.entries.Perm (⟨k, v⟩ :: (t.erase k).entries) := by
  have member : k ∈ t.entries.keys := AList.lookup_isSome.mp (by rw [found]; rfl)
  obtain ⟨w, front, back, fresh, whole, erased⟩ := List.exists_of_kerase member
  have value : t.lookup k = some w := by
    apply AList.mem_lookup_iff.mpr
    rw [whole]
    simp
  obtain rfl : v = w := Option.some.inj (found.symm.trans value)
  have left : (t.erase k).entries = front ++ back := erased
  rw [left, whole]
  exact List.perm_middle

/-- A new entry stands in front of the others. -/
theorem insert_perm {t : AList fun _ : κ => α} {k : κ} (fresh : t.lookup k = none) (v : α) :
    (t.insert k v).entries = ⟨k, v⟩ :: t.entries :=
  AList.entries_insert_of_notMem (AList.lookup_eq_none.mp fresh)

end SecureLink.Library.Table
