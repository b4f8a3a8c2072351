import Mathlib.Algebra.Order.BigOperators.Group.Finset

/-!
# Interleaved streams

A log of tagged pieces, what it holds for one tag, and how much it holds in all. Two
logs are compared in total once they are compared tag by tag.
-/
namespace SecureLink.Library.Tagged

variable {κ α : Type*}

/-- How much is logged in all. -/
def total (log : List (κ × List α)) : Nat := (log.flatMap Prod.snd).length

@[simp] theorem total_nil : total ([] : List (κ × List α)) = 0 := rfl

@[simp] theorem total_cons (entry : κ × List α) (log : List (κ × List α)) :
    total (entry :: log) = entry.2.length + total log := by
  simp [total]

@[simp] theorem total_append (a b : List (κ × List α)) : total (a ++ b) = total a + total b := by
  simp [total]

variable [DecidableEq κ]

/-- Everything logged under a key, in order. -/
def payload (key : κ) (log : List (κ × List α)) : List α :=
  log.flatMap fun entry => if entry.1 = key then entry.2 else []

@[simp] theorem payload_nil (key : κ) : payload key ([] : List (κ × List α)) = [] := rfl

@[simp] theorem payload_cons (key : κ) (entry : κ × List α) (log : List (κ × List α)) :
    payload key (entry :: log) = (if entry.1 = key then entry.2 else []) ++ payload key log := rfl

@[simp] theorem payload_append (key : κ) (a b : List (κ × List α)) :
    payload key (a ++ b) = payload key a ++ payload key b := by
  simp [payload]

/-- The total is a sum over any set of keys that covers the log. -/
theorem total_eq_sum (log : List (κ × List α)) (keys : Finset κ)
    (covers : ∀ entry ∈ log, entry.1 ∈ keys) :
    total log = ∑ key ∈ keys, (payload key log).length := by
  induction log with
  | nil => simp
  | cons entry rest ih =>
    have here : ∑ key ∈ keys, (if entry.1 = key then entry.2 else []).length = entry.2.length := by
      rw [Finset.sum_eq_single_of_mem entry.1 (covers entry (by simp))]
      · simp
      · intro key _ different
        simp [Ne.symm different]
    have later := ih (fun e he => covers e (by simp [he]))
    simp only [total_cons, payload_cons, List.length_append, Finset.sum_add_distrib, here, later]

/-- A log that holds no more under any key holds no more in all. -/
theorem total_le_total {a b : List (κ × List α)}
    (h : ∀ key, (payload key a).length ≤ (payload key b).length) : total a ≤ total b := by
  let keys : Finset κ := (a.map Prod.fst).toFinset ∪ (b.map Prod.fst).toFinset
  have left : ∀ entry ∈ a, entry.1 ∈ keys := fun entry he =>
    Finset.mem_union_left _ (List.mem_toFinset.mpr (List.mem_map_of_mem he))
  have right : ∀ entry ∈ b, entry.1 ∈ keys := fun entry he =>
    Finset.mem_union_right _ (List.mem_toFinset.mpr (List.mem_map_of_mem he))
  rw [total_eq_sum a keys left, total_eq_sum b keys right]
  exact Finset.sum_le_sum fun key _ => h key

end SecureLink.Library.Tagged
