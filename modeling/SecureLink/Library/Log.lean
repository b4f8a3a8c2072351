import Mathlib.Data.List.Basic

/-!
# Append-only logs

A log is the concatenation of the records of the operations made, in order. Cut to its
first bytes it is some whole records and possibly the beginning of one more.
-/
namespace SecureLink.Library.Log

variable {ω β : Type*} (record : ω → List β)

def log (ops : List ω) : List β := ops.flatMap record

/-- The operations whose records lie in the first `n` bytes of the log. -/
def whole : List ω → Nat → List ω
  | [], _ => []
  | op :: rest, n =>
    if (record op).length ≤ n then op :: whole rest (n - (record op).length) else []

/-- The operation whose record the cut falls into or before, and how much of it is left. -/
def torn : List ω → Nat → Option (ω × Nat)
  | [], _ => none
  | op :: rest, n =>
    if (record op).length ≤ n then torn rest (n - (record op).length) else some (op, n)

/-- What the torn record leaves in the log. -/
def tornBytes (ops : List ω) (n : Nat) : List β :=
  match torn record ops n with
  | none => []
  | some (op, left) => (record op).take left

variable {record}

@[simp] theorem log_nil : log record [] = [] := rfl

@[simp] theorem log_cons (op : ω) (ops : List ω) :
    log record (op :: ops) = record op ++ log record ops := rfl

theorem log_append (first second : List ω) :
    log record (first ++ second) = log record first ++ log record second :=
  List.flatMap_append

theorem take_log (ops : List ω) (n : Nat) :
    (log record ops).take n = log record (whole record ops n) ++ tornBytes record ops n := by
  induction ops generalizing n with
  | nil => simp [whole, tornBytes, torn]
  | cons op rest ih =>
    by_cases inside : (record op).length ≤ n
    · have later := ih (n - (record op).length)
      simp only [tornBytes] at later
      simp only [log_cons, List.take_append, List.take_of_length_le inside, later, whole, tornBytes,
        torn, if_pos inside, List.append_assoc]
    · have outside : n - (record op).length = 0 := by omega
      simp only [log_cons, List.take_append, outside, List.take_zero, List.append_nil, whole,
        tornBytes, torn, if_neg inside, log_nil, List.nil_append]

theorem torn_spec {ops : List ω} {n left : Nat} {op : ω} (h : torn record ops n = some (op, left)) :
    op ∈ ops ∧ left < (record op).length := by
  induction ops generalizing n with
  | nil => cases h
  | cons first rest ih =>
    by_cases inside : (record first).length ≤ n
    · obtain ⟨member, short⟩ := ih (by simpa only [torn, if_pos inside] using h)
      exact ⟨List.mem_cons_of_mem _ member, short⟩
    · simp only [torn, if_neg inside, Option.some.injEq, Prod.mk.injEq] at h
      obtain ⟨rfl, rfl⟩ := h
      exact ⟨List.mem_cons_self, Nat.not_le.mp inside⟩

/-- A cut behind the end tears nothing. -/
theorem whole_of_length_le {ops : List ω} {n : Nat} (h : (log record ops).length ≤ n) :
    whole record ops n = ops ∧ torn record ops n = none := by
  induction ops generalizing n with
  | nil => exact ⟨rfl, rfl⟩
  | cons op rest ih =>
    rw [log_cons, List.length_append] at h
    have inside : (record op).length ≤ n := by omega
    obtain ⟨all, intact⟩ := ih (n := n - (record op).length) (by omega)
    exact ⟨by simp only [whole, if_pos inside, all], by simp only [torn, if_pos inside, intact]⟩

theorem length_record_le {ops : List ω} {op : ω} (member : op ∈ ops) :
    (record op).length ≤ (log record ops).length := by
  induction ops with
  | nil => cases member
  | cons first rest ih =>
    rw [log_cons, List.length_append]
    rcases List.mem_cons.mp member with rfl | later
    · omega
    · have := ih later
      omega

/-- No record is empty, so there are no more records than bytes. -/
theorem length_le_log_of_mem {ops : List ω} (nonempty : ∀ op ∈ ops, 0 < (record op).length) :
    ops.length ≤ (log record ops).length := by
  induction ops with
  | nil => exact Nat.le_refl _
  | cons op rest ih =>
    have first := nonempty op (by simp)
    have later := ih (fun op member => nonempty op (by simp [member]))
    rw [log_cons, List.length_append, List.length_cons]
    omega

theorem length_le_log (nonempty : ∀ op, 0 < (record op).length) (ops : List ω) :
    ops.length ≤ (log record ops).length :=
  length_le_log_of_mem (fun op _ => nonempty op)

/-- If the record in front is told from whatever follows it, the log determines the operations. -/
theorem log_injective (nonempty : ∀ op, record op ≠ [])
    (front : ∀ op op' rest rest', record op ++ rest = record op' ++ rest' → op = op') :
    ∀ {first second : List ω}, log record first = log record second → first = second
  | [], [], _ => rfl
  | [], op :: rest, same => by
    simp only [log_nil, log_cons, List.nil_eq_append_iff] at same
    exact absurd same.1 (nonempty op)
  | op :: rest, [], same => by
    simp only [log_nil, log_cons, List.append_eq_nil_iff] at same
    exact absurd same.1 (nonempty op)
  | op :: rest, op' :: rest', same => by
    rw [log_cons, log_cons] at same
    obtain rfl := front op op' _ _ same
    rw [log_injective nonempty front (List.append_cancel_left same)]

end SecureLink.Library.Log
