import Mathlib.Data.List.Basic

/-!
# Reading items off a stream

A reader looks at the front of what it has buffered: it takes an item off, or needs more
input, or refuses what it sees. If more input never changes what it says of an item or of
something refused, then it does not matter in which pieces the input arrives.
-/
namespace SecureLink.Library.Incremental

/-- What a reader says of the front of its buffer. -/
inductive Front (σ α ε : Type*)
  | more
  | bad (e : ε)
  | item (a : α) (next : σ)

/-- The items taken off, the error that stopped the reader, and what it stopped with. -/
structure Drained (σ α ε : Type*) where
  items : List α := []
  error : Option ε := none
  left : σ
  deriving DecidableEq

variable {σ α ε β : Type*}

/-- More items in front. -/
def Drained.after (items : List α) (d : Drained σ α ε) : Drained σ α ε :=
  { d with items := items ++ d.items }

@[simp] theorem Drained.after_nil (d : Drained σ α ε) : d.after [] = d := rfl

theorem Drained.after_after (first second : List α) (d : Drained σ α ε) :
    (d.after second).after first = d.after (first ++ second) := by
  simp [Drained.after]

section Drain

variable (take : σ → Front σ α ε)

/-- Take items off until there is none; `none` if that takes more rounds. -/
def drain : Nat → σ → Option (Drained σ α ε)
  | 0, _ => none
  | rounds + 1, s =>
    match take s with
    | .more => some { left := s }
    | .bad e => some { error := some e, left := s }
    | .item a next => (drain rounds next).map (Drained.after [a])

/-- Every item makes what is buffered smaller. -/
def Shrinks (size : σ → Nat) : Prop := ∀ s a next, take s = .item a next → size next < size s

/-- What is left after some items were taken off. -/
inductive Reach : σ → σ → Prop
  | start (s : σ) : Reach s s
  | item {s next t : σ} {a : α} : take s = .item a next → Reach next t → Reach s t

/-- The result of `drain` with as many rounds as it can need. -/
def drainAll (size : σ → Nat) (s : σ) : Drained σ α ε :=
  (drain take (size s + 1) s).getD { left := s }

variable {take} {size : σ → Nat}

theorem drain_more {s : σ} (front : take s = .more) {rounds : Nat} (enough : 0 < rounds) :
    drain take rounds s = some { left := s } := by
  obtain ⟨n, rfl⟩ := Nat.exists_eq_add_of_lt enough
  simp only [drain, front]

theorem drain_bad {s : σ} {e : ε} (front : take s = .bad e) {rounds : Nat} (enough : 0 < rounds) :
    drain take rounds s = some { error := some e, left := s } := by
  obtain ⟨n, rfl⟩ := Nat.exists_eq_add_of_lt enough
  simp only [drain, front]

theorem Reach.trans {s t u : σ} (first : Reach take s t) (second : Reach take t u) :
    Reach take s u := by
  induction first with
  | start => exact second
  | item front _ ih => exact .item front (ih second)

/-- Induction along a loop that returned. -/
theorem drain_rule {motive : σ → Drained σ α ε → Prop}
    (more : ∀ s, take s = .more → motive s { left := s })
    (bad : ∀ s e, take s = .bad e → motive s { error := some e, left := s })
    (item : ∀ s a next d, take s = .item a next → motive next d → motive s (d.after [a]))
    {rounds : Nat} {s : σ} {d : Drained σ α ε} (drained : drain take rounds s = some d) :
    motive s d := by
  induction rounds generalizing s d with
  | zero => cases drained
  | succ rounds ih =>
    cases front : take s with
    | more =>
      rw [drain_more front rounds.succ_pos] at drained
      cases drained
      exact more s front
    | bad e =>
      rw [drain_bad front rounds.succ_pos] at drained
      cases drained
      exact bad s e front
    | item a next =>
      simp only [drain, front, Option.map_eq_some_iff] at drained
      obtain ⟨d, later, rfl⟩ := drained
      exact item s a next d front (ih later)

theorem drain_reach {rounds : Nat} {s : σ} {d : Drained σ α ε}
    (drained : drain take rounds s = some d) : Reach take s d.left :=
  drain_rule (motive := fun s d => Reach take s d.left) (fun s _ => .start s)
    (fun s _ _ => .start s) (fun _ _ _ _ front later => .item front later) drained

/-- The loop stops for want of input or at what the reader refuses. -/
theorem drain_stops {rounds : Nat} {s : σ} {d : Drained σ α ε}
    (drained : drain take rounds s = some d) : take d.left = d.error.elim .more .bad :=
  drain_rule (motive := fun _ d => take d.left = d.error.elim .more .bad) (fun _ front => front)
    (fun _ _ front => front) (fun _ _ _ _ _ later => later) drained

/-- With enough rounds the loop returns, and always the same. -/
theorem drain_eq (shrinks : Shrinks take size) {s : σ} {rounds : Nat} (enough : size s < rounds) :
    drain take rounds s = some (drainAll take size s) := by
  -- on the rounds, for any two numbers of rounds that suffice
  have settled : ∀ {n m : Nat} {s : σ}, size s < n → size s < m →
      ∃ d, drain take n s = some d ∧ drain take m s = some d := by
    intro n
    induction n with
    | zero => exact fun few => absurd few (Nat.not_lt_zero _)
    | succ n ih =>
      intro m s few few'
      cases m with
      | zero => exact absurd few' (Nat.not_lt_zero _)
      | succ m =>
        cases front : take s with
        | more => exact ⟨_, drain_more front n.succ_pos, drain_more front m.succ_pos⟩
        | bad e => exact ⟨_, drain_bad front n.succ_pos, drain_bad front m.succ_pos⟩
        | item a next =>
          have smaller := shrinks s a next front
          obtain ⟨d, first, second⟩ := ih (m := m) (s := next) (by omega) (by omega)
          refine ⟨d.after [a], ?_, ?_⟩
          · simp only [drain, front, first, Option.map_some]
          · simp only [drain, front, second, Option.map_some]
  obtain ⟨d, here, all⟩ := settled enough (Nat.lt_succ_self (size s))
  rw [here, drainAll, all, Option.getD_some]

theorem drainAll_more {s : σ} (front : take s = .more) : drainAll take size s = { left := s } := by
  rw [drainAll, drain_more front (Nat.succ_pos _), Option.getD_some]

theorem drainAll_bad {s : σ} {e : ε} (front : take s = .bad e) :
    drainAll take size s = { error := some e, left := s } := by
  rw [drainAll, drain_bad front (Nat.succ_pos _), Option.getD_some]

theorem drainAll_item (shrinks : Shrinks take size) {s next : σ} {a : α}
    (front : take s = .item a next) :
    drainAll take size s = (drainAll take size next).after [a] := by
  have later := drain_eq shrinks (shrinks s a next front)
  simp only [drainAll, drain, front, later, Option.map_some, Option.getD_some]

/-- Induction along the items taken off. -/
theorem drainAll_induction (shrinks : Shrinks take size) {motive : σ → Prop}
    (more : ∀ s, take s = .more → motive s) (bad : ∀ s e, take s = .bad e → motive s)
    (item : ∀ s a next, take s = .item a next → motive next → motive s) (s : σ) : motive s := by
  induction bound : size s using Nat.strongRecOn generalizing s with
  | ind n ih =>
    cases front : take s with
    | more => exact more s front
    | bad e => exact bad s e front
    | item a next => exact item s a next front (ih _ (bound ▸ shrinks s a next front) next rfl)

/-- A reader that knows an item by its encoding in front takes off what was written there. -/
theorem drainAll_encoded (shrinks : Shrinks take size) (buffer : List β → σ) {wire : α → List β}
    {items : List α}
    (knows : ∀ a ∈ items, ∀ rest, take (buffer (wire a ++ rest)) = .item a (buffer rest))
    (rest : List β) :
    drainAll take size (buffer (items.flatMap wire ++ rest)) =
      (drainAll take size (buffer rest)).after items := by
  induction items with
  | nil => rfl
  | cons a later ih =>
    have first := knows a (by simp) (later.flatMap wire ++ rest)
    rw [List.flatMap_cons, List.append_assoc, drainAll_item shrinks first,
      ih (fun b member => knows b (by simp [member])), Drained.after_after]
    rfl

end Drain

section Chunks

variable (take : σ → Front σ α ε) (push : σ → List β → σ)

/-- More input changes nothing about an item, or about what is refused. -/
structure Stable : Prop where
  item : ∀ s a next more, take s = .item a next → take (push s more) = .item a (push next more)
  bad : ∀ s e more, take s = .bad e → take (push s more) = .bad e
  push_nil : ∀ s, push s [] = s
  push_push : ∀ s first second, push (push s first) second = push s (first ++ second)

/-- Push each chunk and drain, up to the first error. -/
def drainChunks (rounds : Nat) (s : σ) : List (List β) → Option (Drained σ α ε)
  | [] => some { left := s }
  | chunk :: later =>
    (drain take rounds (push s chunk)).bind fun d =>
      if d.error.isSome then some d
      else (drainChunks rounds d.left later).map (Drained.after d.items)

variable {take push} {size : σ → Nat}

theorem Reach.pushed (stable : Stable take push) {s t : σ} (reach : Reach take s t) (more : List β) :
    Reach take (push s more) (push t more) := by
  induction reach with
  | start s => exact .start _
  | item front _ ih => exact .item (stable.item _ _ _ more front) ih

/-- Draining what is there and then, with more input, what is left. -/
theorem drainAll_push (stable : Stable take push) (shrinks : Shrinks take size) (s : σ)
    (more : List β) :
    drainAll take size (push s more) =
      (drainAll take size (push (drainAll take size s).left more)).after
        (drainAll take size s).items := by
  induction s using drainAll_induction shrinks with
  | more s front => rw [drainAll_more front, Drained.after_nil]
  | bad s e front => rw [drainAll_bad front, Drained.after_nil]
  | item s a next front ih =>
    rw [drainAll_item shrinks (stable.item s a next more front), drainAll_item shrinks front, ih,
      Drained.after_after]
    rfl

/-- What is left, with more input behind it, is no larger than all of it. -/
theorem size_push_left (stable : Stable take push) (shrinks : Shrinks take size) (s : σ)
    (more : List β) : size (push (drainAll take size s).left more) ≤ size (push s more) := by
  induction s using drainAll_induction shrinks with
  | more s front =>
    exact Nat.le_of_eq (congrArg (fun d => size (push d.left more)) (drainAll_more front))
  | bad s e front =>
    exact Nat.le_of_eq (congrArg (fun d => size (push d.left more)) (drainAll_bad front))
  | item s a next front ih =>
    rw [drainAll_item shrinks front]
    have smaller := shrinks _ _ _ (stable.item s a next more front)
    exact Nat.le_trans ih (Nat.le_of_lt smaller)

/-- Input in pieces against all of it at once. The reader waits for input at the start, as it
does after every piece that ends without an error. -/
theorem drainChunks_eq (stable : Stable take push) (shrinks : Shrinks take size)
    (grows : ∀ s more, size s ≤ size (push s more)) {rounds : Nat} (chunks : List (List β)) {s : σ}
    (waiting : take s = .more) (enough : size (push s chunks.flatten) < rounds) :
    ∃ d unread, drainChunks take push rounds s chunks = some d ∧
      drainAll take size (push s chunks.flatten) = { d with left := push d.left unread } ∧
      take d.left = d.error.elim .more .bad ∧ (d.error = none → unread = []) := by
  induction chunks generalizing s with
  | nil =>
    refine ⟨{ left := s }, [], rfl, ?_, waiting, fun _ => rfl⟩
    rw [List.flatten_nil, stable.push_nil, drainAll_more waiting]
  | cons chunk later ih =>
    rw [List.flatten_cons, ← stable.push_push] at enough ⊢
    have here : drain take rounds (push s chunk) = some (drainAll take size (push s chunk)) :=
      drain_eq shrinks (Nat.lt_of_le_of_lt (grows _ _) enough)
    have all := drainAll_push stable shrinks (push s chunk) later.flatten
    have stops := drain_stops here
    have room := size_push_left stable shrinks (push s chunk) later.flatten
    generalize drainAll take size (push s chunk) = d at here all stops room
    obtain ⟨items, error, left⟩ := d
    cases error with
    | some e =>
      refine ⟨⟨items, some e, left⟩, later.flatten, by simp [drainChunks, here], ?_, stops,
        fun fault => by cases fault⟩
      rw [all, drainAll_bad (stable.bad left e later.flatten stops)]
      simp [Drained.after]
    | none =>
      obtain ⟨d, unread, fed, rest, ends, clean⟩ := ih stops (Nat.lt_of_le_of_lt room enough)
      refine ⟨d.after items, unread, by simp [drainChunks, here, fed], ?_, ends, clean⟩
      rw [all, rest]
      rfl

/-- How the input is cut into pieces shows neither in the items nor in the error. -/
theorem drainChunks_pieces (stable : Stable take push) (shrinks : Shrinks take size)
    (grows : ∀ s more, size s ≤ size (push s more)) {rounds : Nat} {first second : List (List β)}
    (same : first.flatten = second.flatten) {s : σ} (waiting : take s = .more)
    (enough : size (push s first.flatten) < rounds) :
    ∃ d d', drainChunks take push rounds s first = some d ∧
      drainChunks take push rounds s second = some d' ∧
      d.items = d'.items ∧ d.error = d'.error ∧ take d.left = d.error.elim .more .bad := by
  obtain ⟨d, unread, fed, all, ends, -⟩ :=
    drainChunks_eq stable shrinks grows first waiting enough
  obtain ⟨d', unread', fed', all', -⟩ :=
    drainChunks_eq stable shrinks grows second waiting (same ▸ enough)
  rw [same, all'] at all
  obtain ⟨items, error, -⟩ : d'.items = d.items ∧ d'.error = d.error ∧
      push d'.left unread' = push d.left unread := by simpa using all
  exact ⟨d, d', fed, fed', items.symm, error.symm, ends⟩

end Chunks

end SecureLink.Library.Incremental
