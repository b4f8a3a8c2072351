import Mathlib.Data.List.Induction

/-!
# Hash chains

Each entry is hashed together with the digest before it. A hash that does not collide on
the messages of two chains, and never yields the digest both start from, makes the last
digest stand for the whole list of entries.
-/
namespace SecureLink.Library.HashChain

variable {δ ε β : Type*} (digest : β → δ) (message : δ → ε → β)

/-- The digest after the entries, from the one before them. -/
def chain : δ → List ε → δ
  | start, [] => start
  | start, e :: rest => chain (digest (message start e)) rest

/-- Everything hashed along the chain. -/
def messages : δ → List ε → List β
  | _, [] => []
  | start, e :: rest => message start e :: messages (digest (message start e)) rest

variable {digest message}

theorem chain_concat (start : δ) (entries : List ε) (e : ε) :
    chain digest message start (entries ++ [e]) =
      digest (message (chain digest message start entries) e) := by
  induction entries generalizing start with
  | nil => rfl
  | cons first rest ih => exact ih _

theorem messages_concat (start : δ) (entries : List ε) (e : ε) :
    messages digest message start (entries ++ [e]) =
      messages digest message start entries ++
        [message (chain digest message start entries) e] := by
  induction entries generalizing start with
  | nil => rfl
  | cons first rest ih => exact congrArg (message start first :: ·) (ih _)

/-- Two chains that end in the same digest have the same entries. -/
theorem chain_injective
    (separates : ∀ d e d' e', message d e = message d' e' → d = d' ∧ e = e')
    {start : δ} {left right : List ε}
    (collisionFree : ∀ m ∈ messages digest message start left,
      ∀ m' ∈ messages digest message start right, digest m = digest m' → m = m')
    (freshLeft : ∀ m ∈ messages digest message start left, digest m ≠ start)
    (freshRight : ∀ m ∈ messages digest message start right, digest m ≠ start)
    (same : chain digest message start left = chain digest message start right) : left = right := by
  -- from the last entry backwards: equal digests have equal messages, hence equal entries and
  -- equal digests before them
  induction left using List.reverseRecOn generalizing right with
  | nil =>
    rcases List.eq_nil_or_concat right with rfl | ⟨init, last, rfl⟩
    · rfl
    · rw [List.concat_eq_append] at same freshRight
      rw [chain_concat] at same
      exact absurd same.symm (freshRight _ (by simp [messages_concat]))
  | append_singleton init last ih =>
    rcases List.eq_nil_or_concat right with rfl | ⟨init', last', rfl⟩
    · rw [chain_concat] at same
      exact absurd same (freshLeft _ (by simp [messages_concat]))
    · rw [List.concat_eq_append] at same collisionFree freshRight ⊢
      simp only [messages_concat, List.mem_append, List.mem_singleton]
        at collisionFree freshLeft freshRight
      rw [chain_concat, chain_concat] at same
      obtain ⟨before, entry⟩ :=
        separates _ _ _ _ (collisionFree _ (Or.inr rfl) _ (Or.inr rfl) same)
      have shorter : init = init' := ih
        (fun m hm m' hm' => collisionFree m (Or.inl hm) m' (Or.inl hm'))
        (fun m hm => freshLeft m (Or.inl hm)) (fun m hm => freshRight m (Or.inl hm)) before
      rw [shorter, entry]

end SecureLink.Library.HashChain
