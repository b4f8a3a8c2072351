import SecureLink.Source.Tasks.ThreadPool

/-!
# No task is lost at shutdown

A worker exits while it holds the mutex and sees the flag and an empty queue. No submitter is
between its check and its push then, and every later one sees the flag as well, so nothing is
pushed any more, wherever the store of `stop` falls.
-/
namespace SecureLink.Guarantees.ShutdownDrain
open Library.Runs Source.Tasks

variable {τ : Type}

/-- The queue is empty, the tasks taken are the tasks accepted, and all of them are completed. -/
structure Drained {workers : Nat} (p : ThreadPool τ workers) : Prop where
  empty : p.q = []
  taken : p.taken.map Prod.snd = p.accepted
  completed : p.completed = UInt64.ofNat p.accepted.length

/-- No worker can go on: each has exited or waits in vain. -/
def AtRest {workers : Nat} (p : ThreadPool τ workers) : Prop :=
  p.mu = none ∧ ∀ w, p.threads w = .exited ∨ p.threads w = .waiting ∧ p.ready = false

/-- What holds after a run. Tasks are taken once, in the order in which `submit` returned true for
them; each entry of the record names the worker. -/
structure NoTaskLost (requested queueCap : Nat) (steps : List (PoolStep τ (workerCount requested)))
    (p : ThreadPool τ (workerCount requested)) : Prop where
  bounded : p.q.length ≤ queueCap
  returned : (outputs poolStep (.new requested queueCap) steps).count (some true) =
    p.accepted.length
  once : p.accepted = p.taken.map Prod.snd ++ p.q
  exited : (∀ w, p.threads w = .exited) → Drained p
  atRest : AtRest p → Drained p

theorem workerCount_pos (requested : Nat) : 0 < workerCount requested := by
  unfold workerCount
  split_ifs <;> omega

variable {workers : Nat}

/-- The capacity never changes, and a task is accepted where `submit` returns true. -/
theorem step_accepts (p : ThreadPool τ workers) (i : PoolStep τ workers) :
    (poolStep p i).1.queueCap = p.queueCap ∧
    (poolStep p i).1.accepted.length =
      p.accepted.length + [(poolStep p i).2].count (some true) := by
  refine poolStep_cases (motive := fun r => r.1.queueCap = p.queueCap ∧
    r.1.accepted.length = p.accepted.length + [r.2].count (some true))
    ⟨rfl, rfl⟩ ?_ ?_ ⟨rfl, rfl⟩ ?_ ?_ ?_ i
  · intro task _
    unfold ThreadPool.submit
    split_ifs <;> exact ⟨rfl, rfl⟩
  · intro task _
    exact ⟨rfl, List.length_append⟩
  · intro w _ _ _
    exact ⟨rfl, rfl⟩
  · intro w _
    unfold ThreadPool.take
    split_ifs
    · exact ⟨rfl, rfl⟩
    · split <;> exact ⟨rfl, rfl⟩
  · intro w task _
    exact ⟨rfl, rfl⟩

theorem run_accepts (p : ThreadPool τ workers) (steps : List (PoolStep τ workers)) :
    (run poolStep p steps).queueCap = p.queueCap ∧
    (run poolStep p steps).accepted.length =
      p.accepted.length + (outputs poolStep p steps).count (some true) := by
  induction steps generalizing p with
  | nil => exact ⟨rfl, rfl⟩
  | cons i rest ih =>
    obtain ⟨cap, here⟩ := step_accepts p i
    obtain ⟨sameCap, later⟩ := ih (poolStep p i).1
    refine ⟨sameCap.trans cap, ?_⟩
    have split : outputs poolStep p (i :: rest) =
        [(poolStep p i).2] ++ outputs poolStep (poolStep p i).1 rest := rfl
    rw [run_cons, later, here, split, List.count_append, Nat.add_assoc]

/-- An empty queue and no running task: everything accepted is completed. -/
theorem drained_of_idle {p : ThreadPool τ workers} (h : Consistent p) (empty : p.q = [])
    (idle : ∀ w, (p.threads w).isRunning = false) : Drained p := by
  have taken : p.taken.map Prod.snd = p.accepted := by rw [h.order, empty, List.append_nil]
  have idle : busy p.threads = ∅ := by
    refine Finset.eq_empty_of_forall_notMem fun w member => ?_
    rw [mem_busy, idle w] at member
    cases member
  obtain ⟨finished, completed, count⟩ := h.counted
  refine ⟨empty, taken, ?_⟩
  rw [idle, Finset.card_empty, Nat.add_zero] at count
  rw [completed, count, ← taken, List.length_map]

-- the flag is stored between a check and its push, and the only worker takes the task and exits
example :
    let p := run poolStep (.new 0 4) [.submit 7, .stop, .push, .wake ⟨0, by decide⟩, .take,
      .finish ⟨0, by decide⟩ true, .wake ⟨0, by decide⟩, .take, .submit 8]
    (p.accepted, p.taken, p.completed, p.q) = ([7], [(⟨0, by decide⟩, 7)], 1, []) := by
  decide

end SecureLink.Guarantees.ShutdownDrain
