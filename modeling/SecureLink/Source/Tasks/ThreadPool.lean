import Mathlib.Data.Finset.Card
import Mathlib.Data.Fintype.Basic
import SecureLink.Library.Runs

/-!
# Thread pool

src/thread_pool.cpp:5-57. The flag that `stop` stores is not guarded by the mutex, so a critical
section is split where it matters in which order it loads the flag: a submitter pushes after
it has checked, and a worker loads the flag again after its wait. Who holds the mutex is kept
with what it still has to do. A wait ends when its predicate holds; the notifications are left
out. The last two fields record what was accepted and what was taken.
-/
namespace SecureLink.Source.Tasks
open Library.Runs

inductive Worker (τ : Type)
  | waiting
  | running (task : τ)
  | exited

/-- Who is inside a critical section: a submitter that passed its checks, or a worker whose wait
has ended. -/
inductive Holder (τ : Type) (workers : Nat)
  | submitter (task : τ)
  | worker (w : Fin workers)

structure ThreadPool (τ : Type) (workers : Nat) where
  queueCap : Nat
  mu : Option (Holder τ workers) := none
  q : List τ := []
  stopped : Bool := false
  completed : UInt64 := 0
  dropped : UInt64 := 0
  threads : Fin workers → Worker τ := fun _ => .waiting
  accepted : List τ := []
  taken : List (Fin workers × τ) := []

/-- The workers started for a requested number. -/
def workerCount (requested : Nat) : Nat := if requested = 0 then 1 else requested

namespace ThreadPool

variable {τ : Type} {workers : Nat}

/-- The constructor. -/
def new (requested queueCap : Nat) : ThreadPool τ (workerCount requested) := { queueCap }

/-- The first half of `submit`, up to the push; `some false` is returned to the caller. -/
def submit (p : ThreadPool τ workers) (task : τ) : ThreadPool τ workers × Option Bool :=
  if p.stopped then (p, some false)
  else if p.q.length ≥ p.queueCap then ({ p with dropped := p.dropped + 1 }, some false)
  else ({ p with mu := some (.submitter task) }, none)

/-- The second half of `submit`, which returns true. -/
def push (p : ThreadPool τ workers) (task : τ) : ThreadPool τ workers × Option Bool :=
  ({ p with mu := none, q := p.q ++ [task], accepted := p.accepted ++ [task] }, some true)

def stop (p : ThreadPool τ workers) : ThreadPool τ workers := { p with stopped := true }

/-- The predicate of the wait. -/
def ready (p : ThreadPool τ workers) : Bool := p.stopped || !p.q.isEmpty

/-- What a worker does after its wait: exit, or take a task. -/
def take (p : ThreadPool τ workers) (w : Fin workers) : ThreadPool τ workers :=
  if p.stopped && p.q.isEmpty then
    { p with mu := none, threads := Function.update p.threads w .exited }
  else
    match p.q with
    | [] => p
    | task :: rest =>
      { p with
        mu := none
        q := rest
        threads := Function.update p.threads w (.running task)
        taken := p.taken ++ [(w, task)] }

/-- The task has returned or thrown, which is swallowed. -/
def finish (p : ThreadPool τ workers) (w : Fin workers) : ThreadPool τ workers :=
  { p with completed := p.completed + 1, threads := Function.update p.threads w .waiting }

end ThreadPool

/-- Atomic steps of the submitters, of `stop` and of the workers. -/
inductive PoolStep (τ : Type) (workers : Nat)
  | submit (task : τ)
  | push
  | stop
  | wake (w : Fin workers)
  | take
  | finish (w : Fin workers) (threw : Bool)

variable {τ : Type} {workers : Nat}

open ThreadPool in
/-- One step; a thread that is not there, or for which the mutex is not free, passes. -/
def poolStep (p : ThreadPool τ workers) : PoolStep τ workers → ThreadPool τ workers × Option Bool
  | .submit task =>
    match p.mu with
    | none => p.submit task
    | some _ => (p, none)
  | .push =>
    match p.mu with
    | some (.submitter task) => p.push task
    | _ => (p, none)
  | .stop => (p.stop, none)
  | .wake w =>
    match p.mu, p.threads w with
    | none, .waiting => (if p.ready then { p with mu := some (.worker w) } else p, none)
    | _, _ => (p, none)
  | .take =>
    match p.mu with
    | some (.worker w) => (p.take w, none)
    | _ => (p, none)
  | .finish w _ =>
    match p.threads w with
    | .running _ => (p.finish w, none)
    | _ => (p, none)

/-- What a step can do. -/
theorem poolStep_cases {p : ThreadPool τ workers} {motive : ThreadPool τ workers × Option Bool → Prop}
    (idle : motive (p, none))
    (submit : ∀ task, p.mu = none → motive (p.submit task))
    (push : ∀ task, p.mu = some (.submitter task) → motive (p.push task))
    (stop : motive (p.stop, none))
    (wake : ∀ w, p.mu = none → p.threads w = .waiting → p.ready = true →
      motive ({ p with mu := some (.worker w) }, none))
    (take : ∀ w, p.mu = some (.worker w) → motive (p.take w, none))
    (finish : ∀ w task, p.threads w = .running task → motive (p.finish w, none))
    (i : PoolStep τ workers) : motive (poolStep p i) := by
  cases i with
  | submit task =>
    simp only [poolStep]
    split
    next free => exact submit task free
    next => exact idle
  | push =>
    simp only [poolStep]
    split
    next task held => exact push task held
    next => exact idle
  | stop => exact stop
  | wake w =>
    simp only [poolStep]
    split
    next free waiting =>
      split_ifs with ready
      · exact wake w free waiting ready
      · exact idle
    next => exact idle
  | take =>
    simp only [poolStep]
    split
    next w held => exact take w held
    next => exact idle
  | finish w threw =>
    simp only [poolStep]
    split
    next task running => exact finish w task running
    next => exact idle

/-! ## The invariant -/

def Worker.isRunning : Worker τ → Bool
  | .running _ => true
  | _ => false

/-- The workers that run a task. -/
def busy (threads : Fin workers → Worker τ) : Finset (Fin workers) :=
  Finset.univ.filter fun w => (threads w).isRunning

theorem mem_busy {threads : Fin workers → Worker τ} {w : Fin workers} :
    w ∈ busy threads ↔ (threads w).isRunning = true := by
  simp [busy]

theorem busy_start (threads : Fin workers → Worker τ) (w : Fin workers) (task : τ) :
    busy (Function.update threads w (.running task)) = insert w (busy threads) := by
  ext v
  by_cases same : v = w
  · simp [mem_busy, same, Worker.isRunning]
  · simp [mem_busy, same]

theorem busy_stop (threads : Fin workers → Worker τ) (w : Fin workers) {phase : Worker τ}
    (idle : phase.isRunning = false) :
    busy (Function.update threads w phase) = (busy threads).erase w := by
  ext v
  by_cases same : v = w
  · simp [mem_busy, same, idle]
  · simp [mem_busy, same]

structure Consistent (p : ThreadPool τ workers) : Prop where
  bounded : p.q.length ≤ p.queueCap
  order : p.accepted = p.taken.map Prod.snd ++ p.q
  counted : ∃ finished, p.completed = UInt64.ofNat finished ∧
    finished + (busy p.threads).card = p.taken.length
  room : ∀ task, p.mu = some (.submitter task) → p.q.length < p.queueCap
  awake : ∀ w, p.mu = some (.worker w) → (p.threads w).isRunning = false ∧ p.ready = true
  gone : ∀ w, p.threads w = .exited →
    p.stopped = true ∧ p.q = [] ∧ ∀ task, p.mu ≠ some (.submitter task)

namespace Consistent

variable {p : ThreadPool τ workers}

theorem submit (h : Consistent p) (task : τ) : Consistent (p.submit task).1 := by
  unfold ThreadPool.submit
  split_ifs with stopped full
  · exact h
  · exact ⟨h.bounded, h.order, h.counted, h.room, h.awake, h.gone⟩
  · refine ⟨h.bounded, h.order, h.counted, fun _ _ => Nat.lt_of_not_le full, ?_, ?_⟩
    · intro w held
      cases held
    · intro w exited
      exact absurd (h.gone w exited).1 stopped

theorem push (h : Consistent p) {task : τ} (held : p.mu = some (.submitter task)) :
    Consistent (p.push task).1 := by
  refine ⟨?_, ?_, h.counted, ?_, ?_, ?_⟩
  · have room := h.room task held
    simp only [ThreadPool.push, List.length_append, List.length_singleton]
    omega
  · simp only [ThreadPool.push, h.order, List.append_assoc]
  · intro _ other
    cases other
  · intro _ other
    cases other
  · intro w exited
    exact absurd held ((h.gone w exited).2.2 task)

theorem stop (h : Consistent p) : Consistent p.stop := by
  refine ⟨h.bounded, h.order, h.counted, h.room, ?_, ?_⟩
  · intro w held
    exact ⟨(h.awake w held).1, rfl⟩
  · intro w exited
    exact ⟨rfl, (h.gone w exited).2⟩

theorem wake (h : Consistent p) {w : Fin workers} (waiting : p.threads w = .waiting)
    (ready : p.ready = true) : Consistent { p with mu := some (.worker w) } := by
  refine ⟨h.bounded, h.order, h.counted, ?_, ?_, ?_⟩
  · intro _ held
    cases held
  · intro v held
    cases held
    exact ⟨by rw [waiting]; rfl, ready⟩
  · intro v exited
    refine ⟨(h.gone v exited).1, (h.gone v exited).2.1, ?_⟩
    intro _ held
    cases held

/-- The only section in which a worker exits or takes a task. -/
theorem take (h : Consistent p) {w : Fin workers} (held : p.mu = some (.worker w)) :
    Consistent (p.take w) := by
  obtain ⟨idle, ready⟩ := h.awake w held
  have notBusy : w ∉ busy p.threads := by
    rw [mem_busy, idle]
    exact Bool.false_ne_true
  unfold ThreadPool.take
  split_ifs with last
  · obtain ⟨stopped, empty⟩ := Bool.and_eq_true_iff.mp last
    have empty := List.isEmpty_iff.mp empty
    refine ⟨h.bounded, h.order, ?_, ?_, ?_, ?_⟩
    · have same : busy (Function.update p.threads w .exited) = busy p.threads := by
        rw [busy_stop _ _ rfl, Finset.erase_eq_of_notMem notBusy]
      simpa only [same] using h.counted
    · intro _ other
      cases other
    · intro _ other
      cases other
    · intro v _
      refine ⟨stopped, empty, ?_⟩
      intro _ other
      cases other
  · cases queue : p.q with
    | nil =>
      -- the predicate held, and only the flag can have changed since
      rw [ThreadPool.ready, queue] at ready
      rw [queue] at last
      simp_all
    | cons task rest =>
      refine ⟨?_, ?_, ?_, ?_, ?_, ?_⟩
      · have bounded := h.bounded
        rw [queue, List.length_cons] at bounded
        exact Nat.le_of_succ_le bounded
      · simp [h.order, queue]
      · obtain ⟨finished, completed, count⟩ := h.counted
        refine ⟨finished, completed, ?_⟩
        simp only [busy_start, Finset.card_insert_of_notMem notBusy, List.length_append,
          List.length_singleton]
        omega
      · intro _ other
        cases other
      · intro _ other
        cases other
      · intro v exited
        by_cases same : v = w
        · rw [same] at exited
          simp at exited
        · simp only [Function.update_of_ne same] at exited
          have empty := (h.gone v exited).2.1
          rw [queue] at empty
          cases empty

theorem finish (h : Consistent p) {w : Fin workers} {task : τ} (running : p.threads w = .running task) :
    Consistent (p.finish w) := by
  have member : w ∈ busy p.threads := by
    rw [mem_busy, running]
    rfl
  refine ⟨h.bounded, h.order, ?_, h.room, ?_, ?_⟩
  · obtain ⟨finished, completed, count⟩ := h.counted
    refine ⟨finished + 1, ?_, ?_⟩
    · simp [ThreadPool.finish, completed]
    · have positive := Finset.card_pos.mpr ⟨w, member⟩
      simp only [ThreadPool.finish]
      rw [busy_stop _ _ rfl, Finset.card_erase_of_mem member]
      omega
  · intro v held
    refine ⟨?_, (h.awake v held).2⟩
    by_cases same : v = w
    · rw [same]
      simp [ThreadPool.finish, Worker.isRunning]
    · simpa [ThreadPool.finish, same] using (h.awake v held).1
  · intro v exited
    by_cases same : v = w
    · rw [same] at exited
      simp [ThreadPool.finish] at exited
    · refine h.gone v ?_
      simpa [ThreadPool.finish, same] using exited

/-- Every step keeps the pool consistent. -/
theorem step (h : Consistent p) (i : PoolStep τ workers) : Consistent (poolStep p i).1 :=
  poolStep_cases (motive := fun r => Consistent r.1) h (fun task _ => h.submit task)
    (fun _ held => h.push held) h.stop (fun _ _ waiting ready => h.wake waiting ready)
    (fun _ held => h.take held) (fun _ _ running => h.finish running) i

end Consistent

theorem consistent_run (requested queueCap : Nat) (steps : List (PoolStep τ (workerCount requested))) :
    Consistent (run poolStep (ThreadPool.new requested queueCap) steps) := by
  refine run_invariant Consistent (fun p i h => h.step i) steps ?_
  refine ⟨Nat.zero_le _, rfl, ⟨0, rfl, ?_⟩, ?_, ?_, ?_⟩
  · simp [ThreadPool.new, busy, Worker.isRunning]
  · intro _ held
    cases held
  · intro _ held
    cases held
  · intro _ exited
    cases exited

end SecureLink.Source.Tasks
