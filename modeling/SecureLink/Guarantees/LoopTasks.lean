import SecureLink.Source.Tasks.EventLoop

/-!
# Tasks and callbacks of the event loop

Other threads post while the loop runs. A posted task runs exactly once, in the order of the
posts; what is posted during a round, by a task of that round too, waits for the next one.
A callback is invoked only while its descriptor is registered, with the callback registered
then, and at most once after each `poll`, whatever tasks and callbacks do to the table.
-/
namespace SecureLink.Guarantees.LoopTasks
open Library.Runs Source.Tasks
open Source.Tasks.EventLoop (step swapPosted)

variable {κ τ : Type} {l l' : EventLoop κ τ} {s : LoopStep κ τ}
  {r : EventLoop κ τ × Option (LoopEvent κ τ)} {log made : List (LoopEvent κ τ)} {p : PollFd}

/-! ## Posted tasks -/

/-- The tasks posted, in the order of the posts. -/
def posts (log : List (LoopEvent κ τ)) : List τ :=
  log.filterMap fun | .posted task => some task | _ => none

/-- The tasks started. -/
def runs (log : List (LoopEvent κ τ)) : List τ :=
  log.filterMap fun | .ran task => some task | _ => none

/-- The tasks of the round that are not started yet. -/
def waiting : Place τ → List τ
  | .draining left => left
  | .inTask left => left
  | _ => []

theorem posts_append (first second : List (LoopEvent κ τ)) :
    posts (first ++ second) = posts first ++ posts second := List.filterMap_append

theorem runs_append (first second : List (LoopEvent κ τ)) :
    runs (first ++ second) = runs first ++ runs second := List.filterMap_append

/-- What every step but the first of a round keeps: it starts what waits in front, and queues
what is posted behind. -/
structure Keeps (l l' : EventLoop κ τ) (made : List (LoopEvent κ τ)) : Prop where
  round : runs made ++ waiting l'.place = waiting l.place
  queue : l'.posted = l.posted ++ posts made

theorem Moves.keeps (moves : l.Moves s r) :
    Keeps l r.1 r.2.toList ∨ s = .begin ∧ l.place = .between ∧ r = (l.swapPosted, none) := by
  cases moves with
  | posts task => exact Or.inl ⟨rfl, rfl⟩
  | begins first here => exact Or.inr ⟨first, here, rfl⟩
  | startsTask here => exact Or.inl ⟨by rw [here]; rfl, (List.append_nil _).symm⟩
  | _ => exact Or.inl ⟨by simp [runs, waiting, *], (List.append_nil _).symm⟩

/-- A round, as far as it got. -/
theorem run_keeps (l : EventLoop κ τ) {steps : List (LoopStep κ τ)}
    (round : ∀ s ∈ steps, s ≠ .begin) :
    Keeps l (run step l steps) (journal step l steps) := by
  induction steps generalizing l with
  | nil => exact ⟨rfl, (List.append_nil _).symm⟩
  | cons s rest ih =>
    obtain ⟨round1, queue1⟩ := (Moves.keeps (l.step_moves s)).resolve_right
      fun first => round s (by simp) first.1
    obtain ⟨round2, queue2⟩ := ih (l.step s).1 fun s' later => round s' (by simp [later])
    rw [run_cons, journal]
    constructor
    · rw [runs_append, List.append_assoc, round2, round1]
    · rw [queue2, queue1, posts_append, List.append_assoc]

/-- Over any steps nothing posted is lost, doubled or overtaken. -/
theorem run_in_order (l : EventLoop κ τ) (steps : List (LoopStep κ τ)) :
    runs (journal step l steps) ++
        (waiting (run step l steps).place ++ (run step l steps).posted) =
      waiting l.place ++ l.posted ++ posts (journal step l steps) := by
  induction steps generalizing l with
  | nil => simp [journal, run, runs, posts]
  | cons s rest ih =>
    have here : runs (l.step s).2.toList ++ (waiting (l.step s).1.place ++ (l.step s).1.posted) =
        waiting l.place ++ l.posted ++ posts (l.step s).2.toList := by
      rcases Moves.keeps (l.step_moves s) with ⟨round, queue⟩ | ⟨-, place, swaps⟩
      · rw [queue, ← round]
        simp only [List.append_assoc]
      · rw [swaps, place]
        simp [runs, posts, waiting, swapPosted]
    rw [run_cons, journal, runs_append, posts_append, List.append_assoc, ih, ← List.append_assoc,
      here, List.append_assoc]

structure TasksOnce (κ τ : Type) : Prop where
  /-- Started, waiting in the round and queued are together what was posted. -/
  inOrder : ∀ steps : List (LoopStep κ τ),
    runs (journal step {} steps) ++
        (waiting (run step {} steps).place ++ (run step {} steps).posted) =
      posts (journal step {} steps)
  /-- A round starts what was posted before it, and nothing that is posted while it lasts. -/
  rounds : ∀ before during : List (LoopStep κ τ), (∀ s ∈ during, s ≠ .begin) →
    (run step {} before).place = .between → (run step {} before).running = true →
    runs (journal step {} (before ++ .begin :: during)) ++
        waiting (run step {} (before ++ .begin :: during)).place =
      posts (journal step {} before) ∧
    posts (journal step {} (before ++ .begin :: during)) =
      posts (journal step {} before) ++
        (run step {} (before ++ .begin :: during)).posted

/-- A task is posted before the round and one while the first runs: the second waits. -/
example :
    let before : List (LoopStep Unit Nat) := [.otherPost 1, .start]
    let during : List (LoopStep Unit Nat) := [.startTask, .call (.post 2), .endTask false]
    (run step {} before).place = .between ∧ (run step {} before).running = true ∧
      runs (journal step {} (before ++ .begin :: during)) = [1] ∧
      (run step {} (before ++ .begin :: during)).posted = [2] := by
  decide

/-! ## Callbacks -/

/-- The callback that is registered for a descriptor behind an event. -/
def register (fd : Int) (cb : Option κ) : LoopEvent κ τ → Option κ
  | .added fd' cb' => if fd' = fd then some cb' else cb
  | .removed fd' => if fd' = fd then none else cb
  | _ => cb

def registered (fd : Int) (log : List (LoopEvent κ τ)) : Option κ := log.foldl (register fd) none

/-- The descriptors whose callbacks were invoked. -/
def invocations (log : List (LoopEvent κ τ)) : List Int :=
  log.filterMap fun | .invoked fd _ _ => some fd | _ => none

/-- Nothing was polled. -/
def NoPoll (log : List (LoopEvent κ τ)) : Prop := ∀ ready, .polled ready ∉ log

/-- The polled descriptors that are still to be looked at. -/
def ahead : Place τ → List PollFd
  | .dispatching _ left => left
  | .inCallback _ left => left
  | _ => []

/-- The descriptors that `poll` reported something for. -/
def reported (ready : List PollFd) : List Int :=
  (ready.filter fun p => p.revents ≠ 0).map PollFd.fd

theorem registered_append (fd : Int) (earlier later : List (LoopEvent κ τ)) :
    registered fd (earlier ++ later) = later.foldl (register fd) (registered fd earlier) :=
  List.foldl_append

/-- The table holds the registered callbacks. -/
def Holds (l : EventLoop κ τ) (log : List (LoopEvent κ τ)) : Prop :=
  ∀ fd, (l.entries.lookup fd).map Entry.cb = registered fd log

theorem Moves.holds (moves : l.Moves s r) (h : Holds l log) : Holds r.1 (log ++ r.2.toList) := by
  intro fd'
  rw [registered_append, ← h fd']
  cases moves with
  | @adds fd e _ =>
    by_cases same : fd' = fd
    · subst same
      simp [register]
    · simp [register, AList.lookup_insert_ne same, Ne.symm same]
  | @modifies fd e events known =>
    by_cases same : fd' = fd
    · subst same
      simp [known]
    · simp [AList.lookup_insert_ne same]
  | removes fd =>
    by_cases same : fd' = fd
    · subst same
      simp [register]
    · simp [register, AList.lookup_erase_ne same, Ne.symm same]
  | _ => rfl

theorem run_holds (h : Holds l log) (steps : List (LoopStep κ τ)) :
    Holds (run step l steps) (log ++ journal step l steps) := by
  induction steps generalizing l log with
  | nil => simpa [journal] using h
  | cons s rest ih =>
    have later := ih (Moves.holds (l.step_moves s) h)
    rwa [List.append_assoc, ← journal] at later

/-- The callback that is invoked stands in the table. -/
theorem Moves.invoked {fd : Int} {flags : UInt32} {cb : κ}
    (moves : l.Moves s (l', some (.invoked fd flags cb))) :
    (l.entries.lookup fd).map Entry.cb = some cb := by
  cases moves with
  | invokes _ _ known =>
    rw [known]
    rfl

theorem reported_cons (p : PollFd) (left : List PollFd) :
    reported (p :: left) = (if p.revents = 0 then [] else [p.fd]) ++ reported left := by
  by_cases zero : p.revents = 0 <;> simp [reported, zero]

/-- A step invokes the next callback or passes it over, unless it polls. -/
theorem Moves.sublist (moves : l.Moves s r) (noPoll : NoPoll r.2.toList) :
    (invocations r.2.toList ++ reported (ahead r.1.place)).Sublist (reported (ahead l.place)) := by
  cases moves with
  | polls _ _ _ _ => exact absurd (List.mem_singleton_self _) (noPoll _)
  | @passesOver n p left here _ =>
    rw [here]
    show (reported left).Sublist (reported (p :: left))
    rw [reported_cons]
    exact List.sublist_append_right _ _
  | @invokes n p left e here ready _ =>
    rw [here]
    show ([p.fd] ++ reported left).Sublist (reported (p :: left))
    rw [reported_cons, if_neg ready]
  | endsCallback here =>
    rw [here]
    exact .refl _
  -- the others leave the place as it is, or nothing lies ahead of it
  | _ => first | exact .refl _ | exact List.nil_sublist _

theorem run_sublist {steps : List (LoopStep κ τ)}
    (noPoll : NoPoll (journal step l steps)) :
    (invocations (journal step l steps)).Sublist (reported (ahead l.place)) := by
  induction steps generalizing l with
  | nil => exact List.nil_sublist _
  | cons s rest ih =>
    rw [journal] at noPoll ⊢
    have here := Moves.sublist (l.step_moves s) fun ready found => noPoll ready (by simp [found])
    have later := ih (l := (l.step s).1) fun ready found => noPoll ready (by simp [found])
    rw [invocations, List.filterMap_append]
    exact ((List.append_sublist_append_left _).mpr later).trans here

/-- A descriptor that is ready and stays registered is not forgotten: its callback is invoked, or
it lies ahead, or an exception ended the loop. -/
def Owed (p : PollFd) (l : EventLoop κ τ) : Prop :=
  l.place = .thrown ∨ p ∈ ahead l.place ∧ p.fd ∈ l.entries

theorem Owed.elsewhere (owed : Owed p l) (on : l.place ≠ .thrown)
    (done : ahead l.place = []) : False := by
  rcases owed with thrown | ⟨found, -⟩
  · exact on thrown
  · rw [done] at found
    cases found

theorem Owed.kept (owed : Owed p l) (place : l'.place = l.place)
    (still : p.fd ∈ l.entries → p.fd ∈ l'.entries) : Owed p l' := by
  rw [Owed, place]
  exact owed.imp id (And.imp id still)

theorem Moves.owed (moves : l.Moves s r) (ready : p.revents ≠ 0) (owed : Owed p l)
    (kept : .removed p.fd ∉ r.2.toList) : p.fd ∈ invocations r.2.toList ∨ Owed p r.1 := by
  cases moves with
  | quiet _ => exact Or.inr owed
  | adds _ => exact Or.inr (owed.kept rfl fun known => (AList.mem_insert _).mpr (Or.inr known))
  | modifies _ _ => exact Or.inr (owed.kept rfl fun known => (AList.mem_insert _).mpr (Or.inr known))
  | removes fd =>
    have other : p.fd ≠ fd := fun same => kept (by rw [same]; exact List.mem_singleton_self _)
    exact Or.inr (owed.kept rfl fun known => AList.mem_erase.mpr ⟨other, known⟩)
  | posts _ => exact Or.inr owed
  | @passesOver n q left here why =>
    obtain ⟨found, known⟩ := owed.resolve_left (by rw [here]; nofun)
    rw [here] at found
    rcases List.mem_cons.mp found with rfl | later
    · rcases why with zero | unknown
      · exact absurd zero ready
      · exact absurd known (AList.lookup_eq_none.mp unknown)
    · exact Or.inr (Or.inr ⟨later, known⟩)
  | @invokes n q left e here _ _ =>
    obtain ⟨found, known⟩ := owed.resolve_left (by rw [here]; nofun)
    rw [here] at found
    rcases List.mem_cons.mp found with rfl | later
    · exact Or.inl (List.mem_singleton_self _)
    · exact Or.inr (Or.inr ⟨later, known⟩)
  | endsCallback here =>
    obtain ⟨found, known⟩ := owed.resolve_left (by rw [here]; nofun)
    rw [here] at found
    exact Or.inr (Or.inr ⟨found, known⟩)
  | throws _ => exact Or.inr (Or.inl rfl)
  | _ => exact (owed.elsewhere (by simp [*]) (by simp only [ahead, *])).elim

theorem run_owed (ready : p.revents ≠ 0) (owed : Owed p l)
    {steps : List (LoopStep κ τ)} (kept : .removed p.fd ∉ journal step l steps) :
    p.fd ∈ invocations (journal step l steps) ∨ Owed p (run step l steps) := by
  induction steps generalizing l with
  | nil => exact Or.inr owed
  | cons s rest ih =>
    rw [journal] at kept ⊢
    rw [invocations, List.filterMap_append, List.mem_append, or_assoc]
    refine (Moves.owed (l.step_moves s) ready owed fun found => kept (by simp [found])).imp id ?_
    intro still
    exact ih still fun found => kept (by simp [found])

structure CallbacksSafe (κ τ : Type) : Prop where
  /-- A callback is invoked only while it is the registered one. -/
  current : ∀ (steps : List (LoopStep κ τ)) earlier fd flags cb later,
    journal step {} steps = earlier ++ .invoked fd flags cb :: later →
    registered fd earlier = some cb
  /-- Until the next poll the callbacks of what was reported are invoked in order, each at most
  once. -/
  once : ∀ (steps : List (LoopStep κ τ)) earlier ready later,
    journal step {} steps = earlier ++ .polled ready :: later → NoPoll later →
    (invocations later).Sublist (reported ready) ∧ (reported ready).Nodup
  /-- When the round is over, none was left out that had stayed registered. -/
  all : ∀ (steps : List (LoopStep κ τ)) earlier ready later,
    journal step {} steps = earlier ++ .polled ready :: later →
    ahead (run step {} steps).place = [] → (run step {} steps).place ≠ .thrown →
    ∀ fd ∈ reported ready, .removed fd ∉ later → fd ∈ invocations later

theorem holds_empty : Holds ({} : EventLoop κ τ) [] := fun _ => rfl

/-- After a step that polled, what is reported lies ahead and is registered. -/
theorem Moves.polled {ready : List PollFd} (moves : l.Moves s (l', some (.polled ready))) :
    ahead l'.place = ready ∧ (reported ready).Nodup ∧ ∀ p ∈ ready, Owed p l' := by
  cases moves with
  | polls _ n revents all =>
    have keys : ready.map PollFd.fd = l.entries.keys := by
      rw [all, List.map_map]
      rfl
    refine ⟨rfl, ?_, fun p found => Or.inr ⟨found, ?_⟩⟩
    · have distinct : (ready.map PollFd.fd).Nodup := keys ▸ l.entries.nodupKeys
      exact distinct.sublist (List.filter_sublist.map _)
    · show p.fd ∈ l.entries.keys
      rw [← keys]
      exact List.mem_map_of_mem found

/-- A step that can be seen is a move that can be seen. -/
theorem moves_of_made {event : LoopEvent κ τ} (made : (l.step s).2 = some event) :
    l.Moves s ((l.step s).1, some event) := by
  rw [← made]
  exact l.step_moves s

end SecureLink.Guarantees.LoopTasks
