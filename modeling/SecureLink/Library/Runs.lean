import Mathlib.Data.List.Basic

/-!
# Runs of a deterministic machine with outputs

A component is a step function from a state and an input to the next state and
an output. Runs, the inputs a Boolean machine accepted, interleavings, and the induction
rules used for whole runs: a plain invariant, an invariant that holds as long as every
step is taken in a state that meets a side condition, and a simulation of one machine
by another.
-/
namespace SecureLink.Library.Runs

variable {σ ι ο : Type*} (step : σ → ι → σ × ο)

/-- State after feeding a list of inputs in order. -/
def run : σ → List ι → σ
  | s, [] => s
  | s, i :: rest => run (step s i).1 rest

@[simp] theorem run_nil (s : σ) : run step s [] = s := rfl

@[simp] theorem run_cons (s : σ) (i : ι) (rest : List ι) :
    run step s (i :: rest) = run step (step s i).1 rest := rfl

theorem run_append (s : σ) (first second : List ι) :
    run step s (first ++ second) = run step (run step s first) second := by
  induction first generalizing s with
  | nil => rfl
  | cons i rest ih => exact ih _

/-- The outputs of a run, in order. -/
def outputs : σ → List ι → List ο
  | _, [] => []
  | s, i :: rest => (step s i).2 :: outputs (step s i).1 rest

/-- Every input is consumed in a state that meets `cond`. -/
def AllSteps (cond : σ → ι → Prop) : σ → List ι → Prop
  | _, [] => True
  | s, i :: rest => cond s i ∧ AllSteps cond (step s i).1 rest

instance (cond : σ → ι → Prop) [∀ s i, Decidable (cond s i)] :
    ∀ (s : σ) (inputs : List ι), Decidable (AllSteps step cond s inputs)
  | _, [] => isTrue trivial
  | s, i :: rest =>
    have : Decidable (AllSteps step cond (step s i).1 rest) := instDecidableAllSteps cond _ rest
    inferInstanceAs (Decidable (cond s i ∧ AllSteps step cond (step s i).1 rest))

variable {step} {cond : σ → ι → Prop} {s : σ} {inputs : List ι}

theorem allSteps_append {first second : List ι} :
    AllSteps step cond s (first ++ second) ↔
      AllSteps step cond s first ∧ AllSteps step cond (run step s first) second := by
  induction first generalizing s with
  | nil => simp [AllSteps]
  | cons i rest ih => simp only [List.cons_append, AllSteps, run_cons, ih, and_assoc]

/-- Either no step meets a condition, or there is a last one that does. -/
theorem allSteps_or_last (step : σ → ι → σ × ο) (cond : σ → ι → Prop) (s : σ) (inputs : List ι) :
    AllSteps step (fun s i => ¬ cond s i) s inputs ∨
      ∃ first i rest, inputs = first ++ i :: rest ∧ cond (run step s first) i ∧
        AllSteps step (fun s i => ¬ cond s i) (step (run step s first) i).1 rest := by
  induction inputs generalizing s with
  | nil => exact .inl trivial
  | cons i rest ih =>
    rcases ih (step s i).1 with holds | ⟨first, j, later, rfl, meets, after⟩
    · by_cases meets : cond s i
      · exact .inr ⟨[], i, rest, rfl, meets, holds⟩
      · exact .inl ⟨meets, holds⟩
    · exact .inr ⟨i :: first, j, later, rfl, meets, after⟩

theorem AllSteps.mono {weaker : σ → ι → Prop} (implies : ∀ s i, cond s i → weaker s i)
    (steps : AllSteps step cond s inputs) : AllSteps step weaker s inputs := by
  induction inputs generalizing s with
  | nil => trivial
  | cons i rest ih => exact ⟨implies s i steps.1, ih steps.2⟩

theorem AllSteps.and {p q : σ → ι → Prop} (left : AllSteps step p s inputs)
    (right : AllSteps step q s inputs) : AllSteps step (fun s i => p s i ∧ q s i) s inputs := by
  induction inputs generalizing s with
  | nil => trivial
  | cons i rest ih => exact ⟨⟨left.1, right.1⟩, ih left.2 right.2⟩

/-- Invariant rule: holds initially, kept by every step that meets the condition. -/
theorem AllSteps.invariant (inv : σ → Prop) (keeps : ∀ s i, inv s → cond s i → inv (step s i).1)
    (start : inv s) (steps : AllSteps step cond s inputs) : inv (run step s inputs) := by
  induction inputs generalizing s with
  | nil => exact start
  | cons i rest ih => exact ih (keeps s i start steps.1) steps.2

/-- Two properties that agree on every step from a state with the invariant hold over the
same runs. -/
theorem AllSteps.congr {p q : σ → ι → Prop} (inv : σ → Prop)
    (keeps : ∀ s i, inv s → cond s i → inv (step s i).1)
    (agree : ∀ s i, inv s → cond s i → (p s i ↔ q s i)) (start : inv s)
    (steps : AllSteps step cond s inputs) :
    AllSteps step p s inputs ↔ AllSteps step q s inputs := by
  induction inputs generalizing s with
  | nil => exact Iff.rfl
  | cons i rest ih =>
    exact and_congr (agree s i start steps.1) (ih (keeps s i start steps.1) steps.2)

/-- Invariant rule without a side condition. -/
theorem run_invariant (inv : σ → Prop) (keeps : ∀ s i, inv s → inv (step s i).1) (inputs : List ι)
    (start : inv s) : inv (run step s inputs) := by
  induction inputs generalizing s with
  | nil => exact start
  | cons i rest ih => exact ih (keeps s i start)

/-- What holds at every step from a state with the invariant holds over a whole run. -/
theorem allSteps_of_invariant (inv : σ → Prop) (keeps : ∀ s i, inv s → inv (step s i).1)
    (here : ∀ s i, inv s → cond s i) (inputs : List ι) (start : inv s) :
    AllSteps step cond s inputs := by
  induction inputs generalizing s with
  | nil => trivial
  | cons i rest ih => exact ⟨here s i start, ih (keeps s i start)⟩

/-- From a safe state a step that meets the condition, and no other, leads to a safe state. Then
a run stays safe exactly as long as it meets the condition. -/
theorem AllSteps.safe_iff {side : σ → ι → Prop} (inv safe : σ → Prop)
    (keeps : ∀ s i, inv s → side s i → inv (step s i).1)
    (exact_step : ∀ s i, inv s → side s i → safe s → (safe (step s i).1 ↔ cond s i)) (start : inv s)
    (safe_start : safe s) (steps : AllSteps step side s inputs) :
    AllSteps step (fun s i => safe (step s i).1) s inputs ↔ AllSteps step cond s inputs := by
  induction inputs generalizing s with
  | nil => exact Iff.rfl
  | cons i rest ih =>
    have here := exact_step s i start steps.1 safe_start
    have next := keeps s i start steps.1
    constructor
    · intro ⟨stays, later⟩
      exact ⟨here.mp stays, (ih next stays steps.2).mp later⟩
    · intro ⟨met, later⟩
      exact ⟨here.mpr met, (ih next (here.mpr met) steps.2).mpr later⟩

/-- Exactness rule: as long as the condition is met the invariant keeps the state safe; the
first step that does not meet it leads to a state that is, and stays, unsafe. -/
theorem safe_run_iff (inv broken safe : σ → Prop) (sound : ∀ s, inv s → safe s)
    (unsound : ∀ s, broken s → ¬ safe s) (keeps : ∀ s i, inv s → cond s i → inv (step s i).1)
    (breaks : ∀ s i, inv s → ¬ cond s i → broken (step s i).1)
    (stays : ∀ s i, broken s → broken (step s i).1) (start : inv s) :
    safe (run step s inputs) ↔ AllSteps step cond s inputs := by
  induction inputs generalizing s with
  | nil => exact iff_of_true (sound s start) trivial
  | cons i rest ih =>
    by_cases met : cond s i
    · exact (ih (keeps s i start met)).trans (and_iff_right met).symm
    · have lost : broken (run step (step s i).1 rest) :=
        run_invariant broken stays rest (breaks s i start met)
      exact iff_of_false (unsound _ lost) (fun steps => met steps.1)

/-- What a machine that does not output at every step outputs from a state on. -/
def journal (step : σ → ι → σ × Option ο) : σ → List ι → List ο
  | _, [] => []
  | s, i :: rest => (step s i).2.toList ++ journal step (step s i).1 rest

theorem journal_append (step : σ → ι → σ × Option ο) (s : σ) (first second : List ι) :
    journal step s (first ++ second) = journal step s first ++ journal step (run step s first) second := by
  induction first generalizing s with
  | nil => rfl
  | cons i rest ih => rw [List.cons_append, journal, journal, ih, run_cons, List.append_assoc]

/-- Every entry of the journal was made by a step. -/
theorem journal_split {step : σ → ι → σ × Option ο} {earlier later : List ο} {o : ο}
    (logged : journal step s inputs = earlier ++ o :: later) :
    ∃ before i behind, inputs = before ++ i :: behind ∧ journal step s before = earlier ∧
      (step (run step s before) i).2 = some o ∧
      journal step (step (run step s before) i).1 behind = later := by
  induction inputs generalizing s earlier with
  | nil => cases earlier <;> cases logged
  | cons i rest ih =>
    rw [journal] at logged
    cases here : (step s i).2 with
    | none =>
      rw [here] at logged
      obtain ⟨before, j, behind, rfl, first, made, last⟩ := ih logged
      exact ⟨i :: before, j, behind, rfl, by rw [journal, here, first]; rfl, made, last⟩
    | some o' =>
      rw [here, Option.toList_some, List.singleton_append] at logged
      cases earlier with
      | nil =>
        cases logged
        exact ⟨[], i, rest, rfl, rfl, here, rfl⟩
      | cons e earlier =>
        obtain ⟨rfl, further⟩ := List.cons.inj logged
        obtain ⟨before, j, behind, rfl, first, made, last⟩ := ih further
        exact ⟨i :: before, j, behind, rfl, by rw [journal, here, first]; rfl, made, last⟩

/-- What every step from a state with the invariant outputs, a whole run outputs. -/
theorem outputs_forall (inv : σ → Prop) (good : ο → Prop) (keeps : ∀ s i, inv s → inv (step s i).1)
    (answers : ∀ s i, inv s → good (step s i).2) (inputs : List ι) (start : inv s) :
    ∀ o ∈ outputs step s inputs, good o := by
  induction inputs generalizing s with
  | nil => simp [outputs]
  | cons i rest ih =>
    intro o member
    rcases List.mem_cons.mp member with rfl | later
    · exact answers s i start
    · exact ih (keeps s i start) o later

theorem AllSteps.of_forall {admissible : ι → Prop} (all : ∀ i ∈ inputs, admissible i) (s : σ) :
    AllSteps step (fun _ i => admissible i) s inputs := by
  induction inputs generalizing s with
  | nil => trivial
  | cons i rest ih => exact ⟨all i (by simp), ih (fun j later => all j (by simp [later])) _⟩

/-- What a growing log holds after a run was there before or was put there by one of the steps. -/
theorem mem_log_run {ε : Type*} (log : σ → List ε) (puts : σ → ι → List ε)
    (grows : ∀ s i, log (step s i).1 = log s ++ puts s i) {x : ε} :
    x ∈ log (run step s inputs) ↔
      x ∈ log s ∨ ∃ first i rest, inputs = first ++ i :: rest ∧ x ∈ puts (run step s first) i := by
  induction inputs generalizing s with
  | nil => simp
  | cons i later ih =>
    rw [run_cons, ih, grows, List.mem_append, or_assoc]
    apply or_congr Iff.rfl
    constructor
    · rintro (here | ⟨first, j, rest, rfl, put⟩)
      · exact ⟨[], i, later, rfl, here⟩
      · exact ⟨i :: first, j, rest, rfl, put⟩
    · rintro ⟨first, j, rest, split, put⟩
      cases first with
      | nil =>
        obtain ⟨rfl, rfl⟩ := List.cons.inj split
        exact Or.inl put
      | cons k first =>
        obtain ⟨rfl, rfl⟩ := List.cons.inj split
        exact Or.inr ⟨first, j, rest, rfl, put⟩

/-- A condition on every output is a condition on every step. -/
theorem allSteps_outputs {good : ο → Prop} :
    AllSteps step (fun s i => good (step s i).2) s inputs ↔ ∀ o ∈ outputs step s inputs, good o := by
  induction inputs generalizing s with
  | nil => simp [AllSteps, outputs]
  | cons i rest ih => simp only [AllSteps, outputs, List.forall_mem_cons, ih]

/-- Simulation rule: two machines that stay related, and answer alike, on every step that
meets the condition answer alike over a whole run and end related. -/
theorem run_simulates {τ : Type*} {spec : τ → ι → τ × ο} (related : σ → τ → Prop)
    (follows : ∀ s t i, related s t → cond s i →
      related (step s i).1 (spec t i).1 ∧ (step s i).2 = (spec t i).2) {t : τ} (start : related s t)
    (steps : AllSteps step cond s inputs) :
    related (run step s inputs) (run spec t inputs) ∧ outputs step s inputs = outputs spec t inputs := by
  induction inputs generalizing s t with
  | nil => exact ⟨start, rfl⟩
  | cons i rest ih =>
    obtain ⟨next, answer⟩ := follows s t i start steps.1
    obtain ⟨last, answers⟩ := ih next steps.2
    exact ⟨last, congrArg₂ List.cons answer answers⟩

/-- The third list takes its items from the first two, each in its own order. -/
inductive Interleaves : List ι → List ι → List ι → Prop
  | nil : Interleaves [] [] []
  | left {i : ι} {as bs cs : List ι} : Interleaves as bs cs → Interleaves (i :: as) bs (i :: cs)
  | right {i : ι} {as bs cs : List ι} : Interleaves as bs cs → Interleaves as (i :: bs) (i :: cs)

theorem interleaves_nil_left {bs cs : List ι} : Interleaves [] bs cs ↔ cs = bs := by
  constructor
  · intro h
    induction bs generalizing cs with
    | nil =>
      cases h
      rfl
    | cons b bs ih =>
      cases h with
      | right h => rw [ih h]
  · rintro rfl
    induction cs with
    | nil => exact .nil
    | cons c cs ih => exact .right ih

theorem interleaves_nil_right {as cs : List ι} : Interleaves as [] cs ↔ cs = as := by
  constructor
  · intro h
    induction as generalizing cs with
    | nil =>
      cases h
      rfl
    | cons a as ih =>
      cases h with
      | left h => rw [ih h]
  · rintro rfl
    induction cs with
    | nil => exact .nil
    | cons c cs ih => exact .left ih

/-- The first item comes from one of the two. -/
theorem interleaves_cons_cons {a b : ι} {as bs cs : List ι} :
    Interleaves (a :: as) (b :: bs) cs ↔
      (∃ rest, cs = a :: rest ∧ Interleaves as (b :: bs) rest) ∨
      (∃ rest, cs = b :: rest ∧ Interleaves (a :: as) bs rest) := by
  constructor
  · intro h
    cases h with
    | left h => exact Or.inl ⟨_, rfl, h⟩
    | right h => exact Or.inr ⟨_, rfl, h⟩
  · rintro (⟨rest, rfl, h⟩ | ⟨rest, rfl, h⟩)
    · exact .left h
    · exact .right h

/-- All interleavings of an item and what follows it, given those of what follows it. -/
def weave (a : ι) (rest : List ι → List (List ι)) : List ι → List (List ι)
  | [] => (rest []).map (a :: ·)
  | b :: bs => (rest (b :: bs)).map (a :: ·) ++ (weave a rest bs).map (b :: ·)

/-- All interleavings of two lists. -/
def interleavings : List ι → List ι → List (List ι)
  | [] => fun bs => [bs]
  | a :: as => weave a (interleavings as)

theorem mem_interleavings {as bs cs : List ι} : cs ∈ interleavings as bs ↔ Interleaves as bs cs := by
  induction as generalizing bs cs with
  | nil => simp [interleavings, interleaves_nil_left]
  | cons a as ih =>
    induction bs generalizing cs with
    | nil =>
      simp only [interleavings, weave, List.mem_map, ih, interleaves_nil_right]
      constructor
      · rintro ⟨rest, rfl, rfl⟩
        rfl
      · rintro rfl
        exact ⟨as, rfl, rfl⟩
    | cons b bs ihb =>
      simp only [interleavings] at ihb
      simp only [interleavings, weave, List.mem_append, List.mem_map, ih, ihb, interleaves_cons_cons]
      constructor
      · rintro (⟨rest, h, rfl⟩ | ⟨rest, h, rfl⟩)
        · exact Or.inl ⟨rest, rfl, h⟩
        · exact Or.inr ⟨rest, rfl, h⟩
      · rintro (⟨rest, rfl, h⟩ | ⟨rest, rfl, h⟩)
        · exact Or.inl ⟨rest, h, rfl⟩
        · exact Or.inr ⟨rest, h, rfl⟩

/-- The inputs a Boolean machine answered with `true`, in order. -/
def accepted (step : σ → ι → σ × Bool) : σ → List ι → List ι
  | _, [] => []
  | s, i :: rest =>
    if (step s i).2 then i :: accepted step (step s i).1 rest
    else accepted step (step s i).1 rest

/-- Invariant rule over the state and the inputs accepted so far. -/
theorem run_accepted_invariant {step : σ → ι → σ × Bool} (inv : σ → List ι → Prop)
    (keeps : ∀ s log i, inv s log →
      inv (step s i).1 (if (step s i).2 then log ++ [i] else log)) (inputs : List ι) {log : List ι}
    (start : inv s log) : inv (run step s inputs) (log ++ accepted step s inputs) := by
  induction inputs generalizing s log with
  | nil => simpa [accepted] using start
  | cons i rest ih =>
    have later := ih (keeps s log i start)
    cases answer : (step s i).2 <;> simpa [accepted, answer] using later

/-- Outputs of a machine that may refuse an input and then stops for good. -/
def collect (step : σ → ι → Option (σ × ο)) : σ → List ι → List ο
  | _, [] => []
  | s, i :: rest =>
    match step s i with
    | none => []
    | some (s, o) => o :: collect step s rest

/-- A machine in step with a list of items, which only outputs the item it stands at,
outputs a prefix of what lies ahead of it. -/
theorem collect_prefix {step : σ → ι → Option (σ × ο)} {items : List ο} (stands : σ → Nat → Prop)
    (inStep : ∀ s k i s' o, stands s k → step s i = some (s', o) →
      items[k]? = some o ∧ stands s' (k + 1)) (inputs : List ι) {k : Nat} (start : stands s k) :
    collect step s inputs <+: items.drop k := by
  induction inputs generalizing s k with
  | nil => exact List.nil_prefix
  | cons i rest ih =>
    cases result : step s i with
    | none => simp [collect, result]
    | some next =>
      obtain ⟨s', o⟩ := next
      obtain ⟨item, ahead⟩ := inStep s k i s' o start result
      obtain ⟨inside, here⟩ := List.getElem?_eq_some_iff.mp item
      rw [List.drop_eq_getElem_cons inside, here]
      simp only [collect, result]
      exact List.cons_prefix_cons.mpr ⟨rfl, ih ahead⟩

end SecureLink.Library.Runs
