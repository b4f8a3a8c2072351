import SecureLink.Library.Runs
import SecureLink.Source.Health.HealthCheck

/-!
# Results of probes that are gone

`unregister_probe` erases the probe and its result, but a `run_all` that took its snapshot
before overwrites the results with those of the snapshot. A result of a probe that is gone stays
until the name is registered or unregistered again, or the next `run_all` commits.
-/
namespace SecureLink.Guarantees.GhostProbes
open Library.BigEndian Library.Runs Source.Health

variable {τ ω : Type} [DecidableEq τ]

/-- Every cached result belongs to a registered probe. -/
def NoGhost (h : HealthCheck ω) : Prop := ∀ name ∈ h.last, name ∈ h.probes

/-- No `run_all` is in progress. -/
def Quiescent (s : HealthThreads τ ω) : Prop := ∀ thread, s.running thread = none

/-- The section registers or unregisters the name. -/
def Touches (name : Bytes) : Section τ ω → Prop
  | .registerProbe other _ => other = name
  | .unregisterProbe other => other = name
  | _ => False

/-- The section ends a `run_all` that is in progress. -/
def Commits (s : HealthThreads τ ω) : Section τ ω → Prop
  | .commit thread _ _ => (s.running thread).isSome
  | _ => False

abbrev after (sections : List (Section τ ω)) : HealthThreads τ ω := run sectionStep {} sections

/-- Every probe that the last commit reported was registered then, or has been registered or
unregistered since. -/
def LastCommitCurrent (sections : List (Section τ ω)) : Prop :=
  ∀ first thread now worlds rest, sections = first ++ .commit thread now worlds :: rest →
    ∀ snapshot ∈ (after first).running thread,
      AllSteps sectionStep (fun s i => ¬ Commits s i)
        (after (first ++ [.commit thread now worlds])) rest →
      ∀ name ∈ snapshot.map Prod.fst,
        name ∈ (after first).check.probes ∨ ∃ i ∈ rest, Touches name i

/-! ## Between commits -/

/-- What a section that commits nothing does to the result and the probe of a name. -/
theorem step_result {s : HealthThreads τ ω} {i : Section τ ω} (idle : ¬ Commits s i) (name : Bytes)
    (later : Prop) :
    (name ∈ (sectionStep s i).1.check.last →
      name ∈ (sectionStep s i).1.check.probes ∨ later) ↔
    (name ∈ s.check.last → name ∈ s.check.probes ∨ Touches name i ∨ later) := by
  cases i with
  | registerProbe other fn =>
    simp only [sectionStep, HealthCheck.registerProbe, Touches, AList.mem_insert, eq_comm (a := name)]
    tauto
  | unregisterProbe other =>
    simp only [sectionStep, HealthCheck.unregisterProbe, Touches, AList.mem_erase,
      eq_comm (a := other)]
    tauto
  | snapshot thread =>
    simp only [sectionStep, Touches, false_or]
    split <;> rfl
  | commit thread now worlds =>
    simp only [Commits, Option.not_isSome_iff_eq_none] at idle
    simp only [sectionStep, idle, Touches, false_or]
  | aggregate => simp only [sectionStep, Touches, false_or]
  | render => simp only [sectionStep, Touches, false_or]

/-- Without a commit a ghost is gone as soon as its name is touched, and none appears. -/
theorem noGhost_iff_touched {s : HealthThreads τ ω} {sections : List (Section τ ω)}
    (idle : AllSteps sectionStep (fun s i => ¬ Commits s i) s sections) :
    NoGhost (run sectionStep s sections).check ↔
      ∀ name ∈ s.check.last, name ∈ s.check.probes ∨ ∃ i ∈ sections, Touches name i := by
  induction sections generalizing s with
  | nil => simp [NoGhost]
  | cons i rest ih =>
    rw [run_cons, ih idle.2]
    apply forall_congr'
    intro name
    rw [step_result idle.1, List.exists_mem_cons_iff]

/-- The results after a commit are those of its snapshot; the probes are left alone. -/
theorem commit_check {s : HealthThreads τ ω} {thread : τ} {snapshot : ProbeSnapshot ω}
    (running : s.running thread = some snapshot) (now : Nat) (worlds : Bytes → ω) :
    (∀ name, name ∈ (sectionStep s (.commit thread now worlds)).1.check.last ↔
      name ∈ snapshot.map Prod.fst) ∧
    (sectionStep s (.commit thread now worlds)).1.check.probes = s.check.probes := by
  simp only [sectionStep, running, and_true]
  exact mem_runProbes snapshot now worlds

theorem noGhost_iff_current (sections : List (Section τ ω)) :
    NoGhost (after sections).check ↔ LastCommitCurrent sections := by
  have committed : ∀ first thread now worlds rest snapshot,
      sections = first ++ .commit thread now worlds :: rest →
      (after first).running thread = some snapshot →
      AllSteps sectionStep (fun s i => ¬ Commits s i)
        (after (first ++ [.commit thread now worlds])) rest →
      (NoGhost (after sections).check ↔ ∀ name ∈ snapshot.map Prod.fst,
        name ∈ (after first).check.probes ∨ ∃ i ∈ rest, Touches name i) := by
    intro first thread now worlds rest snapshot split running idle
    have states : after (first ++ [.commit thread now worlds]) =
        (sectionStep (after first) (.commit thread now worlds)).1 := by
      rw [after, run_append]
      rfl
    have whole : after sections =
        run sectionStep (after (first ++ [.commit thread now worlds])) rest := by
      rw [split, List.append_cons, after, run_append]
    rw [whole, noGhost_iff_touched idle, states]
    obtain ⟨results, probes⟩ := commit_check running now worlds
    simp only [results, probes]
  constructor
  · intro noGhost first thread now worlds rest split snapshot running idle
    exact (committed first thread now worlds rest snapshot split running idle).mp noGhost
  · intro current
    rcases allSteps_or_last sectionStep Commits {} sections with
      idle | ⟨first, i, rest, split, commits, idle⟩
    · -- nothing was ever committed
      rw [after, noGhost_iff_touched idle]
      intro name member
      cases member
    · cases i with
      | commit thread now worlds =>
        obtain ⟨snapshot, running⟩ := Option.isSome_iff_exists.mp commits
        have idle' : AllSteps sectionStep (fun s i => ¬ Commits s i)
            (after (first ++ [.commit thread now worlds])) rest := by
          rw [after, run_append]
          exact idle
        exact (committed first thread now worlds rest snapshot split running idle').mpr
          (current first thread now worlds rest split snapshot running idle')
      | _ => exact absurd commits id

/-- In every interleaving of critical sections of any threads: while no `run_all` is in progress only
registered probes have results, exactly if every probe that the last commit reported was registered
then or touched since. A bad aggregate is then the status of a registered probe. -/
theorem no_ghost_results_iff (sections : List (Section τ ω)) :
    ((∀ first rest, sections = first ++ rest → Quiescent (after first) →
        NoGhost (after first).check) ↔
      ∀ first rest, sections = first ++ rest → Quiescent (after first) →
        LastCommitCurrent first) ∧
    ∀ h : HealthCheck ω, NoGhost h → h.aggregate ≠ .kHealthy →
      ∃ name ∈ h.probes, ∃ r ∈ h.last.lookup name, r.status = h.aggregate := by
  constructor
  · simp only [noGhost_iff_current]
  · intro h noGhost reported
    obtain ⟨name, r, cached, status⟩ := aggregate_mem h reported
    have member : name ∈ h.last := AList.lookup_isSome.mp (by rw [Option.mem_def.mp cached]; rfl)
    exact ⟨name, noGhost name member, r, cached, status⟩

/-- A probe is unregistered while `run_all` calls it. -/
def overtaken : List (Section Unit Unit) :=
  [.registerProbe (ascii "db") (fun _ => .returned { status := .kUnhealthy }), .snapshot (),
    .unregisterProbe (ascii "db"), .commit () 0 (fun _ => ())]

/-- No probe is left, and the aggregate stays unhealthy. -/
theorem unregistered_probe_reported :
    Quiescent (after overtaken) ∧ ascii "db" ∈ (after overtaken).check.last ∧
      ascii "db" ∉ (after overtaken).check.probes ∧
      (after overtaken).check.aggregate = .kUnhealthy := by
  refine ⟨fun _ => rfl, ?_, ?_, rfl⟩
  · exact AList.lookup_isSome.mp rfl
  · intro member
    cases AList.lookup_isSome.mpr member

end SecureLink.Guarantees.GhostProbes
