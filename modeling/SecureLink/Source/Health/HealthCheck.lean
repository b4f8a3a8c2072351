import Mathlib.Data.List.AList
import SecureLink.Library.BigEndian

/-!
# Health checks

src/health_check.cpp:8-89. A probe is a function of the world at the time it is called, of which
nothing is assumed. The threads inside `run_all` keep the snapshot they took; calling its
probes touches no shared state and is one step with the commit of their results. The order in
which an unordered map is iterated is the order of its entries here.
-/
namespace SecureLink.Source.Health
open Library.BigEndian

inductive HealthStatus where
  | kHealthy | kDegraded | kUnhealthy
  deriving DecidableEq, Repr

namespace HealthStatus

def code : HealthStatus → Nat
  | kHealthy => 0
  | kDegraded => 1
  | kUnhealthy => 2

def toText : HealthStatus → Bytes
  | kHealthy => ascii "healthy"
  | kDegraded => ascii "degraded"
  | kUnhealthy => ascii "unhealthy"

end HealthStatus

structure ProbeResult where
  status : HealthStatus := .kHealthy
  detail : Bytes := []
  checkedAt : Nat := 0
  deriving DecidableEq, Repr

/-- How a call of a probe ends. -/
inductive ProbeOutcome where
  | returned (r : ProbeResult)
  | threw (what : Bytes)
  | threwUnknown
  deriving DecidableEq, Repr

abbrev ProbeFn (ω : Type) := ω → ProbeOutcome

structure HealthCheck (ω : Type) where
  probes : AList (fun _ : Bytes => ProbeFn ω) := ∅
  last : AList (fun _ : Bytes => ProbeResult) := ∅

variable {ω : Type}

/-- The probes of a `run_all`, with their names. -/
abbrev ProbeSnapshot (ω : Type) := List (Bytes × ProbeFn ω)

def checked (fn : ProbeFn ω) (world : ω) (now : Nat) : ProbeResult :=
  match fn world with
  | .returned r => { r with checkedAt := now }
  | .threw what =>
    { status := .kUnhealthy, detail := ascii "probe threw: " ++ what, checkedAt := now }
  | .threwUnknown =>
    { status := .kUnhealthy, detail := ascii "probe threw unknown exception", checkedAt := now }

/-- The results of a snapshot, each probe called in its own world. -/
def runProbes (snapshot : ProbeSnapshot ω) (now : Nat) (worlds : Bytes → ω) :
    AList (fun _ : Bytes => ProbeResult) :=
  snapshot.foldl (fun results probe =>
    results.insert probe.1 (checked probe.2 (worlds probe.1) now)) ∅

namespace HealthCheck

def registerProbe (h : HealthCheck ω) (name : Bytes) (fn : ProbeFn ω) : HealthCheck ω :=
  { h with probes := h.probes.insert name fn }

def unregisterProbe (h : HealthCheck ω) (name : Bytes) : HealthCheck ω :=
  { probes := h.probes.erase name, last := h.last.erase name }

def snapshot (h : HealthCheck ω) : ProbeSnapshot ω := h.probes.entries.map fun e => (e.1, e.2)

def worse (worst : HealthStatus) (r : ProbeResult) : HealthStatus :=
  if r.status.code > worst.code then r.status else worst

def aggregate (h : HealthCheck ω) : HealthStatus :=
  (h.last.entries.map Sigma.snd).foldl worse .kHealthy

def renderProbe (name : Bytes) (r : ProbeResult) : Bytes :=
  ascii "    \x7b\"name\":\"" ++ name ++ ascii "\",\"status\":\"" ++ r.status.toText ++
    ascii "\",\"detail\":\"" ++ r.detail ++ ascii "\"\x7d"

def render (h : HealthCheck ω) : Bytes :=
  ascii "\x7b\n  \"status\": \"" ++ h.aggregate.toText ++ ascii "\",\n  \"probes\": [\n" ++
    (ascii ",\n").intercalate (h.last.entries.map fun e => renderProbe e.1 e.2) ++
    ascii "\n  ]\n\x7d\n"

end HealthCheck

/-! ## Threads -/

/-- The object and the threads inside `run_all`. -/
structure HealthThreads (τ ω : Type) where
  check : HealthCheck ω := {}
  running : τ → Option (ProbeSnapshot ω) := fun _ => none

/-- The critical sections; the first of `run_all` takes the snapshot, the second commits. -/
inductive Section (τ ω : Type)
  | registerProbe (name : Bytes) (fn : ProbeFn ω)
  | unregisterProbe (name : Bytes)
  | snapshot (thread : τ)
  | commit (thread : τ) (now : Nat) (worlds : Bytes → ω)
  | aggregate
  | render

inductive Reply where
  | done
  | status (s : HealthStatus)
  | text (t : Bytes)

variable {τ : Type} [DecidableEq τ]

/-- One critical section; a thread that is not at the section passes. -/
def sectionStep (s : HealthThreads τ ω) : Section τ ω → HealthThreads τ ω × Reply
  | .registerProbe name fn => ({ s with check := s.check.registerProbe name fn }, .done)
  | .unregisterProbe name => ({ s with check := s.check.unregisterProbe name }, .done)
  | .snapshot thread =>
    match s.running thread with
    | some _ => (s, .done)
    | none => ({ s with running := Function.update s.running thread (some s.check.snapshot) }, .done)
  | .commit thread now worlds =>
    match s.running thread with
    | none => (s, .done)
    | some snapshot =>
      ({ check := { s.check with last := runProbes snapshot now worlds }
         running := Function.update s.running thread none }, .done)
  | .aggregate => (s, .status s.check.aggregate)
  | .render => (s, .text s.check.render)

/-! ## Results and probes -/

theorem mem_runProbes (snapshot : ProbeSnapshot ω) (now : Nat) (worlds : Bytes → ω) (name : Bytes) :
    name ∈ runProbes snapshot now worlds ↔ name ∈ snapshot.map Prod.fst := by
  have general : ∀ results : AList (fun _ : Bytes => ProbeResult),
      name ∈ snapshot.foldl (fun results probe =>
        results.insert probe.1 (checked probe.2 (worlds probe.1) now)) results ↔
        name ∈ results ∨ name ∈ snapshot.map Prod.fst := by
    induction snapshot with
    | nil => simp
    | cons probe rest ih =>
      intro results
      rw [List.foldl_cons, ih, AList.mem_insert, List.map_cons, List.mem_cons]
      tauto
  rw [runProbes, general]
  simp

/-- The aggregate is the status of one of the results, or there is nothing to report. -/
theorem aggregate_mem (h : HealthCheck ω) (reported : h.aggregate ≠ .kHealthy) :
    ∃ name, ∃ r ∈ h.last.lookup name, r.status = h.aggregate := by
  have general : ∀ (results : List ProbeResult) (worst : HealthStatus),
      results.foldl HealthCheck.worse worst = worst ∨
        ∃ r ∈ results, r.status = results.foldl HealthCheck.worse worst := by
    intro results
    induction results with
    | nil => exact fun worst => .inl rfl
    | cons r rest ih =>
      intro worst
      rw [List.foldl_cons]
      rcases ih (HealthCheck.worse worst r) with same | ⟨r', member, status⟩
      · rw [same]
        unfold HealthCheck.worse
        split_ifs
        · exact .inr ⟨r, by simp, rfl⟩
        · exact .inl rfl
      · exact .inr ⟨r', by simp [member], status⟩
  rcases general (h.last.entries.map Sigma.snd) .kHealthy with healthy | ⟨r, member, status⟩
  · exact absurd healthy reported
  · obtain ⟨entry, listed, rfl⟩ := List.mem_map.mp member
    exact ⟨entry.1, entry.2, AList.mem_lookup_iff.mpr listed, status⟩

end SecureLink.Source.Health
