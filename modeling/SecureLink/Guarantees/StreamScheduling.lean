import SecureLink.Library.Runs
import SecureLink.Source.Streams.MultiplexerSteps

/-!
# Scheduling of outbound frames

`pop_outbound` scans the bands in order and takes a chunk from the first stream that has
one (src/stream_multiplexer.cpp:129-151). More urgent bands are served first. Within a band
the scan starts from the same stream every time, since nothing records which one was served
last: a stream takes all its turns before the next one of its band gets any.
-/
namespace SecureLink.Guarantees.StreamScheduling
open Library.BigEndian Library.Runs Source.Streams StreamMultiplexer

/-- The calls that leave the priorities and the set of streams as they are. -/
inductive Call where
  | popOutbound
  | sendData (id : UInt32) (data : Bytes) (fin : Bool)
  deriving DecidableEq

/-- `order` is the iteration order of the streams; a map that no stream is added to keeps it. -/
def step (order : List UInt32) (m : StreamMultiplexer) :
    Call → StreamMultiplexer × Option SlStreamFrame
  | .popOutbound => m.popOutbound order
  | .sendData id data fin => ((m.sendData id data fin).1, none)

/-- The stream that the next `pop_outbound` takes a frame from. -/
def served (order : List UInt32) (m : StreamMultiplexer) : Option UInt32 :=
  (m.popOutbound order).2.map SlStreamFrame.streamId

def band (m : StreamMultiplexer) (id : UInt32) : Nat := (m.recordOf id).priority.band

/-- Two calls of the run take a frame from one stream: the state before the first of them, and
the calls between the two. -/
def ServedTwice (order : List UInt32) (m : StreamMultiplexer) (calls : List Call)
    (before : StreamMultiplexer) (between : List Call) (id : UInt32) : Prop :=
  ∃ first rest, calls = first ++ .popOutbound :: (between ++ .popOutbound :: rest) ∧
    before = run (step order) m first ∧ served order before = some id ∧
    served order (run (step order) (before.popOutbound order).1 between) = some id

/-- Between two frames of a stream there is one of every other stream of its band, if both
have something to send all the time. -/
def RoundRobin (order : List UInt32) (m : StreamMultiplexer) (calls : List Call) : Prop :=
  ∀ before between id other, ServedTwice order m calls before between id → id ≠ other →
    band before id = band before other →
    AllSteps (step order) (fun s _ => s.Waiting id ∧ s.Waiting other) before
      (.popOutbound :: (between ++ [.popOutbound])) →
    ∃ f, some f ∈ outputs (step order) (before.popOutbound order).1 between ∧ f.streamId = other

/-- A frame is taken from a band only when nothing waits in the more urgent ones. -/
def UrgentFirst (order : List UInt32) (m : StreamMultiplexer) (calls : List Call) : Prop :=
  AllSteps (step order) (fun s call => call = .popOutbound → ∀ id, served order s = some id →
    ∀ other, s.Waiting other → band s id ≤ band s other) m calls

/-- Of the streams that wait in the most urgent band that has any, the first in the order. -/
def FirstInLine (order : List UInt32) (m : StreamMultiplexer) (id : UInt32) : Prop :=
  m.Waiting id ∧ ∀ other, m.Waiting other → band m id ≤ band m other ∧
    (band m other = band m id → order.idxOf id ≤ order.idxOf other)

/-- A stream that is first in line before a pop, with two chunks or more and another stream of its
band waiting, is not first in line before a later pop. -/
def NeverFirstAgain (order : List UInt32) (m : StreamMultiplexer) (calls : List Call) : Prop :=
  ∀ first between rest id other, calls = first ++ .popOutbound :: (between ++ .popOutbound :: rest) →
    let before := run (step order) m first
    FirstInLine order before id → 2 ≤ (before.recordOf id).outbound.length →
    id ≠ other → band before id = band before other → before.Waiting other →
    ¬ FirstInLine order (run (step order) m (first ++ .popOutbound :: between)) id

section Steps

variable {order : List UInt32} {m : StreamMultiplexer}

theorem sent_priority (r : StreamRecord) (data : Chunk) (fin : Bool) :
    (sent r data fin).priority = r.priority := by
  cases fin <;> rfl

theorem sent_waiting {r : StreamRecord} (data : Chunk) (fin : Bool) (waiting : r.outbound ≠ []) :
    (sent r data fin).outbound ≠ [] := by
  have queue : (queued r data).outbound ≠ [] := by
    unfold queued
    dsimp only
    split
    · exact waiting
    · simp
  cases fin with
  | false => exact queue
  | true =>
    simp only [sent, queueFin, if_true]
    split
    · simp
    · exact queue

theorem sendData_waiting {id : UInt32} (waiting : m.Waiting id) (target : UInt32) (data : Bytes)
    (fin : Bool) : (m.sendData target data fin).1.Waiting id := by
  rcases m.sendData_cases target data fin with ⟨_, same, _⟩ | ⟨_, _, _, short, _, changed, _⟩
  · rw [Waiting, same.record id]
    exact waiting
  · exact recordOf_related changed.record
      (Q := fun before after => before.outbound ≠ [] → after.outbound ≠ [])
      (fun _ h => h) (sent_waiting _ fin) id waiting

/-- A stream that was not served has what it had. -/
theorem popOutbound_waiting {id : UInt32} (waiting : m.Waiting id) (skipped : served order m ≠ some id) :
    (m.popOutbound order).1.Waiting id := by
  rcases m.popOutbound_cases order with nothing | ⟨id', chunk, rest, _, _, frame, changed, _⟩
  · rw [nothing]
    exact waiting
  · have other : id ≠ id' := by
      rintro rfl
      exact skipped (by rw [served, frame]; rfl)
    rw [Waiting, changed.record id, if_neg other]
    exact waiting

/-- A stream that was served still waits if it had two chunks or more. -/
theorem popOutbound_waiting_served {id : UInt32} (here : served order m = some id) :
    (m.popOutbound order).1.Waiting id ↔ 2 ≤ (m.recordOf id).outbound.length := by
  rcases m.popOutbound_cases order with nothing | ⟨id', chunk, rest, _, queue, frame, changed, _⟩
  · rw [served, nothing] at here
    cases here
  · rw [served, frame] at here
    obtain rfl : id' = id := Option.some.inj here
    rw [Waiting, changed.record, if_pos rfl, queue, List.length_cons]
    exact List.length_pos_iff.symm.trans Nat.succ_le_succ_iff.symm

theorem step_band (call : Call) (id : UInt32) : band (step order m call).1 id = band m id := by
  unfold band
  cases call with
  | popOutbound =>
    rcases m.popOutbound_cases order with nothing | ⟨id', chunk, rest, _, _, _, changed, _⟩
    · simp only [step, nothing]
    · exact recordOf_related changed.record
        (Q := fun before after => after.priority.band = before.priority.band)
        (fun _ => rfl) rfl id
  | sendData target data fin =>
    rcases m.sendData_cases target data fin with ⟨_, same, _⟩ | ⟨_, _, _, short, _, changed, _⟩
    · simp only [step, same.record id]
    · exact recordOf_related changed.record
        (Q := fun before after => after.priority.band = before.priority.band)
        (fun _ => rfl) (by rw [sent_priority]) id

theorem step_known (call : Call) (id : UInt32) :
    (step order m call).1.Known id ↔ m.Known id := by
  cases call with
  | popOutbound =>
    rcases m.popOutbound_cases order with nothing | ⟨id', chunk, rest, knows, _, _, changed, _⟩
    · simp only [step, nothing]
    · exact changed.known_iff knows id
  | sendData target data fin =>
    rcases m.sendData_cases target data fin with ⟨_, _, known, _⟩ | ⟨_, knows, _, short, _, changed, _⟩
    · exact known id
    · exact changed.known_iff knows id

/-- The order visits every stream that exists. -/
def Covers (order : List UInt32) (m : StreamMultiplexer) : Prop := ∀ id, m.Known id → id ∈ order

theorem covers_step (covers : Covers order m) (call : Call) : Covers order (step order m call).1 :=
  fun id knows => covers id ((step_known call id).mp knows)

theorem covers_run (covers : Covers order m) (calls : List Call) :
    Covers order (run (step order) m calls) :=
  run_invariant (Covers order) (fun _ call h => covers_step h call) calls covers

theorem served_first (covers : Covers order m) {id : UInt32} (here : served order m = some id) :
    FirstInLine order m id := by
  obtain ⟨f, popped, rfl⟩ := Option.map_eq_some_iff.mp here
  obtain ⟨waiting, first⟩ := popOutbound_first popped
  exact ⟨waiting, fun other waits => first other (covers other waits.known) waits⟩

/-- The stream that is served is the one that is first in line. -/
theorem served_iff (covers : Covers order m) {id : UInt32} :
    served order m = some id ↔ FirstInLine order m id := by
  refine ⟨served_first covers, fun first => ?_⟩
  have member := covers id first.1.known
  cases here : served order m with
  | none => exact absurd first.1 (popOutbound_none (Option.map_eq_none_iff.mp here) id member)
  | some other =>
    -- each of the two is in front of the other
    obtain ⟨waits, ahead⟩ := served_first covers here
    have toOther := first.2 other waits
    have toThis := ahead id first.1
    have sameBand := Nat.le_antisymm toOther.1 toThis.1
    have same := Nat.le_antisymm (toOther.2 sameBand.symm) (toThis.2 sameBand)
    exact congrArg some ((List.idxOf_inj member).mp same).symm

end Steps

section Turns

variable {order : List UInt32} {id other : UInt32}

/-- As long as a stream waits and is not served, a stream of its band behind it is not served
either. -/
theorem both_wait {s : StreamMultiplexer} (covers : Covers order s) (waits : s.Waiting id)
    (otherWaits : s.Waiting other) (same : band s id = band s other)
    (ahead : order.idxOf id < order.idxOf other) {calls : List Call}
    (skipped : ∀ f, some f ∈ outputs (step order) s calls → f.streamId ≠ id) :
    AllSteps (step order) (fun s _ => s.Waiting id ∧ s.Waiting other) s (calls ++ [.popOutbound]) ∧
    ∀ f, some f ∈ outputs (step order) s calls → f.streamId ≠ other := by
  induction calls generalizing s with
  | nil => exact ⟨⟨⟨waits, otherWaits⟩, trivial⟩, fun f member => absurd member List.not_mem_nil⟩
  | cons call rest ih =>
    -- the call takes nothing from either stream
    have untouched : (step order s call).1.Waiting id ∧ (step order s call).1.Waiting other ∧
        ∀ f, (step order s call).2 = some f → f.streamId ≠ other := by
      cases call with
      | sendData target data fin =>
        exact ⟨sendData_waiting waits target data fin, sendData_waiting otherWaits target data fin,
          fun f sent => absurd sent (by simp [step])⟩
      | popOutbound =>
        have notThis : served order s ≠ some id := by
          intro here
          obtain ⟨f, popped, own⟩ := Option.map_eq_some_iff.mp here
          exact skipped f (List.mem_cons.mpr (Or.inl popped.symm)) own
        have notOther : served order s ≠ some other := by
          intro here
          have behind := ((served_first covers here).2 id waits).2 same
          omega
        refine ⟨popOutbound_waiting waits notThis, popOutbound_waiting otherWaits notOther, ?_⟩
        intro f popped own
        have popped' : (s.popOutbound order).2 = some f := popped
        exact notOther (by rw [served, popped', Option.map_some, own])
    obtain ⟨waits', otherWaits', notOther⟩ := untouched
    obtain ⟨steps, later⟩ := ih (covers_step covers call) waits' otherWaits'
      (by rw [step_band, step_band, same])
      (fun f member => skipped f (List.mem_cons_of_mem _ member))
    refine ⟨⟨⟨waits, otherWaits⟩, steps⟩, fun f member => ?_⟩
    rcases List.mem_cons.mp member with here | after
    · exact notOther f here.symm
    · exact later f after

/-- The first of the later calls that serve a stream. -/
theorem next_turn (rest : List Call) {s : StreamMultiplexer} {between : List Call}
    (again : served order (run (step order) s between) = some id) :
    ∃ between' rest', between ++ .popOutbound :: rest = between' ++ .popOutbound :: rest' ∧
      served order (run (step order) s between') = some id ∧
      ∀ f, some f ∈ outputs (step order) s between' → f.streamId ≠ id := by
  induction between generalizing s with
  | nil => exact ⟨[], rest, rfl, again, fun f member => absurd member List.not_mem_nil⟩
  | cons call later ih =>
    by_cases now : call = .popOutbound ∧ served order s = some id
    · obtain ⟨rfl, here⟩ := now
      exact ⟨[], _, rfl, here, fun f member => absurd member List.not_mem_nil⟩
    · obtain ⟨between', rest', split, served', skipped⟩ := ih again
      refine ⟨call :: between', rest', congrArg (call :: ·) split, served', fun f member => ?_⟩
      rcases List.mem_cons.mp member with here | after
      · intro own
        cases call with
        | sendData target data fin => cases here
        | popOutbound =>
          have popped : (s.popOutbound order).2 = some f := here.symm
          exact now ⟨rfl, by rw [served, popped, Option.map_some, own]⟩
      · exact skipped f after

end Turns

/-- For every multiplexer and every run of pops and sends: more urgent bands come first, and
streams of a band take turns exactly if no stream that left chunks behind, with another one
waiting, is first in line before a later pop. -/
theorem round_robin_iff (m : StreamMultiplexer) (order : List UInt32)
    (iterates : order.Perm m.streams.keys) (calls : List Call) :
    UrgentFirst order m calls ∧ (RoundRobin order m calls ↔ NeverFirstAgain order m calls) := by
  have covers : Covers order m := fun id knows =>
    iterates.mem_iff.mpr ((known_iff_mem_keys m id).mp knows)
  refine ⟨?_, ?_, ?_⟩
  · refine allSteps_of_invariant (Covers order) (fun _ call h => covers_step h call) ?_ calls covers
    intro s call h pop id here other waits
    exact ((served_first h here).2 other waits).1
  · intro fair first between rest id other split before inLine chunks different same otherWaits later
    have covered := covers_run covers first
    have here := (served_iff covered).mpr inLine
    have again := (served_iff (covers_run covers _)).mpr later
    rw [run_append, run_cons] at again
    obtain ⟨between', rest', resplit, again', skipped⟩ := next_turn rest again
    have otherSkipped : served order before ≠ some other := by
      rw [here]
      exact fun equal => different (Option.some.inj equal)
    have strict : order.idxOf id < order.idxOf other :=
      Nat.lt_of_le_of_ne ((inLine.2 other otherWaits).2 same.symm)
        (fun equal => different ((List.idxOf_inj (covered id inLine.1.known)).mp equal))
    obtain ⟨steps, never⟩ := both_wait (covers_step covered .popOutbound)
      ((popOutbound_waiting_served here).mpr chunks) (popOutbound_waiting otherWaits otherSkipped)
      (by rw [step_band, step_band, same]) strict skipped
    obtain ⟨f, popped, own⟩ := fair before between' id other
      ⟨first, rest', by rw [split, resplit], rfl, here, again'⟩ different same
      ⟨⟨inLine.1, otherWaits⟩, steps⟩
    exact never f popped own
  · intro never before between id other twice different same steps
    obtain ⟨first, rest, split, rfl, here, again⟩ := twice
    obtain ⟨⟨_, otherWaits⟩, later⟩ := steps
    have waits : ((run (step order) m first).popOutbound order).1.Waiting id := by
      cases between with
      | nil => exact later.1.1
      | cons call rest => exact later.1.1
    have covered := covers_run covers first
    refine absurd ?_ (never first between rest id other split (served_first covered here)
      ((popOutbound_waiting_served here).mp waits) different same otherWaits)
    rw [run_append, run_cons]
    exact served_first (covers_run (covers_step covered .popOutbound) between) again

/-- Two streams of one band, with the given payloads queued on each. -/
def toyMux (payloads : List Bytes) : StreamMultiplexer :=
  run (step [1, 3])
    (((StreamMultiplexer.new .client 100).openStream .normal).1.openStream .normal).1
    (payloads.map (.sendData 1 · false) ++ payloads.map (.sendData 3 · false))

/-- With one frame each, the streams are served one after the other. -/
theorem single_frames_take_turns :
    (outputs (step [1, 3]) (toyMux [[7]]) [.popOutbound, .popOutbound]).map
      (Option.map SlStreamFrame.streamId) = [some 1, some 3] ∧
    RoundRobin [1, 3] (toyMux [[7]]) [.popOutbound, .popOutbound] := by
  refine ⟨by decide +kernel, (round_robin_iff (toyMux [[7]]) [1, 3] (by decide +kernel)
    [.popOutbound, .popOutbound]).2.mpr ?_⟩
  intro first between rest id other split _ inLine chunks
  have lengths := congrArg List.length split
  simp only [List.length_cons, List.length_append, List.length_nil] at lengths
  obtain rfl : first = [] := List.eq_nil_of_length_eq_zero (by omega)
  -- neither stream has two chunks
  have single : (toyMux [[7]]).streams.keys.all
      (fun id => ((toyMux [[7]]).recordOf id).outbound.length < 2) := by decide +kernel
  have short := List.all_eq_true.mp single id ((known_iff_mem_keys _ id).mp inLine.1.known)
  exact absurd chunks (Nat.not_le.mpr (of_decide_eq_true short))

/-- With two frames each, the first two pops both serve the first stream. -/
theorem first_stream_served_twice :
    [1, 3].Perm (toyMux [[7], [8]]).streams.keys ∧
    (outputs (step [1, 3]) (toyMux [[7], [8]]) [.popOutbound, .popOutbound]).map
      (Option.map SlStreamFrame.streamId) = [some 1, some 1] ∧
    ¬ RoundRobin [1, 3] (toyMux [[7], [8]]) [.popOutbound, .popOutbound] := by
  refine ⟨by decide +kernel, by decide +kernel, fun fair => ?_⟩
  have twice : ServedTwice [1, 3] (toyMux [[7], [8]]) [.popOutbound, .popOutbound]
      (toyMux [[7], [8]]) [] 1 :=
    ⟨[], [], rfl, (run_nil _ _).symm, by decide +kernel, by rw [run_nil]; decide +kernel⟩
  have both : AllSteps (step [1, 3]) (fun s _ => s.Waiting 1 ∧ s.Waiting 3) (toyMux [[7], [8]])
      (.popOutbound :: ([] ++ [.popOutbound])) := by decide +kernel
  obtain ⟨f, popped, _⟩ := fair (toyMux [[7], [8]]) [] 1 3 twice (by decide) (by decide +kernel) both
  cases popped

end SecureLink.Guarantees.StreamScheduling
