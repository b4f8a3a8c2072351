import SecureLink.Guarantees.EventReplay
import SecureLink.Source.Store.ReplayHarness

/-!
# Replay of a file and of its events

The harness has two drivers, a visitor of the log file and a loop over events in memory. On a
file that appends have written both do the same: the iteration reads back the records one by one,
and a visit does to the run what a round of the loop does.
-/
namespace SecureLink.Guarantees.ReplayEquivalence
open Library.Log Library.Runs Source.Store Source.Store.ReplayHarness EventReplay

section Appends

/-- One append; the answer is whether it succeeded. -/
def appendEvent (handle : SlEventLog) (e : Event) : SlEventLog × Bool :=
  ((slEventLogAppend handle e.timestampNs e.type e.payload).1,
    (slEventLogAppend handle e.timestampNs e.type e.payload).2 == 0)

/-- The log stays in step with the events whose append succeeded. -/
theorem appendEvent_holds (handle : SlEventLog) (events : List Event) (e : Event)
    (h : Holds handle events) :
    Holds (appendEvent handle e).1 (if (appendEvent handle e).2 then events ++ [e] else events) := by
  by_cases fits : e.payload.length ≤ eventPayloadMax
  · by_cases room : handle.file.length + (recordBytes (e.record (events.length + 1))).length < longBound
    · obtain ⟨after, appended, holds⟩ := h.append fits room
      simpa [appendEvent, appended] using holds
    · simpa [appendEvent, h.append_eq fits, room] using h
  · simpa [appendEvent, slEventLogAppend, Nat.not_le.mp fits] using h

/-- A new log, and the same after appends. -/
def newLog : SlEventLog := { file := [] }

def appended (events : List Event) : SlEventLog := run appendEvent newLog events

/-- The events whose append succeeded. -/
def kept (events : List Event) : List Event := accepted appendEvent newLog events

theorem newLog_opened : slEventLogOpen 1 [] = some newLog := rfl

theorem newLog_holds : Holds newLog [] := ⟨rfl, rfl, by simp [numbered], by decide⟩

theorem appended_holds (events : List Event) : Holds (appended events) (kept events) :=
  run_accepted_invariant Holds appendEvent_holds events newLog_holds

/-- From a log in step, every event that is not too long is appended, if there is room for all. -/
theorem accepted_all {handle : SlEventLog} {before events : List Event} (h : Holds handle before)
    (fits : ∀ e ∈ events, e.payload.length ≤ eventPayloadMax)
    (room : (log recordBytes (numbered (before ++ events))).length < longBound) :
    accepted appendEvent handle events = events := by
  induction events generalizing handle before with
  | nil => rfl
  | cons e rest ih =>
    have split : before ++ e :: rest = before ++ [e] ++ rest := by simp
    rw [split] at room
    have front : (log recordBytes (numbered (before ++ [e]))).length < longBound := by
      have parts : ∃ more, numbered (before ++ [e] ++ rest) = numbered (before ++ [e]) ++ more :=
        ⟨_, List.mapIdx_append⟩
      obtain ⟨more, parts⟩ := parts
      rw [parts, log_append, List.length_append] at room
      omega
    have own : handle.file.length + (recordBytes (e.record (before.length + 1))).length < longBound := by
      rwa [numbered_concat, log_append, log_cons, log_nil, List.append_nil, List.length_append,
        ← h.file] at front
    obtain ⟨after, appended, holds⟩ := h.append (fits e (by simp)) own
    have step : appendEvent handle e = (after, true) := by simp [appendEvent, appended]
    have later := ih holds (fun e member => fits e (by simp [member])) room
    rw [accepted, step, if_pos rfl, later]

end Appends

section Drivers
variable {η : Type} (h : ReplayHarness η) (respectTiming : Bool) (maxSleepMs : UInt32)

/-- Visiting records is looping over the events in them. -/
theorem visitAll_ofLoop (records : List SlEventRecord) (l : EventsLoop η) :
    visitAll visitorThunk records (RunCtx.ofLoop h respectTiming maxSleepMs l) =
      RunCtx.ofLoop h respectTiming maxSleepMs
        ((records.map recorded).foldl (h.runEvent respectTiming maxSleepMs) l) := by
  induction records generalizing l with
  | nil => rfl
  | cons r rest ih =>
    rw [visitAll, visitorThunk_ofLoop, if_neg (not_not.mpr rfl), ih, List.map_cons, List.foldl_cons]

/-- The statistics but for the time that the run took. -/
def counts (stats : ReplayStats) : ReplayStats := { stats with elapsedNs := 0 }

/-- The events that the log of the appends records. -/
def recordedEvents (events : List Event) : List ReplayEvent := (numbered (kept events)).map recorded

/-- Whatever events are appended to a new log, with any handlers and any timing: a run on the
file returns, with the same effects and the same counts as a run on the recorded events. Those are
all the events, if none is too long and the file has room for them. -/
theorem run_file_eq_run_events (events : List Event) (t0 t1 t0' t1' : Int) :
    (∃ stats stats' effects,
      h.runFile ((appended events).file.length + 1) (some (slEventLogClose (appended events)))
        respectTiming maxSleepMs t0 t1 = some (stats, effects) ∧
      h.runEvents (recordedEvents events) respectTiming maxSleepMs t0' t1' = (stats', effects) ∧
      counts stats = counts stats') ∧
    ((∀ e ∈ events, e.payload.length ≤ eventPayloadMax) →
      (log recordBytes (numbered events)).length < longBound → kept events = events) := by
  have holds := appended_holds events
  constructor
  · have enough : (numbered (kept events)).length < (appended events).file.length + 1 := by
      rw [length_numbered]
      exact Nat.lt_succ_of_le holds.length_le
    have visit := iterateLoop_log visitorThunk holds.fits []
      (by rw [List.nil_append, ← holds.file]; exact holds.long) enough
      (RunCtx.ofLoop h respectTiming maxSleepMs {})
    rw [List.nil_append, ← holds.file, visitAll_ofLoop] at visit
    exact ⟨_, _, _, runFile_ofLoop visit t0 t1, rfl, rfl⟩
  · intro fits room
    exact accepted_all newLog_holds fits room

end Drivers

end SecureLink.Guarantees.ReplayEquivalence
