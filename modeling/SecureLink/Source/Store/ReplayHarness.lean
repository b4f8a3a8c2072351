import Mathlib.Data.List.AList
import SecureLink.Source.Store.EventLog

/-!
# Replay harness

src/replay_harness.cpp:8-109. A handler is a value of any type, registered under the type of an
event as a signed integer. What a replay does to the outside, its calls of handlers and its sleeps,
is a list of effects in order; handlers do not change the harness that calls them. Readings of the
steady clock are counts of nanoseconds and arguments.
-/
namespace SecureLink.Source.Store
open Library.BigEndian

structure ReplayEvent where
  seq : UInt64 := 0
  timestampNs : UInt64 := 0
  type : UInt32 := 99
  payload : Bytes := []
  deriving DecidableEq, Repr

structure ReplayStats where
  eventsSeen : UInt64 := 0
  eventsDispatched : UInt64 := 0
  eventsSkipped : UInt64 := 0
  elapsedNs : UInt64 := 0
  deriving DecidableEq, Repr

inductive ReplayEffect (η : Type) where
  | call (handler : η) (ev : ReplayEvent)
  | sleep (ms : UInt64)
  deriving DecidableEq, Repr

structure ReplayHarness (η : Type) where
  handlers : AList (fun _ : Int32 => η) := ∅
  defaultHandler : Option η := none

namespace ReplayHarness
variable {η : Type}

def dispatch (h : ReplayHarness η) (ev : ReplayEvent) : List (ReplayEffect η) :=
  match h.handlers.lookup ev.type.toInt32 with
  | some handler => [.call handler ev]
  | none =>
    match h.defaultHandler with
    | some handler => [.call handler ev]
    | none => []

/-- The data of one run on a file. -/
structure RunCtx (η : Type) where
  self : ReplayHarness η
  stats : ReplayStats := {}
  respectTiming : Bool
  maxSleepMs : UInt32
  prevTsNs : UInt64

def visitorThunk (r : SlEventRecord) (user : RunCtx η × List (ReplayEffect η)) :
    (RunCtx η × List (ReplayEffect η)) × Int :=
  let ctx := user.1
  let ctx := { ctx with stats := { ctx.stats with eventsSeen := ctx.stats.eventsSeen + 1 } }
  let ev : ReplayEvent :=
    { seq := r.seq, timestampNs := r.timestampNs, type := r.type,
      payload := if r.payload.length > 0 then r.payload else [] }
  let effects :=
    if ctx.respectTiming && ctx.prevTsNs != 0 && decide (ev.timestampNs > ctx.prevTsNs) then
      let deltaMs := (ev.timestampNs - ctx.prevTsNs) / 1000000
      let deltaMs := if deltaMs > ctx.maxSleepMs.toUInt64 then ctx.maxSleepMs.toUInt64 else deltaMs
      if deltaMs > 0 then user.2 ++ [.sleep deltaMs] else user.2
    else user.2
  let ctx := { ctx with prevTsNs := ev.timestampNs }
  let handlerPresent := (ctx.self.handlers.lookup ev.type.toInt32).isSome
  if handlerPresent || ctx.self.defaultHandler.isSome then
    (({ ctx with stats := { ctx.stats with
          eventsDispatched := ctx.stats.eventsDispatched + 1 } },
      effects ++ ctx.self.dispatch ev), 0)
  else
    (({ ctx with stats := { ctx.stats with eventsSkipped := ctx.stats.eventsSkipped + 1 } },
      effects), 0)

/-- A file that cannot be opened is `none`; so is the result of a run that is still going on. -/
def runFile (h : ReplayHarness η) (fuel : Nat) (file : Option Bytes) (respectTiming : Bool)
    (maxSleepMs : UInt32) (t0 t1 : Int) : Option (ReplayStats × List (ReplayEffect η)) :=
  let ctx : RunCtx η := { self := h, respectTiming, maxSleepMs, prevTsNs := 0 }
  let done :=
    match file with
    | none => some (ctx, [])
    | some file => slEventLogIterate visitorThunk fuel file (ctx, [])
  done.map fun user => ({ user.1.stats with elapsedNs := UInt64.ofInt (t1 - t0) }, user.2)

/-- The local variables of `run_events`, and the effects so far. -/
structure EventsLoop (η : Type) where
  stats : ReplayStats := {}
  prevTs : UInt64 := 0
  effects : List (ReplayEffect η) := []

/-- The body of the loop over the events. -/
def runEvent (h : ReplayHarness η) (respectTiming : Bool) (maxSleepMs : UInt32) (l : EventsLoop η)
    (ev : ReplayEvent) : EventsLoop η :=
  let stats := { l.stats with eventsSeen := l.stats.eventsSeen + 1 }
  let effects :=
    if respectTiming && l.prevTs != 0 && decide (ev.timestampNs > l.prevTs) then
      let deltaMs := (ev.timestampNs - l.prevTs) / 1000000
      let deltaMs := if deltaMs > maxSleepMs.toUInt64 then maxSleepMs.toUInt64 else deltaMs
      if deltaMs > 0 then l.effects ++ [.sleep deltaMs] else l.effects
    else l.effects
  let prevTs := ev.timestampNs
  let handlerPresent := (h.handlers.lookup ev.type.toInt32).isSome
  if handlerPresent || h.defaultHandler.isSome then
    { stats := { stats with eventsDispatched := stats.eventsDispatched + 1 }, prevTs,
      effects := effects ++ h.dispatch ev }
  else { stats := { stats with eventsSkipped := stats.eventsSkipped + 1 }, prevTs, effects }

def runEvents (h : ReplayHarness η) (events : List ReplayEvent) (respectTiming : Bool)
    (maxSleepMs : UInt32) (t0 t1 : Int) : ReplayStats × List (ReplayEffect η) :=
  let l := events.foldl (h.runEvent respectTiming maxSleepMs) {}
  ({ l.stats with elapsedNs := UInt64.ofInt (t1 - t0) }, l.effects)

/-- The event that a record of the log holds. -/
def recorded (r : SlEventRecord) : ReplayEvent :=
  { seq := r.seq, timestampNs := r.timestampNs, type := r.type, payload := r.payload }

/-- The data of a run on a file, from the variables of a run on events. -/
def RunCtx.ofLoop (h : ReplayHarness η) (respectTiming : Bool) (maxSleepMs : UInt32)
    (l : EventsLoop η) : RunCtx η × List (ReplayEffect η) :=
  ({ self := h, stats := l.stats, respectTiming, maxSleepMs, prevTsNs := l.prevTs }, l.effects)

/-- A visit does what a round of the loop does, and never stops the iteration. -/
theorem visitorThunk_ofLoop (h : ReplayHarness η) (respectTiming : Bool) (maxSleepMs : UInt32)
    (l : EventsLoop η) (r : SlEventRecord) :
    visitorThunk r (RunCtx.ofLoop h respectTiming maxSleepMs l) =
      (RunCtx.ofLoop h respectTiming maxSleepMs
        (h.runEvent respectTiming maxSleepMs l (recorded r)), 0) := by
  have payload : (if r.payload.length > 0 then r.payload else []) = r.payload := by
    cases r.payload with
    | nil => rfl
    | cons b rest => rfl
  by_cases handled :
      ((h.handlers.lookup r.type.toInt32).isSome || h.defaultHandler.isSome) = true
  · simp only [visitorThunk, RunCtx.ofLoop, payload, runEvent, recorded, handled, if_true]
    rfl
  · simp only [visitorThunk, RunCtx.ofLoop, payload, runEvent, recorded, handled,
      Bool.false_eq_true, if_false]
    rfl

/-- A run on a file whose iteration returned the data of a loop reports what the loop would. -/
theorem runFile_ofLoop {h : ReplayHarness η} {fuel : Nat} {file : Bytes} {respectTiming : Bool}
    {maxSleepMs : UInt32} {l : EventsLoop η}
    (iterated : slEventLogIterate visitorThunk fuel file
      (RunCtx.ofLoop h respectTiming maxSleepMs {}) =
        some (RunCtx.ofLoop h respectTiming maxSleepMs l)) (t0 t1 : Int) :
    h.runFile fuel (some file) respectTiming maxSleepMs t0 t1 =
      some ({ l.stats with elapsedNs := UInt64.ofInt (t1 - t0) }, l.effects) := by
  unfold RunCtx.ofLoop at iterated
  simp only [runFile, iterated, Option.map_some]

end ReplayHarness

end SecureLink.Source.Store
