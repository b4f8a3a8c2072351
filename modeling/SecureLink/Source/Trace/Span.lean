import SecureLink.Library.Runs
import SecureLink.Source.Trace.TraceContext

/-!
# Spans

inc/span.hpp:46-57, src/span.cpp:5-45 and src/sl_span_kind.c:3-21. A point in time is its distance
from the epoch in nanoseconds. Readings of the clock are arguments.
-/
namespace SecureLink.Source.Trace
open Library.BigEndian Library.Runs

/-- The enumeration, and the other values its type has. -/
inductive SlSpanKind
  | internal
  | server
  | client
  | producer
  | consumer
  | other (value : Nat)
deriving DecidableEq

inductive SlSpanStatus
  | unset
  | ok
  | error
  | other (value : Nat)
deriving DecidableEq

def slSpanKindName : SlSpanKind → Bytes
  | .internal => ascii "internal"
  | .server => ascii "server"
  | .client => ascii "client"
  | .producer => ascii "producer"
  | .consumer => ascii "consumer"
  | .other _ => ascii "?"

def slSpanStatusName : SlSpanStatus → Bytes
  | .unset => ascii "unset"
  | .ok => ascii "ok"
  | .error => ascii "error"
  | .other _ => ascii "?"

structure SpanAttribute where
  key : Bytes
  value : Bytes
deriving DecidableEq

structure SpanEvent where
  at_ : Int
  name : Bytes
  attributes : List SpanAttribute
deriving DecidableEq

structure Span where
  ctx : SlTraceCtx
  parent : SlTraceCtx
  name : Bytes
  kind : SlSpanKind
  status : SlSpanStatus
  statusDesc : Bytes
  attrs : List SpanAttribute
  events : List SpanEvent
  start : Int
  end_ : Int
  ended : Bool
deriving DecidableEq

namespace Span

/-- The constructor. A span that has not ended has the epoch as its end. -/
def new (ctx parent : SlTraceCtx) (name : Bytes) (kind : SlSpanKind) (now : Int) : Span :=
  ⟨ctx, parent, name, kind, .unset, [], [], [], now, 0, false⟩

def setAttribute (s : Span) (key value : Bytes) : Span :=
  if s.ended then s else { s with attrs := s.attrs ++ [⟨key, value⟩] }

def addEvent (s : Span) (name : Bytes) (attrs : List SpanAttribute) (now : Int) : Span :=
  if s.ended then s else { s with events := s.events ++ [⟨now, name, attrs⟩] }

def setStatus (s : Span) (status : SlSpanStatus) (description : Bytes) : Span :=
  if s.ended then s else { s with status := status, statusDesc := description }

/-- `end`. -/
def finish (s : Span) (now : Int) : Span :=
  if s.ended then s else { s with end_ := now, ended := true }

/-- In microseconds, rounded towards zero. -/
def duration (s : Span) (now : Int) : Int := ((if s.ended then s.end_ else now) - s.start).tdiv 1000

inductive Call
  | setAttribute (key value : Bytes)
  | addEvent (name : Bytes) (attrs : List SpanAttribute) (now : Int)
  | setStatus (status : SlSpanStatus) (description : Bytes)
  | finish (now : Int)

def step (s : Span) : Call → Span × Unit
  | .setAttribute key value => (s.setAttribute key value, ())
  | .addEvent name attrs now => (s.addEvent name attrs now, ())
  | .setStatus status description => (s.setStatus status description, ())
  | .finish now => (s.finish now, ())

theorem step_of_ended {s : Span} (ended : s.ended = true) (call : Call) : (s.step call).1 = s := by
  cases call <;> exact if_pos ended

/-- A span that has ended stays as it is. -/
theorem run_of_ended {s : Span} (ended : s.ended = true) (calls : List Call) : run step s calls = s :=
  run_invariant (fun t => t = s) (fun _ call same => by rw [same, step_of_ended ended]) calls rfl

end Span

end SecureLink.Source.Trace
