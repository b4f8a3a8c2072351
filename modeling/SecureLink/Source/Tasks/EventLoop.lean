import Mathlib.Data.List.AList
import SecureLink.Library.Runs

/-!
# Event loop

src/event_loop.cpp:11-95, as the thread of the loop runs it inside `run`. Tasks and callbacks are
names; while one of them runs, the thread may call back into the loop. Other threads may post
and stop between any two steps. The descriptors are polled in the order of the table, which
the source leaves unspecified. A step for which the thread does not stand in the right place
passes.
-/
namespace SecureLink.Source.Tasks

def kEvRead : UInt32 := 1
def kEvWrite : UInt32 := 2

def pollIn : UInt16 := 0x001
def pollOut : UInt16 := 0x004
def pollErr : UInt16 := 0x008
def pollHup : UInt16 := 0x010

structure Entry (κ : Type) where
  events : UInt32
  cb : κ
  deriving DecidableEq, Repr

/-- A descriptor with what `poll` wrote to its entry. -/
structure PollFd where
  fd : Int
  events : UInt16
  revents : UInt16 := 0
  deriving DecidableEq, Repr

/-- Where the thread of the loop stands: between two calls of `run_once`; in `drain_posted` with
the tasks that are left, or inside one of them; among the polled descriptors with those that are
left, or inside a callback. An exception of a callback leaves `run`. -/
inductive Place (τ : Type)
  | between
  | draining (left : List τ)
  | inTask (left : List τ)
  | dispatching (n : Int) (left : List PollFd)
  | inCallback (n : Int) (left : List PollFd)
  | thrown
  deriving DecidableEq, Repr

structure EventLoop (κ τ : Type) where
  running : Bool := false
  entries : AList (fun _ : Int => Entry κ) := ∅
  posted : List τ := []
  postedTaskExceptions : UInt64 := 0
  place : Place τ := .between

/-- What the steps do that can be seen. -/
inductive LoopEvent (κ τ : Type)
  | added (fd : Int) (cb : κ)
  | removed (fd : Int)
  | posted (task : τ)
  | ran (task : τ)
  | polled (ready : List PollFd)
  | invoked (fd : Int) (flags : UInt32) (cb : κ)
  | returned (n : Int)
  deriving DecidableEq, Repr

namespace EventLoop
variable {κ τ : Type}

def add (l : EventLoop κ τ) (fd : Int) (events : UInt32) (cb : κ) : EventLoop κ τ × Bool :=
  if fd < 0 then (l, false)
  else if fd ∈ l.entries then (l, false)
  else ({ l with entries := l.entries.insert fd { events, cb } }, true)

def modify (l : EventLoop κ τ) (fd : Int) (events : UInt32) : EventLoop κ τ × Bool :=
  match l.entries.lookup fd with
  | none => (l, false)
  | some e => ({ l with entries := l.entries.insert fd { e with events } }, true)

def remove (l : EventLoop κ τ) (fd : Int) : EventLoop κ τ × Bool :=
  ({ l with entries := l.entries.erase fd }, fd ∈ l.entries)

def stop (l : EventLoop κ τ) : EventLoop κ τ := { l with running := false }

def post (l : EventLoop κ τ) (task : τ) : EventLoop κ τ := { l with posted := l.posted ++ [task] }

/-- The interest of an entry as it is handed to `poll`. -/
def pollFd (fd : Int) (e : Entry κ) : PollFd where
  fd := fd
  events :=
    (if e.events &&& kEvRead ≠ 0 then pollIn else 0) ||| (if e.events &&& kEvWrite ≠ 0 then pollOut else 0)

/-- What a callback is told of what `poll` reported. -/
def flagsOf (revents : UInt16) : UInt32 :=
  (if revents &&& (pollIn ||| pollHup ||| pollErr) ≠ 0 then kEvRead else 0) |||
    (if revents &&& pollOut ≠ 0 then kEvWrite else 0)

/-- The swap of `drain_posted`. -/
def swapPosted (l : EventLoop κ τ) : EventLoop κ τ :=
  { l with posted := [], place := .draining l.posted }

/-- The middle of `run_once`, with what `poll` returns and writes. -/
def pollEntries (l : EventLoop κ τ) (n : Int) (revents : Int → UInt16) :
    EventLoop κ τ × Option (LoopEvent κ τ) :=
  if l.entries.entries.isEmpty then ({ l with place := .between }, some (.returned 0))
  else
    let pfds := l.entries.entries.map fun e => { pollFd e.1 e.2 with revents := revents e.1 }
    if n ≤ 0 then ({ l with place := .between }, some (.returned n))
    else ({ l with place := .dispatching n pfds }, some (.polled pfds))

/-- One descriptor of the loop over the polled ones. -/
def look (l : EventLoop κ τ) (n : Int) (p : PollFd) (left : List PollFd) :
    EventLoop κ τ × Option (LoopEvent κ τ) :=
  if p.revents = 0 then ({ l with place := .dispatching n left }, none)
  else
    match l.entries.lookup p.fd with
    | none => ({ l with place := .dispatching n left }, none)
    | some e => ({ l with place := .inCallback n left }, some (.invoked p.fd (flagsOf p.revents) e.cb))

end EventLoop

/-- What the thread of the loop calls from inside a task or a callback, or before `run`. -/
inductive LoopCall (κ τ : Type)
  | add (fd : Int) (events : UInt32) (cb : κ)
  | modify (fd : Int) (events : UInt32)
  | remove (fd : Int)
  | post (task : τ)
  | stop
  deriving DecidableEq, Repr

/-- Steps of the thread of the loop, and of the others. -/
inductive LoopStep (κ τ : Type)
  | call (c : LoopCall κ τ)
  | start
  | begin
  | startTask
  | endTask (threw : Bool)
  | poll (n : Int) (revents : Int → UInt16)
  | dispatch
  | endCallback (threw : Bool)
  | otherPost (task : τ)
  | otherStop

namespace EventLoop
variable {κ τ : Type}

def call (l : EventLoop κ τ) : LoopCall κ τ → EventLoop κ τ × Option (LoopEvent κ τ)
  | .add fd events cb =>
    ((l.add fd events cb).1, if (l.add fd events cb).2 then some (.added fd cb) else none)
  | .modify fd events => ((l.modify fd events).1, none)
  | .remove fd => ((l.remove fd).1, some (.removed fd))
  | .post task => (l.post task, some (.posted task))
  | .stop => (l.stop, none)

/-- The thread is inside a task or a callback, or not inside `run_once`. -/
def mayCall (l : EventLoop κ τ) : Bool :=
  match l.place with
  | .between => true
  | .inTask _ => true
  | .inCallback _ _ => true
  | _ => false

def step (l : EventLoop κ τ) : LoopStep κ τ → EventLoop κ τ × Option (LoopEvent κ τ)
  | .call c => if l.mayCall then l.call c else (l, none)
  | .start => if l.place matches .between then ({ l with running := true }, none) else (l, none)
  | .begin =>
    match l.place with
    | .between => if l.running then (l.swapPosted, none) else (l, none)
    | _ => (l, none)
  | .startTask =>
    match l.place with
    | .draining (task :: left) => ({ l with place := .inTask left }, some (.ran task))
    | _ => (l, none)
  | .endTask threw =>
    match l.place with
    | .inTask left =>
      ({ l with
         place := .draining left
         postedTaskExceptions := if threw then l.postedTaskExceptions + 1 else l.postedTaskExceptions }, none)
    | _ => (l, none)
  | .poll n revents =>
    match l.place with
    | .draining [] => l.pollEntries n revents
    | _ => (l, none)
  | .dispatch =>
    match l.place with
    | .dispatching n [] => ({ l with place := .between }, some (.returned n))
    | .dispatching n (p :: left) => l.look n p left
    | _ => (l, none)
  | .endCallback threw =>
    match l.place with
    | .inCallback n left => ({ l with place := if threw then .thrown else .dispatching n left }, none)
    | _ => (l, none)
  | .otherPost task => (l.post task, some (.posted task))
  | .otherStop => (l.stop, none)

/-- Everything a step can do, with what can be seen of it. -/
inductive Moves (l : EventLoop κ τ) (s : LoopStep κ τ) :
    EventLoop κ τ × Option (LoopEvent κ τ) → Prop
  | quiet (running : Bool) : Moves l s ({ l with running }, none)
  | adds {fd : Int} {e : Entry κ} (unknown : fd ∉ l.entries) :
    Moves l s ({ l with entries := l.entries.insert fd e }, some (.added fd e.cb))
  | modifies {fd : Int} {e : Entry κ} (events : UInt32) (known : l.entries.lookup fd = some e) :
    Moves l s ({ l with entries := l.entries.insert fd { e with events } }, none)
  | removes (fd : Int) : Moves l s ({ l with entries := l.entries.erase fd }, some (.removed fd))
  | posts (task : τ) : Moves l s (l.post task, some (.posted task))
  | begins (first : s = .begin) (here : l.place = .between) : Moves l s (l.swapPosted, none)
  | startsTask {task : τ} {left : List τ} (here : l.place = .draining (task :: left)) :
    Moves l s ({ l with place := .inTask left }, some (.ran task))
  | endsTask {left : List τ} (here : l.place = .inTask left) (count : UInt64) :
    Moves l s ({ l with place := .draining left, postedTaskExceptions := count }, none)
  | idles (here : l.place = .draining []) (n : Int) :
    Moves l s ({ l with place := .between }, some (.returned n))
  | polls (here : l.place = .draining []) (n : Int) (revents : Int → UInt16) {ready : List PollFd}
    (all : ready = l.entries.entries.map fun e => { pollFd e.1 e.2 with revents := revents e.1 }) :
    Moves l s ({ l with place := .dispatching n ready }, some (.polled ready))
  | returns {n : Int} (here : l.place = .dispatching n []) :
    Moves l s ({ l with place := .between }, some (.returned n))
  | passesOver {n : Int} {p : PollFd} {left : List PollFd} (here : l.place = .dispatching n (p :: left))
    (why : p.revents = 0 ∨ l.entries.lookup p.fd = none) :
    Moves l s ({ l with place := .dispatching n left }, none)
  | invokes {n : Int} {p : PollFd} {left : List PollFd} {e : Entry κ}
    (here : l.place = .dispatching n (p :: left)) (ready : p.revents ≠ 0)
    (known : l.entries.lookup p.fd = some e) :
    Moves l s ({ l with place := .inCallback n left }, some (.invoked p.fd (flagsOf p.revents) e.cb))
  | endsCallback {n : Int} {left : List PollFd} (here : l.place = .inCallback n left) :
    Moves l s ({ l with place := .dispatching n left }, none)
  | throws {n : Int} {left : List PollFd} (here : l.place = .inCallback n left) :
    Moves l s ({ l with place := .thrown }, none)

theorem call_moves (l : EventLoop κ τ) (s : LoopStep κ τ) (c : LoopCall κ τ) : Moves l s (l.call c) := by
  cases c with
  | add fd events cb =>
    dsimp only [call, add]
    by_cases negative : fd < 0
    · simp only [if_pos negative]
      exact .quiet l.running
    · by_cases known : fd ∈ l.entries
      · simp only [if_neg negative, if_pos known]
        exact .quiet l.running
      · simp only [if_neg negative, if_neg known]
        exact .adds known
  | modify fd events =>
    dsimp only [call, modify]
    split
    next => exact .quiet l.running
    next e known => exact .modifies events known
  | remove fd => exact .removes fd
  | post task => exact .posts task
  | stop => exact .quiet false

theorem step_moves (l : EventLoop κ τ) (s : LoopStep κ τ) : Moves l s (l.step s) := by
  have passes : Moves l s (l, none) := .quiet l.running
  cases s with
  | call c =>
    dsimp only [step]
    split
    · exact call_moves l _ c
    · exact passes
  | start =>
    dsimp only [step]
    split
    · exact .quiet true
    · exact passes
  | begin =>
    dsimp only [step]
    split
    next here =>
      split
      · exact .begins rfl here
      · exact passes
    · exact passes
  | startTask =>
    dsimp only [step]
    split
    next here => exact .startsTask here
    · exact passes
  | endTask threw =>
    dsimp only [step]
    split
    next here => exact .endsTask here _
    · exact passes
  | poll n revents =>
    dsimp only [step]
    split
    next here =>
      dsimp only [pollEntries]
      split
      · exact .idles here 0
      · split
        · exact .idles here n
        · exact .polls here n revents rfl
    · exact passes
  | dispatch =>
    dsimp only [step]
    split
    next here => exact .returns here
    next here =>
      unfold look
      split
      next zero => exact .passesOver here (Or.inl zero)
      next ready =>
        split
        next unknown => exact .passesOver here (Or.inr unknown)
        next known => exact .invokes here ready known
    · exact passes
  | endCallback threw =>
    dsimp only [step]
    split
    next here =>
      cases threw with
      | false => exact .endsCallback here
      | true => exact .throws here
    · exact passes
  | otherPost task => exact .posts task
  | otherStop => exact .quiet false

end EventLoop

end SecureLink.Source.Tasks
