import RuleGraph.Error
import RuleGraph.Log

/-! # Effects

What executions do that others can see, and the deferred actions that statements leave behind.

* **`Event`** — something that happened, in the order in which it happened.
* **`Deferred`** — a deferred action, which need not come to an end.
* **`Callback`** — a deferred action that waits for the context it will run in.
* **`Effect`** — what a function may do besides computing its result.
-/

namespace RuleGraph

/-- Something that happened. -/
inductive Event where
  /-- A function noted that it ran, and on what. -/
  | recorded (function : String) (args : List Value)
  /-- A deferred action emitted a message in a context. -/
  | emitted (message : String) (context : Context)
  /-- A record went to the log. -/
  | logged (record : LogRecord)
  /-- A record went to the trace. -/
  | traced (record : LogRecord)
  /-- A message of a logging statement went to the trace. -/
  | announced (message : String) (requestId : Option String)
  deriving DecidableEq

/-- Where log records go. -/
inductive LogSink where
  /-- They are kept as records. -/
  | records
  /-- They go to the trace. -/
  | tracing
  deriving DecidableEq, Inhabited

/-- What happens when a record goes to a sink. -/
def LogSink.event (sink : LogSink) (record : LogRecord) : Event :=
  match sink with
  | records => .logged record
  | tracing => .traced record

/-- A step of a deferred action, and how the action goes on: it may suspend, let something happen
and queue further actions, and it ends with success or failure. -/
inductive DeferredStep (δ : Type) where
  /-- The end. -/
  | finish (result : Except FunctionError Unit)
  /-- Let others go first, once. -/
  | pause (next : δ)
  /-- Wait so many milliseconds. -/
  | sleep (milliseconds : Nat) (next : δ)
  /-- Let something happen. -/
  | emit (event : Event) (next : δ)
  /-- Queue a further action, which is told the context it will run in. -/
  | queue (action : Context → δ) (next : δ)

/-- The same step of an action that goes on in another way. -/
def DeferredStep.map {δ ε : Type} (f : δ → ε) : DeferredStep δ → DeferredStep ε
  | .finish result => .finish result
  | .pause next => .pause (f next)
  | .sleep milliseconds next => .sleep milliseconds (f next)
  | .emit event next => .emit event (f next)
  | .queue action next => .queue (fun context => f (action context)) (f next)

/-- Where to look next in a deferred action, or in those that it brings about. -/
inductive Turn where
  /-- At how the action goes on. -/
  | next
  /-- At the action that is queued, in the context it will run in. -/
  | queued (context : Context)

/-- What a turn leads to after a step. -/
def DeferredStep.follow? {δ : Type} (step : DeferredStep δ) (turn : Turn) : Option δ :=
  match step, turn with
  | .pause next, .next | .sleep _ next, .next | .emit _ next, .next | .queue _ next, .next =>
    some next
  | .queue action _, .queued context => some (action context)
  | _, _ => none

/-- A deferred action, with all those that it brings about: the step that stands at the end of every
way from its beginning. Nothing makes the ways come to an end. An action may go on for ever, and it
may queue itself again. -/
structure Deferred where
  /-- The step at the end of a way. -/
  stepAt : List Turn → DeferredStep Unit

namespace Deferred

/-- What is found after a turn. -/
def after (action : Deferred) (turn : Turn) : Deferred :=
  ⟨fun turns => action.stepAt (turn :: turns)⟩

/-- The first step of an action. -/
def step (action : Deferred) : DeferredStep Deferred :=
  match action.stepAt [] with
  | .finish result => .finish result
  | .pause _ => .pause (action.after .next)
  | .sleep milliseconds _ => .sleep milliseconds (action.after .next)
  | .emit event _ => .emit event (action.after .next)
  | .queue _ _ => .queue (fun context => action.after (.queued context)) (action.after .next)

/-- The action that takes a step and goes on as the step says. -/
def ofStep (first : DeferredStep Deferred) : Deferred :=
  ⟨fun turns => match turns with
    | [] => first.map fun _ => ()
    | turn :: turns =>
      match first.follow? turn with
      | some next => next.stepAt turns
      -- No way leads on from here.
      | none => first.map fun _ => ()⟩

/-- The action that takes the steps of a machine from a state on. -/
def ofMachine {σ : Type} (machine : σ → DeferredStep σ) (state : σ) : Deferred :=
  ⟨go state⟩
where
  /-- The step at the end of a way from a state on. -/
  go (state : σ) : List Turn → DeferredStep Unit
    | [] => (machine state).map fun _ => ()
    | turn :: turns =>
      match (machine state).follow? turn with
      | some next => go next turns
      | none => (machine state).map fun _ => ()

/-- An action that ends. -/
def finish (result : Except FunctionError Unit) : Deferred :=
  ofStep (.finish result)

/-- An action that lets others go first, once. -/
def pause (next : Deferred) : Deferred :=
  ofStep (.pause next)

/-- An action that waits so many milliseconds. -/
def sleep (milliseconds : Nat) (next : Deferred) : Deferred :=
  ofStep (.sleep milliseconds next)

/-- An action that lets something happen. -/
def emit (event : Event) (next : Deferred) : Deferred :=
  ofStep (.emit event next)

/-- An action that queues a further one. -/
def queue (action : Context → Deferred) (next : Deferred) : Deferred :=
  ofStep (.queue action next)

/-- The action takes the step that it is given. -/
@[simp] theorem step_ofStep (first : DeferredStep Deferred) : (ofStep first).step = first := by
  cases first <;> rfl

/-- An action of a machine takes the machine's step and goes on from where that leads. -/
@[simp] theorem step_ofMachine {σ : Type} (machine : σ → DeferredStep σ) (state : σ) :
    (ofMachine machine state).step = (machine state).map (ofMachine machine) := by
  cases known : machine state <;>
    simp [step, after, ofMachine, ofMachine.go, DeferredStep.map, DeferredStep.follow?, known]

end Deferred

/-- A deferred action that waits for the context it will run in. -/
abbrev Callback := Context → Deferred

/-- What goes with an error that is reported. -/
structure ErrorProps where
  /-- The function that failed. -/
  functionName : Option String := none
  /-- Whether the error fails the whole event. -/
  isFatal : Bool := false
  deriving DecidableEq, Inhabited

/-- What a function may do besides computing its result. -/
inductive Effect where
  /-- Write a log record. -/
  | log (level : LogLevel) (props : Props) (format : String) (params : List Value)
  /-- Let something happen. -/
  | emit (event : Event)
  /-- Queue a deferred action. -/
  | queue (callback : Callback)
  /-- Report an error. -/
  | report (message : String) (props : ErrorProps)
  /-- Track an entity. -/
  | track (key : TrackingKey)

end RuleGraph
