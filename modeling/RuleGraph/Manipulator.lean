import RuleGraph.Effect
import RuleGraph.Json

/-! # The manipulator

The sink of an execution's effects. Statements queue deferred actions and report errors; nothing
happens until the host drains the queue.

* **`Manipulator`** — the queue, the reported errors, and what else was noted.
* **`Manipulator.mutate?`** — run the queued actions in order, those they queue included.
* **`Manipulator.firstFatal?`** — the error that fails the event.
-/

namespace RuleGraph

/-- What happens to the rest of the queue when an action fails. -/
inductive CallbackPolicy where
  /-- The failure is reported and the remaining actions run. -/
  | proceed
  /-- The failure is reported as fatal and the remaining actions stay queued. -/
  | halt
  deriving DecidableEq, Inhabited

/-- An error as it was reported. -/
structure RecordedError where
  /-- The text of the error. -/
  message : String
  /-- The function that failed. -/
  functionName : Option String
  /-- Whether the error fails the whole event. -/
  isFatal : Bool
  deriving DecidableEq

/-- A reported error as JSON. -/
def RecordedError.toJson (error : RecordedError) : Json :=
  Json.ofMembers [("message", .text error.message),
    ("function_name", Json.ofOption error.functionName), ("fatal", .bool error.isFatal)]

/-- A fatal error, as it fails an event. -/
structure FatalError where
  /-- The function that failed. -/
  functionName : Option String
  /-- The text of the error. -/
  reason : String
  deriving DecidableEq

/-- The text of a fatal error. -/
def FatalError.message (error : FatalError) : String :=
  let place := match error.functionName with
    | some name => " in '" ++ name ++ "'"
    | none => ""
  "fatal error" ++ place ++ ": " ++ error.reason

/-- What the effects of an execution have accumulated to. -/
structure Manipulator where
  /-- What a failing action does to the rest of the queue. -/
  policy : CallbackPolicy := .proceed
  /-- The actions that have not run, the next one first. -/
  pending : List Callback := []
  /-- The errors in the order in which they were reported. -/
  errors : List RecordedError := []
  /-- The warnings in order. -/
  warnings : List String := []
  /-- The tracked entities in order. -/
  tracked : List TrackingKey := []
  /-- The number of actions that have run successfully. -/
  completed : Nat := 0
  deriving Inhabited

/-- What a host observes while time passes: the clock in milliseconds and the events so far. -/
structure Timeline where
  /-- The time that has passed. -/
  now : Nat := 0
  /-- What happened, in order. -/
  events : List Event := []
  deriving Inhabited

/-- Let something happen. -/
def Timeline.add (timeline : Timeline) (event : Event) : Timeline :=
  { timeline with events := timeline.events ++ [event] }

/-- Let time pass. -/
def Timeline.advance (timeline : Timeline) (milliseconds : Nat) : Timeline :=
  { timeline with now := timeline.now + milliseconds }

namespace Manipulator

/-- Queue a deferred action behind the others. -/
def queue (manipulator : Manipulator) (callback : Callback) : Manipulator :=
  { manipulator with pending := manipulator.pending ++ [callback] }

/-- Report an error. -/
def report (manipulator : Manipulator) (message : String) (props : ErrorProps) : Manipulator :=
  { manipulator with
    errors := manipulator.errors ++ [⟨message, props.functionName, props.isFatal⟩] }

/-- Note a warning. -/
def warn (manipulator : Manipulator) (message : String) : Manipulator :=
  { manipulator with warnings := manipulator.warnings ++ [message] }

/-- Track an entity. -/
def track (manipulator : Manipulator) (key : TrackingKey) : Manipulator :=
  { manipulator with tracked := manipulator.tracked ++ [key] }

/-- Count an action that has run successfully. -/
def complete (manipulator : Manipulator) : Manipulator :=
  { manipulator with completed := manipulator.completed + 1 }

/-- The earliest fatal error. -/
def firstFatal? (manipulator : Manipulator) : Option FatalError :=
  (manipulator.errors.find? RecordedError.isFatal).map fun error =>
    ⟨error.functionName, error.message⟩

/-- Run an action to its end, in fewer than so many steps. What it queues goes behind everything
that waits already. There is no result if the action has not come to its end by then. -/
def runDeferred? : Nat → Deferred → Manipulator → Timeline →
    Option (Except FunctionError Unit × Manipulator × Timeline)
  | 0, _, _, _ => none
  | steps + 1, action, manipulator, timeline =>
    match action.step with
    | .finish result => some (result, manipulator, timeline)
    | .pause next => runDeferred? steps next manipulator timeline
    | .sleep milliseconds next =>
      runDeferred? steps next manipulator (timeline.advance milliseconds)
    | .emit event next => runDeferred? steps next manipulator (timeline.add event)
    | .queue callback next => runDeferred? steps next (manipulator.queue callback) timeline

/-- Take note of what an action has come to. A failure is reported, and under the policy to halt
it is fatal. -/
def settle (manipulator : Manipulator) (result : Except FunctionError Unit) :
    Manipulator × Option FatalError :=
  match result with
  | .ok _ => (manipulator.complete, none)
  | .error error =>
    match manipulator.policy with
    | .proceed => (manipulator.report error.message {}, none)
    | .halt => (manipulator.report error.message ⟨none, true⟩, some ⟨none, error.message⟩)

/-- Run the queued actions in order, those that they queue included, until the queue is empty or an
action fails and the policy is to halt. There is no result if that takes too many actions or too
many steps of one; a call that goes on for ever has none, however large the bound. -/
def mutate? (context : Context) : Nat → Manipulator → Timeline →
    Option (Except FatalError Unit × Manipulator × Timeline)
  | 0, _, _ => none
  | steps + 1, manipulator, timeline =>
    match manipulator.pending with
    | [] => some (.ok (), manipulator, timeline)
    | callback :: rest =>
      match runDeferred? steps (callback context) { manipulator with pending := rest } timeline with
      | none => none
      | some (result, manipulator, timeline) =>
        match manipulator.settle result with
        | (manipulator, some error) => some (.error error, manipulator, timeline)
        | (manipulator, none) => mutate? context steps manipulator timeline

/-- What comes of running the queued actions, for calls that return before anyone gives up on
them. -/
def mutate (context : Context) (manipulator : Manipulator) (timeline : Timeline) :
    Except FatalError Unit × Manipulator × Timeline :=
  (mutate? context 1000000000000000000 manipulator timeline).getD (.ok (), manipulator, timeline)

/-- A summary of everything for a person to read. -/
def summary (manipulator : Manipulator) : Json :=
  Json.ofMembers [("errors", .list (manipulator.errors.map RecordedError.toJson)),
    ("warnings", Json.ofTexts manipulator.warnings),
    ("tracked_keys", Json.ofTexts (manipulator.tracked.map TrackingKey.write)),
    ("callbacks", Json.ofMembers [("pending", .ofNat manipulator.pending.length),
      ("completed", .ofNat manipulator.completed)])]

end Manipulator

end RuleGraph
