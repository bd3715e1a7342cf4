import RuleGraph.Execution.Report
import RuleGraph.Execution.Thread

/-! # Executions

One run of an executable against the inputs of one event. Slots are computed when they are first
requested, and their outcomes, values and errors alike, are kept. Requests for the same slot share
one computation.

* **`Executable.execute`** — start an execution.
* **`Execution.fetch`**, **`Execution.fetchEach`**, **`Execution.fetchAll`** — outcomes of slots.
* **`Execution.runStatements`** — run all statements.
* **`Execution.report`** — what has been computed so far.

Whatever computes slots takes a number of passes in which it has to be done, and has no outcome if
it is not.
-/

namespace RuleGraph

/-- What a host says when it starts an execution. Settings left out are those of the executable. -/
structure ExecuteOptions where
  /-- The context of the event. -/
  context : Context := {}
  /-- The values of inputs. -/
  inputs : Dictionary Value := []
  /-- The event time in milliseconds. -/
  clock : Int64 := 0
  /-- The sink of the effects of statements. -/
  manipulator : Option Manipulator := none
  /-- How long features may be computed, in milliseconds. -/
  featureTimeout : Option Nat := none
  /-- What becomes of unknown inputs. -/
  unknownInputs : Option UnknownInputs := none
  /-- Where log records go. -/
  sink : LogSink := .records
  deriving Inhabited

/-- One run of an executable. -/
structure Execution where
  /-- What is fixed. -/
  setting : Setting
  /-- What changes. -/
  state : State
  deriving Inhabited

/-- What outlasts an execution: the clock, the events, and the functions invoked so far. -/
structure History where
  /-- The clock and the events. -/
  timeline : Timeline := {}
  /-- The functions invoked so far, in order. -/
  invocations : List InvocationRecord := []
  deriving Inhabited

/-- Whether a graph has an input slot of a name. -/
def Graph.hasInput (graph : Graph) (name : String) : Bool :=
  match graph.get? name with
  | some slot => slot.isInput
  | none => false

/-- Start an execution after what happened before. Inputs that no input slot is named after are
dropped or rejected. -/
def Executable.execute (executable : Executable) (options : ExecuteOptions) (history : History) :
    Except ExecutionError Execution :=
  let policy := options.unknownInputs.getD executable.config.unknownInputs
  let (known, unknown) := options.inputs.partition fun input =>
    executable.graph.hasInput input.1
  match policy, unknown with
  -- The first unknown input is the one that is named.
  | .reject, (name, _) :: _ => .error (.unknownInput name)
  | _, _ => .ok {
      setting := {
        executable
        context := options.context
        inputs := known
        sink := options.sink
        clock := options.clock
        hasManipulator := options.manipulator.isSome
        started := history.timeline.now
        featureTimeout := options.featureTimeout.or executable.config.featureTimeout }
      state := {
        State.initial executable.graph.size with
        manipulator := options.manipulator
        timeline := history.timeline
        invocations := history.invocations } }

namespace Execution

/-- What outlasts the execution. -/
def history (execution : Execution) : History :=
  ⟨execution.state.timeline, execution.state.invocations⟩

/-- The graph. -/
def graph (execution : Execution) : Graph := execution.setting.graph

/-- Run routines side by side. -/
def runSide (execution : Execution) (passes breadth : Nat) (routines : List Routine) :
    Option (List Outcome) × Execution :=
  let run : StateM State (Option (List Outcome)) := do
    -- Requests start in turn, on behalf of no slot.
    let threads ← routines.mapM (Thread.start execution.setting [])
    Thread.gather execution.setting breadth passes threads
  let (outcomes, state) := run.run execution.state
  (outcomes, { execution with state })

/-- The outcomes of slots requested side by side. -/
def fetchEach (execution : Execution) (passes : Nat) (names : List String) :
    Option (List Outcome) × Execution :=
  execution.runSide passes names.length (names.map execution.setting.fetchNamed)

/-- The outcome of a slot. -/
def fetch (execution : Execution) (passes : Nat) (name : String) : Option Outcome × Execution :=
  let (outcomes, execution) := execution.fetchEach passes [name]
  (outcomes >>= List.head?, execution)

/-- The outcome of a slot, with the entities in it replaced by their keys. -/
def fetchValue (execution : Execution) (passes : Nat) (name : String) :
    Option Outcome × Execution :=
  let (outcome, execution) := execution.fetch passes name
  (outcome.map fun outcome => outcome.map Value.unwrap, execution)

/-- The values of slots requested side by side, or the first error. -/
def fetchAll (execution : Execution) (passes : Nat) (names : List String) :
    Option (Except ExecutionError (List Value)) × Execution :=
  let (outcomes, execution) := execution.fetchEach passes names
  (outcomes.map collect, execution)

/-- The places of the statement features. -/
def groups (execution : Execution) : List Nat :=
  (List.range execution.graph.size).filter fun index =>
    (execution.graph.slots[index]?.map Slot.isGroup).getD false

/-- Run all statements, the statement features side by side. Statements that fail by a failure of a
function are no failure here. -/
def runStatements (execution : Execution) (passes : Nat) :
    Option (Except ExecutionError Unit) × Execution :=
  let (outcomes, execution) :=
    execution.runSide passes execution.graph.size
      (execution.groups.map fun index => .fetch index .done)
  (outcomes.map fun outcomes => (collect outcomes).map fun _ => (), execution)

/-- What has been computed so far. -/
def report (execution : Execution) : Report :=
  execution.state.report execution.setting

/-- Write a log record under the properties of the context and further ones. -/
def log (execution : Execution) (level : LogLevel) (props : Props) (format : String)
    (params : List Value) : Execution :=
  { execution with
    state := execution.state.log execution.setting level props format params }

/-- Let time pass. -/
def advance (execution : Execution) (milliseconds : Nat) : Execution :=
  { execution with state := execution.state.moveClock (execution.state.now + milliseconds) }

/-- Run the queued actions in the context of the event. There is no result without a manipulator,
nor if the bound is too small. -/
def mutate? (execution : Execution) (steps : Nat) :
    Option (Except FatalError Unit) × Execution :=
  match execution.state.manipulator >>= fun manipulator =>
      manipulator.mutate? execution.setting.context steps execution.state.timeline with
  | none => (none, execution)
  | some (result, manipulator, timeline) =>
    (some result,
      { execution with
        state := { execution.state with manipulator := some manipulator, timeline } })

end Execution

end RuleGraph
