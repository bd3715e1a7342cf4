import RuleGraph.Executable

/-! # Routines

The steps by which the outcome of a slot is found, described before any of them is taken. What a
routine does depends on the graph, the functions and the inputs only; the slots it fetches are
found elsewhere.

* **`Routine`** — steps that end with an outcome.
* **`Setting`** — what is fixed while an execution lasts.
* **`Setting.slotRoutine`** — the steps that compute a slot.
-/

namespace RuleGraph

/-- The package and the name that a registered function has to itself. -/
abbrev EntryKey := Option String × String

/-- The package and the name of an entry. -/
def Entry.key (entry : Entry) : EntryKey := (entry.package, entry.name)

/-- The steps by which an outcome is found. -/
inductive Routine where
  /-- The end. -/
  | done (outcome : Outcome)
  /-- Have an effect. -/
  | perform (effect : Effect) (next : Routine)
  /-- Note that a function is invoked, and learn how many times it has been. -/
  | invoke (function : EntryKey) (args : List Value) (next : Nat → Routine)
  /-- Let others go first, once. -/
  | pause (next : Routine)
  /-- Wait so many milliseconds. -/
  | sleep (milliseconds : Nat) (next : Routine)
  /-- Wait for the outcome of the slot at a place. -/
  | fetch (index : Nat) (next : Outcome → Routine)
  /-- Run a routine for so many milliseconds at most, and abandon it after that. -/
  | within (milliseconds : Nat) (child : Routine) (next : Option Outcome → Routine)
  /-- Run routines side by side and wait for all of them. Up to a certain breadth all are resumed
  in turn, beyond it only those for which something has changed. -/
  | join (breadth : Nat) (children : List Routine) (next : List Outcome → Routine)
  deriving Inhabited

/-- The values of outcomes, or the first error among them. -/
def collect (outcomes : List Outcome) : Except ExecutionError (List Value) :=
  outcomes.mapM id

namespace Routine

/-- Run routines side by side and go on with all of their outcomes. -/
def all (children : List Routine) (next : List Outcome → Routine) : Routine :=
  .join children.length children next

/-- Run routines side by side and go on with their values; the first error is the end. -/
def allValues (children : List Routine) (next : List Value → Routine) : Routine :=
  .all children fun outcomes =>
    match collect outcomes with
    | .ok values => next values
    | .error error => .done (.error error)

/-- Run a routine and go on with its value; an error is the end. -/
def value (child : Routine) (next : Value → Routine) : Routine :=
  .allValues [child] fun values => next (values.head?.getD .null)

/-- Have effects in order. -/
def performAll : List Effect → Routine → Routine
  | [], next => next
  | effect :: rest, next => .perform effect (performAll rest next)

end Routine

/-- What is fixed while an execution lasts. -/
structure Setting where
  /-- The graph and its functions. -/
  executable : Executable
  /-- The context of the event. -/
  context : Context := {}
  /-- The values of inputs. -/
  inputs : Dictionary Value := []
  /-- Where log records go. -/
  sink : LogSink := .records
  /-- The event time in milliseconds. -/
  clock : Int64 := 0
  /-- Whether statements can run. -/
  hasManipulator : Bool := false
  /-- When the execution started. -/
  started : Nat := 0
  /-- How long features may be computed, in milliseconds. -/
  featureTimeout : Option Nat := none
  deriving Inhabited

namespace Setting

/-- The graph. -/
def graph (setting : Setting) : Graph := setting.executable.graph

/-- When computing features has to stop. -/
def deadline? (setting : Setting) : Option Nat :=
  setting.featureTimeout.map fun timeout => setting.started + timeout

/-- When computing the slot at a place has to stop. Inputs need no computation. -/
def deadlineOf? (setting : Setting) (index : Nat) : Option Nat :=
  if (setting.graph.slots[index]?.map Slot.isInput).getD false then none else setting.deadline?

/-- The error of a slot that was not computed in time. -/
def timeoutError (setting : Setting) (index : Nat) : ExecutionError :=
  .featureTimeout (setting.graph.name index) (setting.featureTimeout.getD 0)

/-- The outcome of the slot with a name. -/
def fetchNamed (setting : Setting) (name : String) : Routine :=
  match setting.graph.indexOf? name with
  | some index => .fetch index .done
  | none => .done (.error (.unknownFeature name))

/-- Fetch the slots with given names side by side before going on; the first error is the end. -/
def prefetch (setting : Setting) (names : List String) (next : Routine) : Routine :=
  .allValues (names.map setting.fetchNamed) fun _ => next

/-- The steps of a function up to its result, and what comes after it. -/
def actionRoutine {α : Type} (setting : Setting) (next : Except FunctionError α → Routine) :
    Action α → Routine
  | .finish result => next result
  | .pause rest => .pause (actionRoutine setting next rest)
  | .sleep milliseconds rest => .sleep milliseconds (actionRoutine setting next rest)
  | .fetch names rest =>
    .all (names.map setting.fetchNamed) fun outcomes => actionRoutine setting next (rest outcomes)
  | .fetchWithin milliseconds name rest =>
    .within milliseconds (setting.fetchNamed name) fun outcome =>
      actionRoutine setting next (rest outcome)
  | .perform effect rest => .perform effect (actionRoutine setting next rest)

/-- What a function is told when it is invoked. -/
def invocation (setting : Setting) (entry : Entry) (ordinal : Nat) : Invocation :=
  ⟨entry.qualifiedName, setting.clock, setting.hasManipulator, ordinal⟩

/-- The outcome of a call, given the result of the function. -/
def callOutcome (entry : Entry) (result : Except FunctionError Value) : Outcome :=
  result.mapError (.functionFailed entry.qualifiedName)

/-- Invoke a function that computes a value. Statements and hooks compute none. -/
def invokeValue (setting : Setting) (name : String) (entry : Entry) (args : List Value) :
    Routine :=
  match entry.kind with
  | .sync body => .invoke entry.key args fun ordinal =>
    let (effects, result) := body (setting.invocation entry ordinal) args
    .performAll effects (.done (callOutcome entry result))
  | .async body => .invoke entry.key args fun ordinal =>
    setting.actionRoutine (fun result => .done (callOutcome entry result))
      (body (setting.invocation entry ordinal) args)
  | .statement _ _ | .custom _ | .transform _ => .done (.error (.unknownFunction name))

/-- Call the function of a name. The number of arguments must fit; a null may keep the function
from being invoked, and then the value is null. -/
def callRoutine (setting : Setting) (name : String) (args : List Value) : Routine :=
  match setting.executable.function? name with
  | none => .done (.error (.unknownFunction name))
  | some entry =>
    match entry.arityError? args.length with
    | some error => .done (.error (.functionFailed entry.qualifiedName error))
    | none =>
      match entry.admit? args with
      | none => .done (.ok .null)
      | some args => setting.invokeValue name entry args

mutual

/-- The steps that evaluate an expression. All items of a list and all arguments of a call are
evaluated side by side. -/
def exprRoutine (setting : Setting) : SlotExpr → Routine
  | .const value => .done (.ok value)
  | .feature name => setting.fetchNamed name
  | .list items => .allValues (exprRoutines setting items) fun values => .done (.ok (.list values))
  | .call function args =>
    .allValues (exprRoutines setting args) fun values => setting.callRoutine function values

/-- The steps that evaluate each of several expressions. -/
def exprRoutines (setting : Setting) : List SlotExpr → List Routine
  | [] => []
  | item :: rest => exprRoutine setting item :: exprRoutines setting rest

end

/-- A failed statement is reported before it fails its slot. -/
def statementFailed (entry : Entry) (error : FunctionError) : Routine :=
  .perform (.report error.message ⟨some entry.name, false⟩)
    (.done (.error (.functionFailed entry.qualifiedName error)))

/-- The effects of handing arguments to a statement: every entity among them is tracked. -/
def trackingEffects (setting : Setting) (args : List Value) : List Effect :=
  args.filterMap fun arg =>
    match arg with
    | .entity entity => some (.track ⟨entity, setting.clock⟩)
    | _ => none

/-- Run the statement of a name. The number of arguments must fit; the entities among them are
tracked; a null may keep the statement from being invoked. -/
def invokeStatement (setting : Setting) (name : String) (args : List Value) : Routine :=
  match setting.executable.function? name with
  | none => .done (.error (.unknownFunction name))
  | some entry =>
    match entry.kind with
    | .statement _ body =>
      match entry.arityError? args.length with
      | some error => statementFailed entry error
      | none => .performAll (setting.trackingEffects args) <|
        match entry.admit? args with
        | none => .done (.ok .null)
        | some args => .invoke entry.key args fun ordinal =>
          setting.actionRoutine
            -- The value of a statement is null, whatever its function returns.
            (fun result =>
              match result with
              | .ok _ => .done (.ok .null)
              | .error error => statementFailed entry error)
            (body (setting.invocation entry ordinal) args)
    | _ => .done (.error (.unknownFunction name))

/-- The steps of a statement whose condition holds. -/
def statementCall (setting : Setting) (call : SlotExpr) : Routine :=
  match call with
  | .call function args =>
    -- Only now, since a statement whose condition fails fetches none of its arguments.
    setting.prefetch call.references <|
      .allValues (setting.exprRoutines args) fun values => setting.invokeStatement function values
  | _ => setting.exprRoutine call

/-- The steps of a statement: its condition, and if that holds its call. -/
def statementRoutine (setting : Setting) (name : String) (condition : Option SlotExpr)
    (call : SlotExpr) : Routine :=
  if !setting.hasManipulator then .done (.error (.missingManipulator name))
  else
    match condition with
    | none => setting.statementCall call
    | some condition =>
      setting.prefetch condition.references <|
        .value (setting.exprRoutine condition) fun value =>
          if value.isTruthy then setting.statementCall call else .done (.ok .null)

/-- What the outcomes of its statements make of a statement feature: failures of functions are
passed over, the first other error is the feature's. -/
def groupOutcome : List Outcome → Outcome
  | [] => .ok .null
  | .ok _ :: rest => groupOutcome rest
  | .error (.functionFailed _ _) :: rest => groupOutcome rest
  | .error error :: _ => .error error

/-- The steps that compute the slot at a place. -/
def slotRoutine (setting : Setting) (index : Nat) : Routine :=
  match setting.graph.slots[index]? with
  | none => .done (.ok .null)
  | some slot =>
    match slot.kind with
    | .input => .done (.ok ((Dictionary.find? setting.inputs slot.name).getD .null))
    | .feature body => setting.prefetch slot.deps (setting.exprRoutine body)
    | .statement _ condition call => setting.statementRoutine slot.name condition call
    | .group =>
      .all ((setting.graph.dependencies index).map fun dep => .fetch dep .done) fun outcomes =>
        .done (groupOutcome outcomes)

end Setting

end RuleGraph
