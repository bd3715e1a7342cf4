import RuleGraph.Execution.Routine
import RuleGraph.Manipulator

/-! # The state of an execution

What an execution remembers: the outcome of every slot that was computed, which computations wait
for which slots, and what others can see of it.

* **`Cell`** — how far the computation of one slot has come.
* **`Waits`** — for every slot being computed, the slots it waits for.
* **`Waits.chain?`** — how waiting leads from a slot back to one of a path.
* **`State`** — everything that changes during an execution, with the operations that change it.
-/

namespace RuleGraph

/-- How far the computation of a slot has come. Marks count what has happened in an execution, so
that of two things the earlier one has the smaller mark. -/
inductive Cell where
  /-- Not begun since a mark. -/
  | idle (since : Nat)
  /-- Begun. -/
  | computing
  /-- Done at a mark. -/
  | settled (outcome : Outcome) (since : Nat)
  deriving Inhabited

/-- The outcome in a cell. -/
def Cell.outcome? : Cell → Option Outcome
  | .settled outcome _ => some outcome
  | _ => none

/-- For every slot, the slots that its computation waits for. -/
abbrev Waits := List (List Nat)

namespace Waits

/-- The slots that a slot waits for. -/
def targets (waits : Waits) (slot : Nat) : List Nat :=
  waits[slot]?.getD []

/-- Note that a slot waits for another one. -/
def add (waits : Waits) (slot target : Nat) : Waits :=
  waits.set slot (waits.targets slot ++ [target])

/-- A list without the first occurrence of a member, whose place the last member takes. -/
def withoutFirst (members : List Nat) (member : Nat) : List Nat :=
  match members.idxOf? member with
  | some place => (members.set place (members.getLast?.getD member)).dropLast
  | none => members

/-- Note that a slot waits for another one no longer. -/
def remove (waits : Waits) (slot target : Nat) : Waits :=
  waits.set slot (withoutFirst (waits.targets slot) target)

/-- How many waits there are. -/
def count (waits : Waits) : Nat :=
  waits.foldr (fun targets count => targets.length + count) 0

/-- Follow waits, depth first and the latest wait of a slot first, until one leads to a slot of a
path. The chains in hand go on from their last slots. -/
def search (waits : Waits) (path : List Nat) :
    Nat → List Nat → List (List Nat) → Option (List Nat)
  | 0, _, _ => none
  | _ + 1, _, [] => none
  | steps + 1, seen, chain :: chains =>
    match chain.getLast? with
    | none => none
    | some slot =>
      if slot ∈ path then some chain
      else if slot ∈ seen then search waits path steps seen chains
      else
        -- The latest wait comes first.
        let longer := (waits.targets slot).reverse.map fun target => chain ++ [target]
        search waits path steps (slot :: seen) (longer ++ chains)

/-- How waiting leads from a slot to one of a path: the slots along the way, both ends included.
Every wait is followed at most once. -/
def chain? (waits : Waits) (source : Nat) (path : List Nat) : Option (List Nat) :=
  search waits path (waits.count + 2) [] [[source]]

end Waits

/-- A function that was invoked, and on what. -/
abbrev InvocationRecord := EntryKey × List Value

/-- Everything that changes during an execution. -/
structure State where
  /-- How far the computation of each slot has come. -/
  cells : List Cell
  /-- The waits of computations. -/
  waits : Waits
  /-- Whether a slot was not computed in time. -/
  hasTimedOut : Bool := false
  /-- The sink of the effects of statements. -/
  manipulator : Option Manipulator := none
  /-- The clock and the events so far. -/
  timeline : Timeline := {}
  /-- The functions invoked so far, in order. -/
  invocations : List InvocationRecord := []
  /-- The next mark. -/
  mark : Nat := 0
  /-- The mark at which the clock moved last. -/
  movedAt : Nat := 0
  deriving Inhabited

namespace State

/-- The state before anything is computed. -/
def initial (slots : Nat) : State :=
  { cells := List.replicate slots (.idle 0), waits := List.replicate slots [] }

/-- How far the computation of a slot has come. -/
def cell (state : State) (index : Nat) : Cell :=
  state.cells[index]?.getD (.idle 0)

/-- The outcome of a slot that was computed. -/
def outcome? (state : State) (index : Nat) : Option Outcome :=
  (state.cell index).outcome?

/-- The time in milliseconds. -/
def now (state : State) : Nat := state.timeline.now

/-- Count something that happened. -/
def tick (state : State) : State :=
  { state with mark := state.mark + 1 }

/-- Replace the cell of a slot. -/
def setCell (state : State) (index : Nat) (cell : Cell) : State :=
  { state with cells := state.cells.set index cell }

/-- Begin to compute a slot. -/
def begin (state : State) (index : Nat) : State :=
  state.setCell index .computing

/-- Keep the outcome of a slot. -/
def settle (state : State) (index : Nat) (outcome : Outcome) : State :=
  (state.setCell index (.settled outcome state.mark)).tick

/-- Give up the computation of a slot, so that it may begin anew. -/
def release (state : State) (index : Nat) : State :=
  (state.setCell index (.idle state.mark)).tick

/-- Note that the last slot of a path waits for another one. A request of the host, with the empty
path, leaves no wait. -/
def addWait (state : State) (path : List Nat) (target : Nat) : State :=
  match path.getLast? with
  | some slot => { state with waits := state.waits.add slot target }
  | none => state

/-- Note that the last slot of a path waits for another one no longer. -/
def removeWait (state : State) (path : List Nat) (target : Nat) : State :=
  match path.getLast? with
  | some slot => { state with waits := state.waits.remove slot target }
  | none => state

/-- Let the clock move to a later time. -/
def moveClock (state : State) (time : Nat) : State :=
  { state with
    timeline := state.timeline.advance (time - state.now)
    movedAt := state.mark
    mark := state.mark + 1 }

/-- Let something happen that others can see. -/
def happen (state : State) (event : Event) : State :=
  { state with timeline := state.timeline.add event }

/-- Change the manipulator, if there is one. -/
def changeManipulator (state : State) (change : Manipulator → Manipulator) : State :=
  { state with manipulator := state.manipulator.map change }

/-- How many times a function has been invoked. -/
def invocationCount (state : State) (function : EntryKey) : Nat :=
  state.invocations.countP fun record => record.1 = function

/-- Note that a function is invoked. -/
def invoke (state : State) (function : EntryKey) (args : List Value) : State :=
  { state with invocations := state.invocations ++ [(function, args)] }

/-- A record that goes to the log under the properties of the context. -/
def log (state : State) (setting : Setting) (level : LogLevel) (props : Props) (format : String)
    (params : List Value) : State :=
  state.happen (setting.sink.event ⟨level, setting.context.logProps props, format, params⟩)

/-- Have an effect. -/
def perform (state : State) (setting : Setting) : Effect → State
  | .log level props format params => state.log setting level props format params
  | .emit event => state.happen event
  | .queue callback => state.changeManipulator fun manipulator => manipulator.queue callback
  | .report message props => state.changeManipulator fun manipulator =>
    manipulator.report message props
  | .track key => state.changeManipulator fun manipulator => manipulator.track key

/-- What becomes of a request for a slot. -/
inductive Request where
  /-- It is answered. -/
  | answered (outcome : Outcome)
  /-- The slot has to be computed for it. -/
  | granted
  /-- The slot is being computed, and the request waits. -/
  | delayed

/-- The error of a request that would wait for itself: the names along the cycle. -/
def cycleError (setting : Setting) (path : List Nat) : Outcome :=
  .error (.cyclicDependency (path.map setting.graph.name))

/-- The cycle that a request would close: one of the graph, one on its own path, or one of
computations that wait for each other. -/
def cycleOf? (state : State) (setting : Setting) (path : List Nat) (index : Nat) :
    Option Outcome :=
  match setting.graph.cycleFrom? index with
  | some cycle => some (.error (.cyclicDependency cycle))
  | none =>
    -- The path leads from the slot to the request.
    if index ∈ path then some (cycleError setting (path.drop (path.idxOf index) ++ [index]))
    else if path.isEmpty then none
    -- The chain ends on the path, which leads on from there to the request.
    else (state.waits.chain? index path).map fun chain =>
      let start := (chain.getLast?.map path.idxOf).getD 0
      cycleError setting (path.drop start ++ chain)

/-- Take up a request for a slot on behalf of the last slot of a path. A request that is not
answered at once leaves a wait. -/
def request (state : State) (setting : Setting) (path : List Nat) (index : Nat) :
    Request × State :=
  match state.outcome? index with
  | some outcome => (.answered outcome, state)
  | none =>
    -- A refusal is not kept: the slot may still be computed for somebody else.
    match state.cycleOf? setting path index with
    | some error => (.answered error, state)
    | none =>
      -- The wait is there before the slot is computed, so that further requests see it.
      let waiting := state.addWait path index
      match state.cell index with
      | .computing => (.delayed, waiting)
      | _ => (.granted, waiting)

/-- Whether the time for computing a slot is over. -/
def isOverdue (state : State) (setting : Setting) (index : Nat) : Bool :=
  match setting.deadlineOf? index with
  | some deadline => deadline ≤ state.now
  | none => false

/-- The slot at a place was not computed in time. -/
def timeOut (state : State) (setting : Setting) (index : Nat) : Outcome × State :=
  (.error (setting.timeoutError index), { state with hasTimedOut := true })

/-- Answer the request for which a slot was computed: keep the outcome and end the wait. -/
def answer (state : State) (path : List Nat) (index : Nat) (outcome : Outcome) : State :=
  (state.settle index outcome).removeWait path index

end State

end RuleGraph
