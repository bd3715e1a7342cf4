import RuleGraph.Proofs.Relocation.Thread
import RuleGraph.Proofs.Catalog.Names

/-! # What a host is answered

A host never sees the places of slots: executions that differ in these only answer all its calls
alike.

* **`HostCall`**, **`HostAnswer`** — what a host asks of an execution, and what it is told.
* **`Executable.answers`** — the answers to calls one after the other, and what outlasts them.
* **`Execution.Relocated.ask`** — relocated executions answer a call alike, and stay relocated.
* **`Executable.answers_eq_of_perm`** — executables of acyclic graphs with the same slots give the
  same answers.
-/

namespace RuleGraph

/-! ## Calls -/

/-- What a host asks of an execution. -/
inductive HostCall where
  /-- The outcome of a slot. -/
  | fetch (passes : Nat) (name : String)
  /-- The outcome of a slot, with the keys of entities. -/
  | fetchValue (passes : Nat) (name : String)
  /-- The outcomes of slots requested side by side. -/
  | fetchEach (passes : Nat) (names : List String)
  /-- The values of slots requested side by side, or the first error. -/
  | fetchAll (passes : Nat) (names : List String)
  /-- To run all statements. -/
  | runStatements (passes : Nat)
  /-- To write a log record. -/
  | log (level : LogLevel) (props : Props) (format : String) (params : List Value)
  /-- To let time pass. -/
  | advance (milliseconds : Nat)
  /-- To run the queued actions. -/
  | mutate (steps : Nat)

/-- What a host is told. -/
inductive HostAnswer where
  /-- An outcome. -/
  | outcome (outcome : Option Outcome)
  /-- Several outcomes. -/
  | outcomes (outcomes : Option (List Outcome))
  /-- Values, or an error. -/
  | values (values : Option (Except ExecutionError (List Value)))
  /-- What running statements came to. -/
  | completed (result : Option (Except ExecutionError Unit))
  /-- What running queued actions came to. -/
  | mutated (result : Option (Except FatalError Unit))
  /-- Nothing. -/
  | nothing
  deriving DecidableEq

namespace Execution

/-- Answer a call of the host. -/
def ask (execution : Execution) : HostCall → HostAnswer × Execution
  | .fetch passes name => (execution.fetch passes name).map .outcome id
  | .fetchValue passes name => (execution.fetchValue passes name).map .outcome id
  | .fetchEach passes names => (execution.fetchEach passes names).map .outcomes id
  | .fetchAll passes names => (execution.fetchAll passes names).map .values id
  | .runStatements passes => (execution.runStatements passes).map .completed id
  | .log level props format params => (.nothing, execution.log level props format params)
  | .advance milliseconds => (.nothing, execution.advance milliseconds)
  | .mutate steps => (execution.mutate? steps).map .mutated id

/-- Answer calls of the host one after the other. -/
def askAll (execution : Execution) : List HostCall → List HostAnswer × Execution
  | [] => ([], execution)
  | call :: rest =>
    let (answer, execution) := execution.ask call
    let (answers, execution) := execution.askAll rest
    (answer :: answers, execution)

end Execution

/-- The answers to calls of a host one after the other, and what outlasts the execution: its history
and the manipulator. -/
def Executable.answers (executable : Executable) (options : ExecuteOptions) (history : History)
    (calls : List HostCall) :
    Except ExecutionError (List HostAnswer × History × Option Manipulator) :=
  (executable.execute options history).map fun execution =>
    let (answers, execution) := execution.askAll calls
    (answers, execution.history, execution.state.manipulator)

/-! ## Relocated executions -/

/-- Executions that differ in the places of slots only. -/
structure Execution.Relocated (move : Nat → Nat) (execution execution' : Execution) : Prop where
  /-- What is fixed does. -/
  setting : execution.setting.Relocated move execution'.setting
  /-- What changes does. -/
  state : execution.state.Relocated move execution'.state
  /-- The statement features have moved, in order. -/
  groups : execution'.groups = execution.groups.map move

namespace Execution.Relocated

variable {move : Nat → Nat} {execution execution' : Execution}
  (relocated : execution.Relocated move execution')
include relocated

/-- Other states may come. -/
theorem withState {state state' : State} (same : state.Relocated move state') :
    { execution with state }.Relocated move { execution' with state := state' } :=
  ⟨relocated.setting, same, relocated.groups⟩

/-- Routines run side by side to the same outcomes. -/
theorem runSide (passes breadth : Nat) (routines : List Routine) :
    (execution.runSide passes breadth routines).1 =
        (execution'.runSide passes breadth (routines.map (Routine.relocate move))).1 ∧
      (execution.runSide passes breadth routines).2.Relocated move
        (execution'.runSide passes breadth (routines.map (Routine.relocate move))).2 := by
  have alike : List.Forall₂ (Relocates move (Thread.IsMoved move))
      (routines.map (Thread.start execution.setting []))
      ((routines.map (Routine.relocate move)).map (Thread.start execution'.setting [])) := by
    rw [List.map_map, List.forall₂_map_left_iff, List.forall₂_map_right_iff, List.forall₂_same]
    exact fun routine _ => Thread.relocates_start relocated.setting [] routine
  have runs : Relocates move (· = ·)
      ((routines.map (Thread.start execution.setting [])).mapM id >>=
        Thread.gather execution.setting breadth passes)
      (((routines.map (Routine.relocate move)).map (Thread.start execution'.setting [])).mapM id >>=
        Thread.gather execution'.setting breadth passes) := by
    refine .bind (Thread.relocates_mapM alike) ?_
    rintro threads _ rfl
    exact Thread.relocates_gather relocated.setting breadth passes threads
  rw [List.mapM_map, List.mapM_map] at runs
  obtain ⟨same, after⟩ := runs relocated.state
  exact ⟨same, relocated.withState after⟩

/-- Slots requested side by side have the same outcomes. -/
theorem fetchEach (passes : Nat) (names : List String) :
    (execution.fetchEach passes names).1 = (execution'.fetchEach passes names).1 ∧
      (execution.fetchEach passes names).2.Relocated move
        (execution'.fetchEach passes names).2 := by
  rw [Execution.fetchEach, Execution.fetchEach, relocated.setting.map_fetchNamed]
  exact relocated.runSide passes names.length _

/-- Running all statements comes to the same. -/
theorem runStatements (passes : Nat) :
    (execution.runStatements passes).1 = (execution'.runStatements passes).1 ∧
      (execution.runStatements passes).2.Relocated move (execution'.runStatements passes).2 := by
  have routines : (execution'.groups.map fun index => Routine.fetch index .done) =
      (execution.groups.map fun index => Routine.fetch index .done).map
        (Routine.relocate move) := by
    rw [relocated.groups, List.map_map, List.map_map]
    rfl
  have size : execution'.graph.size = execution.graph.size := relocated.setting.graph.size
  obtain ⟨same, after⟩ := relocated.runSide passes execution.graph.size
    (execution.groups.map fun index => .fetch index .done)
  rw [Execution.runStatements, Execution.runStatements, routines, size]
  exact ⟨congrArg (Option.map fun outcomes => (collect outcomes).map fun _ => ()) same, after⟩

/-- A log record is written. -/
theorem log (level : LogLevel) (props : Props) (format : String) (params : List Value) :
    (execution.log level props format params).Relocated move
      (execution'.log level props format params) :=
  relocated.withState (relocated.state.perform relocated.setting (.log level props format params))

/-- Time passes. -/
theorem advance (milliseconds : Nat) :
    (execution.advance milliseconds).Relocated move (execution'.advance milliseconds) := by
  rw [Execution.advance, Execution.advance, relocated.state.now]
  exact relocated.withState (relocated.state.moveClock _)

/-- Running the queued actions comes to the same. -/
theorem mutate? (steps : Nat) :
    (execution.mutate? steps).1 = (execution'.mutate? steps).1 ∧
      (execution.mutate? steps).2.Relocated move (execution'.mutate? steps).2 := by
  have manipulator : execution'.state.manipulator = execution.state.manipulator :=
    (congrArg State.manipulator relocated.state.others :)
  have timeline : execution'.state.timeline = execution.state.timeline :=
    (congrArg State.timeline relocated.state.others :)
  have context : execution'.setting.context = execution.setting.context :=
    (congrArg Setting.context relocated.setting.others :)
  rw [Execution.mutate?, Execution.mutate?, manipulator, timeline, context]
  split
  · exact ⟨rfl, relocated⟩
  · rename_i result manipulator timeline _
    refine ⟨rfl, relocated.withState ?_⟩
    exact @State.Relocated.frame _ _ _ relocated.state
      (fun state => { state with manipulator := some manipulator, timeline }) fun _ _ _ => rfl

/-- **A call is answered alike**, and the executions stay relocated. -/
theorem ask (call : HostCall) :
    (execution.ask call).1 = (execution'.ask call).1 ∧
      (execution.ask call).2.Relocated move (execution'.ask call).2 := by
  cases call with
  | fetch passes name =>
    obtain ⟨same, after⟩ := relocated.fetchEach passes [name]
    exact ⟨congrArg (HostAnswer.outcome ∘ (· >>= List.head?)) same, after⟩
  | fetchValue passes name =>
    obtain ⟨same, after⟩ := relocated.fetchEach passes [name]
    have unwrapped := congrArg (fun outcomes : Option (List Outcome) =>
      (outcomes >>= List.head?).map fun outcome : Outcome => outcome.map Value.unwrap) same
    exact ⟨congrArg HostAnswer.outcome unwrapped, after⟩
  | fetchEach passes names =>
    obtain ⟨same, after⟩ := relocated.fetchEach passes names
    exact ⟨congrArg HostAnswer.outcomes same, after⟩
  | fetchAll passes names =>
    obtain ⟨same, after⟩ := relocated.fetchEach passes names
    exact ⟨congrArg (HostAnswer.values ∘ Option.map collect) same, after⟩
  | runStatements passes =>
    obtain ⟨same, after⟩ := relocated.runStatements passes
    exact ⟨congrArg HostAnswer.completed same, after⟩
  | log level props format params => exact ⟨rfl, relocated.log level props format params⟩
  | advance milliseconds => exact ⟨rfl, relocated.advance milliseconds⟩
  | mutate steps =>
    obtain ⟨same, after⟩ := relocated.mutate? steps
    exact ⟨congrArg HostAnswer.mutated same, after⟩

/-- **Calls one after the other are answered alike.** -/
theorem askAll (calls : List HostCall) :
    (execution.askAll calls).1 = (execution'.askAll calls).1 ∧
      (execution.askAll calls).2.Relocated move (execution'.askAll calls).2 := by
  induction calls generalizing execution execution' with
  | nil => exact ⟨rfl, relocated⟩
  | cons call rest ih =>
    obtain ⟨first, between⟩ := relocated.ask call
    obtain ⟨others, after⟩ := ih between
    exact ⟨congrArg₂ List.cons first others, after⟩

/-- What outlasts the executions is the same. -/
theorem history : execution'.history = execution.history :=
  (congrArg (fun state => History.mk state.timeline state.invocations) relocated.state.others :)

/-- So is the manipulator. -/
theorem manipulator : execution'.state.manipulator = execution.state.manipulator :=
  (congrArg State.manipulator relocated.state.others :)

end Execution.Relocated

/-! ## Relocated executables -/

/-- At first no slot is computed, wherever it has moved. -/
theorem State.relocated_initial {move : Nat → Nat} {graph graph' : Graph}
    (relocated : graph.Relocated move graph') :
    (State.initial graph.size).Relocated move (State.initial graph'.size) := by
  have inside : ∀ index, move index < graph'.size ↔ index < graph.size := relocated.slots.lt_iff
  have moved : ∀ {α : Type} (view : α → α) (item : α), view item = item →
      Moved move view (List.replicate graph.size item) (List.replicate graph'.size item) := by
    intro α view item same
    refine ⟨by rw [List.length_replicate, List.length_replicate, relocated.size], fun index => ?_⟩
    simp only [List.getElem?_replicate, inside]
    split
    · rw [Option.map_some, same]
    · rfl
  exact ⟨moved id (Cell.idle 0) rfl, moved (List.map move) [] rfl, rfl⟩

namespace Executable

variable {graph graph' : Graph} {scope : Scope} {config : EngineConfig}

/-- Graphs with the same slots call the same functions. -/
theorem function?_ofGraph_of_perm (perm : graph'.slots.Perm graph.slots) (name : String) :
    (ofGraph graph' scope config).function? name = (ofGraph graph scope config).function? name := by
  have called : name ∈ calledNames graph' ↔ name ∈ calledNames graph := by
    simp only [calledNames, SlotExpr.mem_distinct, List.mem_flatMap, perm.mem_iff]
  rw [function?, function?, ofGraph, ofGraph, lookup_filterMap, lookup_filterMap]
  simp only [called]

variable {move : Nat → Nat}

/-- Executions of relocated graphs are started alike. -/
theorem execute_relocated (relocated : graph.Relocated move graph')
    (perm : graph'.slots.Perm graph.slots)
    (groups : graph'.groupPlaces = graph.groupPlaces.map move)
    (options : ExecuteOptions) (history : History) :
    (∃ error, (ofGraph graph scope config).execute options history = .error error ∧
        (ofGraph graph' scope config).execute options history = .error error) ∨
      ∃ execution execution', (ofGraph graph scope config).execute options history = .ok execution ∧
        (ofGraph graph' scope config).execute options history = .ok execution' ∧
        execution.Relocated move execution' := by
  have hasInput : graph'.hasInput = graph.hasInput := by
    funext name
    rw [Graph.hasInput, Graph.hasInput, relocated.get?]
  unfold execute
  dsimp only [ofGraph]
  rw [hasInput]
  split
  · exact .inl ⟨_, rfl, rfl⟩
  · refine .inr ⟨_, _, rfl, rfl, ⟨relocated, function?_ofGraph_of_perm perm, rfl⟩, ?_, groups⟩
    exact @State.Relocated.frame _ _ _ (State.relocated_initial relocated) (fun state =>
      { state with
        manipulator := options.manipulator
        timeline := history.timeline
        invocations := history.invocations }) fun _ _ _ => rfl

/-- **Executables of acyclic graphs with the same slots give the same answers**, if the statement
features come in the same order. -/
theorem answers_eq_of_perm (linked : graph.Linked) (linked' : graph'.Linked)
    (acyclic : graph.isAcyclic = true) (acyclic' : graph'.isAcyclic = true)
    (perm : graph'.slots.Perm graph.slots)
    (groups : graph'.slots.filter Slot.isGroup = graph.slots.filter Slot.isGroup)
    (options : ExecuteOptions) (history : History) (calls : List HostCall) :
    (ofGraph graph' scope config).answers options history calls =
      (ofGraph graph scope config).answers options history calls := by
  have relocated := Graph.relocated_move linked linked' perm acyclic acyclic'
  have places := relocated.groupPlaces linked linked' groups
  rw [answers, answers]
  rcases execute_relocated relocated perm places options history with
    ⟨error, refused, refused'⟩ | ⟨execution, execution', started, started', same⟩
  · rw [refused, refused']
  · obtain ⟨answered, after⟩ := same.askAll calls
    rw [started, started']
    show Except.ok ((execution'.askAll calls).1, (execution'.askAll calls).2.history,
      (execution'.askAll calls).2.state.manipulator) = _
    rw [← answered, after.history, after.manipulator]
    rfl

end Executable

end RuleGraph
