import RuleGraph.Proofs.Relocation.Graph
import RuleGraph.Proofs.Routine.Fetches

/-! # Routines with slots at other places

What a routine does with a slot it does with it at another place.

* **`Routine.relocate`** — a routine that fetches the slots where they have moved.
* **`Setting.Relocated`** — settings that differ in the places of slots only.
* **`Setting.Relocated.slotRoutine`** — slots have the same routines up to these places.
-/

namespace RuleGraph

namespace Routine

mutual

/-- A routine that fetches every slot where it has moved. -/
def relocate (move : Nat → Nat) : Routine → Routine
  | .done outcome => .done outcome
  | .perform effect next => .perform effect (relocate move next)
  | .invoke function args next => .invoke function args fun ordinal => relocate move (next ordinal)
  | .pause next => .pause (relocate move next)
  | .sleep milliseconds next => .sleep milliseconds (relocate move next)
  | .fetch index next => .fetch (move index) fun outcome => relocate move (next outcome)
  | .within milliseconds child next =>
    .within milliseconds (relocate move child) fun outcome => relocate move (next outcome)
  | .join breadth children next =>
    .join breadth (relocateAll move children) fun outcomes => relocate move (next outcomes)

/-- Several routines that fetch every slot where it has moved. -/
def relocateAll (move : Nat → Nat) : List Routine → List Routine
  | [] => []
  | child :: rest => relocate move child :: relocateAll move rest

end

variable {move : Nat → Nat}

/-- Every routine fetches slots where they have moved. -/
theorem relocateAll_eq_map (children : List Routine) :
    relocateAll move children = children.map (relocate move) := by
  induction children with
  | nil => rw [relocateAll, List.map_nil]
  | cons child rest ih => rw [relocateAll, ih, List.map_cons]

/-- Routines side by side. -/
theorem relocate_all (children : List Routine) (next : List Outcome → Routine) :
    (all children next).relocate move =
      .all (children.map (relocate move)) fun outcomes => (next outcomes).relocate move := by
  rw [all, relocate, relocateAll_eq_map, all, List.length_map]

/-- Routines side by side, up to the first error. -/
theorem relocate_allValues (children : List Routine) (next : List Value → Routine) :
    (allValues children next).relocate move =
      .allValues (children.map (relocate move)) fun values => (next values).relocate move := by
  rw [allValues, relocate_all, allValues]
  congr 1
  funext outcomes
  cases collect outcomes with
  | ok values => rfl
  | error error => rw [relocate]

/-- One routine, up to an error. -/
theorem relocate_value (child : Routine) (next : Value → Routine) :
    (value child next).relocate move =
      .value (child.relocate move) fun value => (next value).relocate move := by
  rw [value, relocate_allValues]
  rfl

/-- Several effects. -/
theorem relocate_performAll (effects : List Effect) (next : Routine) :
    (performAll effects next).relocate move = .performAll effects (next.relocate move) := by
  induction effects with
  | nil => rfl
  | cons effect rest ih => rw [performAll, relocate, ih, performAll]

end Routine

/-- Settings that differ in the places of slots only. -/
structure Setting.Relocated (move : Nat → Nat) (setting setting' : Setting) : Prop where
  /-- Slots stand where they have moved. -/
  graph : setting.graph.Relocated move setting'.graph
  /-- Names stand for the same functions. -/
  function? : ∀ name, setting'.executable.function? name = setting.executable.function? name
  /-- Everything else is the same. -/
  others : { setting' with executable := setting.executable } = setting

namespace Setting.Relocated

variable {move : Nat → Nat} {setting setting' : Setting}
  (relocated : setting.Relocated move setting')
include relocated

/-- The inputs have the same values. -/
theorem inputs : setting'.inputs = setting.inputs :=
  (congrArg Setting.inputs relocated.others :)

/-- Statements can run in both or in none. -/
theorem hasManipulator : setting'.hasManipulator = setting.hasManipulator :=
  (congrArg Setting.hasManipulator relocated.others :)

/-- The event has the same time. -/
theorem clock : setting'.clock = setting.clock :=
  (congrArg Setting.clock relocated.others :)

/-- Slots have to be done by the same time. -/
theorem deadlineOf? (index : Nat) :
    setting'.deadlineOf? (move index) = setting.deadlineOf? index := by
  have deadline : setting'.deadline? = setting.deadline? :=
    (congrArg Setting.deadline? relocated.others :)
  rw [Setting.deadlineOf?, Setting.deadlineOf?, relocated.graph.getElem?, deadline]

/-- A slot that is not fails with the same error. -/
theorem timeoutError (index : Nat) :
    setting'.timeoutError (move index) = setting.timeoutError index := by
  have timeout : setting'.featureTimeout = setting.featureTimeout :=
    (congrArg Setting.featureTimeout relocated.others :)
  rw [Setting.timeoutError, Setting.timeoutError, relocated.graph.name, timeout]

/-- A slot is fetched by its name where it has moved. -/
theorem fetchNamed (name : String) :
    setting'.fetchNamed name = (setting.fetchNamed name).relocate move := by
  rw [Setting.fetchNamed, Setting.fetchNamed, relocated.graph.indexOf?]
  cases setting.graph.indexOf? name with
  | none => rfl
  | some index => rfl

/-- So are several slots. -/
theorem map_fetchNamed (names : List String) :
    names.map setting'.fetchNamed = (names.map setting.fetchNamed).map (Routine.relocate move) := by
  rw [List.map_map]
  exact List.map_congr_left fun name _ => relocated.fetchNamed name

/-- Slots are fetched before something else is done. -/
theorem prefetch (names : List String) (next : Routine) :
    setting'.prefetch names (next.relocate move) = (setting.prefetch names next).relocate move := by
  rw [Setting.prefetch, Setting.prefetch, Routine.relocate_allValues, relocated.map_fetchNamed]

/-- A function takes the same steps. -/
theorem actionRoutine {α : Type} {next next' : Except FunctionError α → Routine}
    (same : ∀ result, next' result = (next result).relocate move) (action : Action α) :
    setting'.actionRoutine next' action = (setting.actionRoutine next action).relocate move := by
  induction action with
  | finish result => exact same result
  | pause rest ih | sleep milliseconds rest ih | perform effect rest ih =>
    simp only [Setting.actionRoutine, Routine.relocate, ih]
  | fetch names rest ih =>
    simp only [Setting.actionRoutine, Routine.relocate_all, relocated.map_fetchNamed, ih]
  | fetchWithin milliseconds name rest ih =>
    simp only [Setting.actionRoutine, Routine.relocate, relocated.fetchNamed, ih]

/-- A function is told the same. -/
theorem invocation (entry : Entry) (ordinal : Nat) :
    setting'.invocation entry ordinal = setting.invocation entry ordinal := by
  rw [Setting.invocation, Setting.invocation, relocated.clock, relocated.hasManipulator]

/-- A function that computes a value is invoked the same way. -/
theorem invokeValue (name : String) (entry : Entry) (args : List Value) :
    setting'.invokeValue name entry args = (setting.invokeValue name entry args).relocate move := by
  unfold Setting.invokeValue
  cases entry.kind with
  | sync body =>
    simp only [relocated.invocation, Routine.relocate, Routine.relocate_performAll]
  | async body =>
    simp only [relocated.invocation, Routine.relocate]
    congr 1
    refine funext fun ordinal => relocated.actionRoutine (fun result => ?_) _
    rw [Routine.relocate]
  | statement | custom | transform => rfl

/-- A call takes the same steps. -/
theorem callRoutine (name : String) (args : List Value) :
    setting'.callRoutine name args = (setting.callRoutine name args).relocate move := by
  unfold Setting.callRoutine
  rw [relocated.function?]
  split
  · rfl
  · split
    · rfl
    · split
      · rfl
      · exact relocated.invokeValue _ _ _

omit relocated in
/-- Several expressions are evaluated in the same steps if each of them is. -/
theorem exprRoutines_of_forall {bodies : List SlotExpr}
    (each : ∀ body ∈ bodies, setting'.exprRoutine body = (setting.exprRoutine body).relocate move) :
    setting'.exprRoutines bodies = (setting.exprRoutines bodies).map (Routine.relocate move) := by
  rw [exprRoutines_eq_map, exprRoutines_eq_map, List.map_map]
  exact List.map_congr_left each

/-- **An expression is evaluated in the same steps.** -/
theorem exprRoutine (body : SlotExpr) :
    setting'.exprRoutine body = (setting.exprRoutine body).relocate move := by
  induction body with
  | const value => rfl
  | feature name => exact relocated.fetchNamed name
  | list items ih =>
    rw [Setting.exprRoutine, Setting.exprRoutine, Routine.relocate_allValues,
      exprRoutines_of_forall ih]
    rfl
  | call function args ih =>
    rw [Setting.exprRoutine, Setting.exprRoutine, Routine.relocate_allValues,
      exprRoutines_of_forall ih]
    congr 1
    exact funext fun values => relocated.callRoutine function values

/-- The same entities are tracked. -/
theorem trackingEffects (args : List Value) :
    setting'.trackingEffects args = setting.trackingEffects args := by
  rw [Setting.trackingEffects, Setting.trackingEffects, relocated.clock]

/-- A statement is invoked the same way. -/
theorem invokeStatement (name : String) (args : List Value) :
    setting'.invokeStatement name args = (setting.invokeStatement name args).relocate move := by
  unfold Setting.invokeStatement
  rw [relocated.function?, relocated.trackingEffects]
  split
  · rfl
  · split
    · split
      · rfl
      · rw [Routine.relocate_performAll]
        congr 1
        split
        · rfl
        · simp only [relocated.invocation, Routine.relocate]
          congr 1
          refine funext fun ordinal => relocated.actionRoutine (fun result => ?_) _
          cases result with
          | ok value => rfl
          | error error => rfl
    · rfl

/-- A statement whose condition holds takes the same steps. -/
theorem statementCall (call : SlotExpr) :
    setting'.statementCall call = (setting.statementCall call).relocate move := by
  unfold Setting.statementCall
  split
  · rw [← relocated.prefetch, Routine.relocate_allValues,
      exprRoutines_of_forall fun body _ => relocated.exprRoutine body]
    simp only [relocated.invokeStatement]
  · exact relocated.exprRoutine _

/-- A statement takes the same steps. -/
theorem statementRoutine (name : String) (condition : Option SlotExpr) (call : SlotExpr) :
    setting'.statementRoutine name condition call =
      (setting.statementRoutine name condition call).relocate move := by
  unfold Setting.statementRoutine
  rw [relocated.hasManipulator]
  split
  · rfl
  · split
    · exact relocated.statementCall call
    · rw [← relocated.prefetch, Routine.relocate_value, relocated.exprRoutine]
      congr 2
      funext value
      split
      · exact relocated.statementCall call
      · rfl

/-- **A slot is computed in the same steps**, wherever it has moved. -/
theorem slotRoutine (index : Nat) :
    setting'.slotRoutine (move index) = (setting.slotRoutine index).relocate move := by
  unfold Setting.slotRoutine
  rw [relocated.graph.getElem?]
  split
  · rfl
  · split
    · rw [relocated.inputs]
      rfl
    · rw [← relocated.prefetch, relocated.exprRoutine]
    · exact relocated.statementRoutine _ _ _
    · rw [Routine.relocate_all, relocated.graph.dependencies, List.map_map, List.map_map]
      rfl

end Setting.Relocated

end RuleGraph
