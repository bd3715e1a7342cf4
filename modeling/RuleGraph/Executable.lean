import RuleGraph.Compile
import RuleGraph.Config

/-! # Executables

A compiled graph bound to the functions that it calls, with the defaults for its executions.

* **`Executable.ofGraph`** — bind a graph to the functions of a scope.
* **`Executable.function?`** — the function that a name in the graph is bound to.
* **`Executable.write`** — a one-line description.
-/

namespace RuleGraph

/-- A graph bound to functions. -/
structure Executable where
  /-- The graph. -/
  graph : Graph
  /-- The functions the graph calls, under the names by which it calls them. Names that stand for
  no function are missing. -/
  functions : List (String × Entry)
  /-- Defaults for executions. -/
  config : EngineConfig := {}
  deriving Inhabited

namespace Executable

/-- The names of the functions that a graph calls, each once. -/
def calledNames (graph : Graph) : List String :=
  distinct ((graph.slots.flatMap Slot.expressions).flatMap fun body => body.calls.map Prod.fst)

/-- Bind the calls of a graph to the functions that a scope has for them. -/
def ofGraph (graph : Graph) (scope : Scope) (config : EngineConfig) : Executable :=
  { graph
    functions := (calledNames graph).filterMap fun name =>
      (scope.get? name).map fun entry => (name, entry)
    config }

/-- The function that is bound to a name. -/
def function? (executable : Executable) (name : String) : Option Entry :=
  executable.functions.lookup name

/-- Names of the inputs, features and statement features, in the order of the graph. -/
def features (executable : Executable) : List String :=
  (executable.graph.slots.filter fun slot => !slot.isSingleStatement).map Slot.name

/-- The names of the statement features, in the order of the graph. -/
def statementFeatures (executable : Executable) : List String :=
  (executable.graph.slots.filter Slot.isGroup).map Slot.name

/-- The names of the slots that a slot depends on; none for an unknown name. -/
def dependenciesOf (executable : Executable) (name : String) : List String :=
  ((executable.graph.get? name).map Slot.deps).getD []

/-- A one-line description. -/
def write (executable : Executable) : String :=
  "Executable(" ++ Numeral.natText executable.graph.size ++ " slots, "
    ++ Numeral.natText executable.graph.inputs.length ++ " inputs, "
    ++ Numeral.natText executable.statementFeatures.length ++ " statement features)"

end Executable

end RuleGraph
