import RuleGraph.Compile.Lower
import RuleGraph.Compile.Rewrite
import RuleGraph.Graph
import RuleGraph.Program

/-! # Compilation

A program becomes a graph: its definitions are rewritten and lowered in order, then the features
that hooks have added, then the statement features; the slots are put into dependency order.

* **`lowerProgram?`** — the slots of a program in the order in which they are lowered.
* **`compile?`** — the graph of a program.
-/

namespace RuleGraph

/-- Slots lowered so far, in order, and the statement features they use. -/
structure Lowered where
  /-- The slots. -/
  slots : List Slot := []
  /-- The statement features. -/
  groups : Groups := []
  deriving DecidableEq

/-- Steps of a compilation. -/
abbrev CompileM := StateT CompileState (Except CompileError)

namespace Lowered

/-- Rewrite and lower the definition of a feature. -/
def addFeature (scope : Scope) (limit : Nat) (lowered : Lowered) (name : String) (body : Expr) :
    CompileM Lowered := do
  let body ← rewrite scope limit body
  let slot ← lowerFeature scope name body
  return { lowered with slots := lowered.slots ++ [slot] }

/-- Rewrite and lower a statement under a lowered condition. It has to be a call. -/
def addStatement (scope : Scope) (limit : Nat) (condition : Option SlotExpr) (lowered : Lowered)
    (call : Expr) : CompileM Lowered := do
  match call with
  | .call _ _ =>
    let call ← rewrite scope limit call
    let (slot, groups) ← lowered.groups.lowerStatement scope condition call
    return ⟨lowered.slots ++ [slot], groups⟩
  | other => throw (.notAStatement other.write)

/-- Rewrite and lower a definition. The condition of a rule is lowered once for all its calls. -/
def addDefinition (scope : Scope) (limit : Nat) (lowered : Lowered) :
    Definition → CompileM Lowered
  | .feature name body => lowered.addFeature scope limit name body
  | .rule none calls => calls.foldlM (addStatement scope limit none) lowered
  | .rule (some condition) calls => do
    -- Every statement of the rule gets a copy of the lowered condition.
    let condition ← rewrite scope limit condition
    let condition ← lowerValue scope condition
    calls.foldlM (addStatement scope limit (some condition)) lowered

/-- Lower the features that hooks have added, and those that are added meanwhile, in at most so
many rounds. There is no result if features are still to be lowered after that. -/
def addPending (scope : Scope) (limit : Nat) : Nat → Lowered → CompileM (Option Lowered)
  | 0, lowered => do
    let state ← get
    return if state.pending.isEmpty then some lowered else none
  | rounds + 1, lowered => do
    let state ← get
    if state.pending.isEmpty then return some lowered
    -- Lowering these may add further ones, which are for the next round.
    set { state with pending := [] }
    let lowered ← state.pending.foldlM
      (fun lowered (name, body) => lowered.addFeature scope limit name body) lowered
    addPending scope limit rounds lowered

end Lowered

/-- The names of the features that a program defines. -/
def Program.featureNames (program : Program) : List String :=
  program.filterMap Definition.featureName?

/-- The slots of a program: its definitions in order, then the features that hooks add, then the
statement features. There is no result if hooks keep adding features for more than `rounds`
rounds. -/
def lowerProgram? (scope : Scope) (limit rounds : Nat) (program : Program) :
    Except CompileError (Option (List Slot)) :=
  let steps : CompileM (Option Lowered) := do
    let lowered ← program.foldlM (Lowered.addDefinition scope limit) {}
    lowered.addPending scope limit rounds
  match steps { defined := program.featureNames } with
  | .error error => .error error
  | .ok (lowered, _) => .ok (lowered.map fun lowered => lowered.slots ++ lowered.groups.slots)

/-- The graph of lowered slots in dependency order. Cycles are refused. -/
def linkSlots (slots : List Slot) : Except CompileError Graph := do
  let graph ← Graph.ofSlots slots
  match graph.firstCycle? with
  | some path => throw (.cyclicDependency path)
  -- Places have changed with the order, so edges are found anew.
  | none => Graph.ofSlots graph.orderedSlots

/-- The graph of a program. There is no result if hooks keep adding features for more than `rounds`
rounds. -/
def compile? (scope : Scope) (limit rounds : Nat) (program : Program) :
    Except CompileError (Option Graph) := do
  match ← lowerProgram? scope limit rounds program with
  | none => return none
  | some slots => return some (← linkSlots slots)

/-- Compile a program in a view of a catalog. Whatever comes of it, registration ends. -/
def Catalog.compile? (catalog : Catalog) (package : Option String) (limit rounds : Nat)
    (program : Program) : Catalog × Except CompileError (Option Graph) :=
  let catalog := catalog.endRegistration
  (catalog, RuleGraph.compile? ⟨catalog, package⟩ limit rounds program)

end RuleGraph
