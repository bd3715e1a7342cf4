import RuleGraph.Catalog
import RuleGraph.Slot

/-! # Lowering

Rewritten expressions become expressions of slots: every call is checked against the function that
it names, and carries that function's qualified name from then on.

* **`lowerValue`** — an expression that stands for a value.
* **`lowerFeature`** — the slot of a feature, which may be an input.
* **`Groups.lowerStatement`** — the slot of a statement, numbered within its statement feature.
-/

namespace RuleGraph

/-- The name whose call marks a feature as supplied by the host. -/
def inputFunction : String := "input"

/-- The entry of a function that computes values, called with the given arguments. -/
def resolveValue (scope : Scope) (function : String) (args : List Expr) :
    Except CompileError Entry :=
  if function = inputFunction then
    .error (.argumentMismatch inputFunction "input() must be the whole definition of a LET")
  else do
    let entry ← scope.lookup function
    match entry.kind with
    | .async _ | .sync _ =>
      entry.checkArgs args
      return entry
    | .statement _ _ => throw (.statementAsValue function)
    | .custom _ => throw (.argumentMismatch function "requires custom syntax")
    | .transform _ => throw (.hookFailed function "call site was not rewritten")

mutual

/-- Lower an expression that stands for a value. -/
def lowerValue (scope : Scope) : Expr → Except CompileError SlotExpr
  | .const value => .ok (.const value)
  | .feature name => .ok (.feature name)
  | .list items => do return .list (← lowerValues scope items)
  | .call function args => do
    let entry ← resolveValue scope function args
    return .call entry.qualifiedName (← lowerValues scope args)
  | .custom function _ => .error (.notCustom function)

/-- Lower several expressions. -/
def lowerValues (scope : Scope) : List Expr → Except CompileError (List SlotExpr)
  | [] => .ok []
  | item :: rest => do
    let item ← lowerValue scope item
    return item :: (← lowerValues scope rest)

end

/-- The slot of a feature: an input if its definition is a call of `input`, else the value of its
definition. -/
def lowerFeature (scope : Scope) (name : String) (body : Expr) : Except CompileError Slot :=
  match body with
  | .call function args =>
    if function = inputFunction then
      if args.isEmpty then .ok (.input name)
      else .error (.argumentMismatch inputFunction
        ("expected no arguments, got " ++ Numeral.natText args.length))
    else do return .feature name (← lowerValue scope body)
  | body => do return .feature name (← lowerValue scope body)

/-- The statement features that are used, in order of first appearance, with the names of their
statements. -/
abbrev Groups := List (String × List String)

namespace Groups

/-- The names of the statements of a statement feature. -/
def members (groups : Groups) (feature : String) : List String :=
  (groups.lookup feature).getD []

/-- Add a statement to a statement feature. -/
def add (feature member : String) : Groups → Groups
  | [] => [(feature, [member])]
  | (name, names) :: rest =>
    if name = feature then (name, names ++ [member]) :: rest
    else (name, names) :: add feature member rest

/-- The slot of a statement under a lowered condition. It is numbered within its feature. -/
def lowerStatement (groups : Groups) (scope : Scope) (condition : Option SlotExpr) (call : Expr) :
    Except CompileError (Slot × Groups) :=
  match call with
  | .call function args => do
    let entry ← scope.lookup function
    match entry.kind with
    | .statement feature _ =>
      entry.checkArgs args
      let args ← lowerValues scope args
      -- Statements of a feature are counted over the whole program.
      let number := (groups.members feature).length
      let name := feature ++ "#" ++ Numeral.natText number
      return (.statement name feature condition (.call entry.qualifiedName args),
        groups.add feature name)
    | _ => throw (.notAStatement function)
  | other => .error (.notAStatement other.write)

/-- The slots of the statement features. -/
def slots (groups : Groups) : List Slot :=
  groups.map fun (feature, names) => .group feature names

end Groups

end RuleGraph
