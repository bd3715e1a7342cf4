import RuleGraph.Expr
import RuleGraph.Slot

/-! # Slot expressions in source

Expressions in slots are the expressions of rule source that have no calls with raw text. A host
that makes slots by hand may give their expressions as expressions of source.

* **`SlotExpr.toExpr`** — an expression of a slot as an expression of source.
* **`SlotExpr.ofExpr?`** — the expression of a slot that is given so.
-/

namespace RuleGraph.SlotExpr

mutual

/-- An expression of a slot as an expression of source. -/
def toExpr : SlotExpr → Expr
  | .const value => .const value
  | .feature name => .feature name
  | .list items => .list (toExprs items)
  | .call function args => .call function (toExprs args)

/-- Several expressions of slots as expressions of source. -/
def toExprs : List SlotExpr → List Expr
  | [] => []
  | item :: rest => toExpr item :: toExprs rest

end

mutual

/-- An expression of source as an expression of a slot, if it has no call with raw text. -/
def ofExpr? : Expr → Option SlotExpr
  | .const value => some (.const value)
  | .feature name => some (.feature name)
  | .list items => (ofExprs? items).map .list
  | .call function args => (ofExprs? args).map (.call function)
  | .custom _ _ => none

/-- Several expressions of source as expressions of slots. -/
def ofExprs? : List Expr → Option (List SlotExpr)
  | [] => some []
  | item :: rest => do return (← ofExpr? item) :: (← ofExprs? rest)

end

end RuleGraph.SlotExpr
