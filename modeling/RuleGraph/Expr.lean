import RuleGraph.Value.Text

/-! # Source expressions

The expression trees of a rule program, as they are parsed or built, before functions are resolved.

* **`Expr`** — constants, features, lists, calls, and calls whose arguments are raw text.
* **`Expr.constant?`** — the value of a constant expression, lists of constants included.
* **`Expr.features`** — the features an expression refers to, in order, with repetitions.
* **`Expr.write`** — the source text of an expression.
-/

namespace RuleGraph

/-- A source expression. -/
inductive Expr where
  /-- A literal value. -/
  | const (value : Value)
  /-- A reference to a feature. -/
  | feature (name : String)
  /-- A list of expressions. -/
  | list (items : List Expr)
  /-- A call of a function on expressions. -/
  | call (function : String) (args : List Expr)
  /-- A call whose arguments are no expressions: the text between its parentheses. -/
  | custom (function source : String)
  deriving Inhabited

/-- A call site: the function's name as written, and the arguments. -/
structure CallNode where
  /-- The function's name as written. -/
  function : String
  /-- The arguments. -/
  args : List Expr
  deriving Inhabited

/-- A call site with raw text between its parentheses. -/
structure CustomNode where
  /-- The function's name as written. -/
  function : String
  /-- The text between the parentheses. -/
  source : String
  deriving DecidableEq, Inhabited

namespace Expr

mutual

/-- Decide whether two expressions are identical. -/
def decEq : (a b : Expr) → Decidable (a = b)
  | .const x, .const y => decidable_of_iff (x = y) (by simp)
  | .feature x, .feature y => decidable_of_iff (x = y) (by simp)
  | .list xs, .list ys =>
    match decEqList xs ys with
    | isTrue h => isTrue (by rw [h])
    | isFalse h => isFalse (by simpa using h)
  | .call f xs, .call g ys =>
    match decEqList xs ys with
    | isTrue h => decidable_of_iff (f = g) (by simp [h])
    | isFalse h => isFalse (by simp [h])
  | .custom f s, .custom g t => decidable_of_iff (f = g ∧ s = t) (by simp)
  | .const _, .feature _ | .const _, .list _ | .const _, .call _ _ | .const _, .custom _ _
  | .feature _, .const _ | .feature _, .list _ | .feature _, .call _ _ | .feature _, .custom _ _
  | .list _, .const _ | .list _, .feature _ | .list _, .call _ _ | .list _, .custom _ _
  | .call _ _, .const _ | .call _ _, .feature _ | .call _ _, .list _ | .call _ _, .custom _ _
  | .custom _ _, .const _ | .custom _ _, .feature _ | .custom _ _, .list _
  | .custom _ _, .call _ _ => isFalse (by simp)

/-- Decide whether two lists of expressions are identical. -/
def decEqList : (xs ys : List Expr) → Decidable (xs = ys)
  | [], [] => isTrue rfl
  | [], _ :: _ => isFalse (by simp)
  | _ :: _, [] => isFalse (by simp)
  | x :: xs, y :: ys =>
    match decEq x y, decEqList xs ys with
    | isTrue h, isTrue t => isTrue (by rw [h, t])
    | isFalse h, _ => isFalse (by simp [h])
    | _, isFalse t => isFalse (by simp [t])

end

instance : DecidableEq Expr := decEq

mutual

/-- Whether an expression is a literal or a list of constant expressions. -/
def isConstant : Expr → Bool
  | .const _ => true
  | .list items => areConstant items
  | _ => false

/-- Whether all of several expressions are constant. -/
def areConstant : List Expr → Bool
  | [] => true
  | item :: rest => isConstant item && areConstant rest

end

mutual

/-- The value of a constant expression. -/
def constant? : Expr → Option Value
  | .const value => some value
  | .list items => (constants? items).map .list
  | _ => none

/-- The values of several constant expressions. -/
def constants? : List Expr → Option (List Value)
  | [] => some []
  | item :: rest =>
    match constant? item, constants? rest with
    | some value, some values => some (value :: values)
    | _, _ => none

end

mutual

/-- The names of the features referred to, in order and with repetitions. -/
def features : Expr → List String
  | .feature name => [name]
  | .list items => featuresOfAll items
  | .call _ args => featuresOfAll args
  | _ => []

/-- The names of the features that several expressions refer to. -/
def featuresOfAll : List Expr → List String
  | [] => []
  | item :: rest => features item ++ featuresOfAll rest

end

mutual

/-- The source text of an expression. -/
def write : Expr → String
  | .const value => value.write
  | .feature name => name
  | .list items => "[" ++ commaSeparated (writeAll items) ++ "]"
  | .call function args => function ++ "(" ++ commaSeparated (writeAll args) ++ ")"
  | .custom function source => function ++ "(" ++ source ++ ")"

/-- The source texts of several expressions. -/
def writeAll : List Expr → List String
  | [] => []
  | item :: rest => write item :: writeAll rest

end

/-- Whether an expression is a reference to a feature. -/
def isFeature : Expr → Bool
  | .feature _ => true
  | _ => false

end Expr

/-- The expression of a call site. -/
def CallNode.toExpr (node : CallNode) : Expr :=
  .call node.function node.args

/-- The source text of a call site. -/
def CallNode.write (node : CallNode) : String :=
  node.toExpr.write

end RuleGraph
