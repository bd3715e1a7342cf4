import RuleGraph.Expr

/-! # Rule programs

A program is a list of definitions: features, and statements that run under a condition or always.

* **`Definition`** — `LET`, `WHEN` and `EXECUTE`.
* **`Program.write`** — the source text of a program.
-/

namespace RuleGraph

/-- A definition of a rule program. -/
inductive Definition where
  /-- The feature `name` is the value of `body`. -/
  | feature (name : String) (body : Expr)
  /-- The calls are statements that run when the condition holds, or always without one. -/
  | rule (condition : Option Expr) (calls : List Expr)
  deriving DecidableEq, Inhabited

/-- A rule program. -/
abbrev Program := List Definition

namespace Definition

/-- The definition of a feature that the host supplies. -/
def input (name : String) : Definition :=
  .feature name (.call "input" [])

/-- The source text of a definition. -/
def write : Definition → String
  | .feature name body => "LET " ++ name ++ " := " ++ body.write ++ ";"
  | .rule (some condition) calls =>
    "WHEN " ++ condition.write ++ " THEN " ++ commaSeparated (Expr.writeAll calls) ++ ";"
  | .rule none calls => "EXECUTE " ++ commaSeparated (Expr.writeAll calls) ++ ";"

/-- The name of the feature that a definition introduces. -/
def featureName? : Definition → Option String
  | .feature name _ => some name
  | .rule _ _ => none

end Definition

/-- The source text of a program, one definition to a line. -/
def Program.write (program : Program) : String :=
  "\n".intercalate (program.map Definition.write)

end RuleGraph
