import RuleGraph.Error
import RuleGraph.Expr

/-! # Argument shapes

What a function declares about its arguments: how many it takes, and which of them must be literal
values or feature references.

* **`ArgShape`** — required arguments, optional ones, and any number of further ones.
* **`ArgShape.countMismatch?`** — why a number of arguments does not fit.
* **`ArgShape.check`** — whether the arguments of a call site fit.
-/

namespace RuleGraph

/-- What an argument must be. -/
inductive ArgType where
  /-- Any expression. -/
  | any
  /-- A literal value or a list of them. -/
  | constant
  /-- A reference to a feature. -/
  | feature
  deriving DecidableEq, Inhabited

namespace ArgType

/-- The name of a type of argument. -/
def name : ArgType → String
  | any => "any"
  | constant => "constant"
  | feature => "feature"

/-- The type of argument with a name. -/
def ofName? (text : String) : Option ArgType :=
  [any, constant, feature].find? fun type => type.name = text

/-- Whether an expression is what an argument must be. -/
def admits : ArgType → Expr → Bool
  | any, _ => true
  | constant, arg => arg.isConstant
  | feature, arg => arg.isFeature

end ArgType

/-- The declared arguments of a function. -/
structure ArgShape where
  /-- The arguments that must be given. -/
  required : List ArgType := []
  /-- The arguments that may follow. -/
  optional : List ArgType := []
  /-- What any number of further arguments must be; none are taken without it. -/
  variadic : Option ArgType := none
  deriving DecidableEq, Inhabited

namespace ArgShape

/-- The text of a shape: optional arguments in brackets, further ones with an ellipsis. -/
def write (shape : ArgShape) : String :=
  let further := shape.variadic.toList.map fun type => type.name ++ "..."
  commaSeparated (shape.required.map ArgType.name
    ++ shape.optional.map (fun type => "[" ++ type.name ++ "]") ++ further)

/-- Why a number of arguments does not fit a shape, if it does not. -/
def countMismatch? (shape : ArgShape) (count : Nat) : Option String :=
  let least := shape.required.length
  let most := least + shape.optional.length
  let got := " arguments, got " ++ Numeral.natText count
  if count < least then some ("expected at least " ++ Numeral.natText least ++ got)
  else if shape.variadic.isNone && most < count then
    some ("expected at most " ++ Numeral.natText most ++ got)
  else none

/-- The types of a number of arguments, in order. -/
def typesFor (shape : ArgShape) (count : Nat) : List ArgType :=
  let named := shape.required ++ shape.optional
  named ++ List.replicate (count - named.length) (shape.variadic.getD .any)

/-- Why arguments do not have their types, counted from a position. -/
def typeMismatch? : Nat → List (Expr × ArgType) → Option String
  | _, [] => none
  | position, (arg, type) :: rest =>
    if type.admits arg then typeMismatch? (position + 1) rest
    else some ("argument " ++ Numeral.natText position ++ " must be a " ++ type.name ++ ", got `"
      ++ arg.write ++ "`")

/-- Why the arguments of a call site do not fit a shape: their number, or the first of the wrong
type. -/
def mismatch? (shape : ArgShape) (args : List Expr) : Option String :=
  (shape.countMismatch? args.length).or
    (typeMismatch? 1 (args.zip (shape.typesFor args.length)))

/-- Check the arguments of a call site of a function. -/
def check (shape : ArgShape) (function : String) (args : List Expr) : Except CompileError Unit :=
  match shape.mismatch? args with
  | some reason => .error (.argumentMismatch function reason)
  | none => .ok ()

end ArgShape

end RuleGraph
