import RuleGraph.Catalog

/-! # The standard library

The functions that every program may use: sums, choices, logic, equality, lists, entities, the
clock, joined texts, and a statement that logs.

* **`StandardLibrary.add`** — sums of numbers.
* **`StandardLibrary.registrations`** — all functions of the library.
* **`Catalog.standard`** — a catalog of just these.
-/

namespace RuleGraph

namespace StandardLibrary

/-- The statement feature of the logging statement. -/
def logStatements : String := "SqrlLogStatements"

/-- An argument by its position from zero. -/
def argument (args : List Value) (position : Nat) : Except FunctionError Value :=
  match args[position]? with
  | some value => .ok value
  | none => .error ⟨"missing argument " ++ Numeral.natText (position + 1)⟩

/-- The failure of a sum over something that is no number. -/
def notANumber (value : Value) : FunctionError :=
  ⟨"add expects numbers, got " ++ value.write⟩

/-- The sum of numbers as floating-point numbers, added from the left. -/
def addFloats (total : Binary64) : List Value → Except FunctionError Value
  | [] => .ok (.float total)
  | .int n :: rest => addFloats (total.add (Binary64.ofInt n.toInt)) rest
  | .float x :: rest => addFloats (total.add x) rest
  | value :: _ => .error (notANumber value)

/-- The sum of integers, added from the left; no partial sum may leave the 64-bit range. -/
def addInts (total : Int64) : List Value → Except FunctionError Value
  | [] => .ok (.int total)
  | .int n :: rest =>
    let sum := total.toInt + n.toInt
    if Int64.minValue.toInt ≤ sum && sum ≤ Int64.maxValue.toInt then
      addInts (Int64.ofInt sum) rest
    else .error ⟨"integer overflow in add"⟩
  | value :: _ => .error (notANumber value)

/-- Whether a value is a floating-point number. -/
def isFloat : Value → Bool
  | .float _ => true
  | _ => false

/-- The sum of numbers: a floating-point number if one of them is, else an integer. -/
def add (args : List Value) : Except FunctionError Value :=
  if args.any isFloat then addFloats (Binary64.zero false) args else addInts 0 args

/-- The second argument if the first one counts as true, else the third one, or null. -/
def choose (args : List Value) : Except FunctionError Value := do
  let condition ← argument args 0
  return (args[if condition.isTruthy then 1 else 2]?).getD .null

/-- Whether an argument counts as false. -/
def negate (args : List Value) : Except FunctionError Value := do
  return .bool !(← argument args 0).isTruthy

/-- Whether all arguments count as true. -/
def conjunction (args : List Value) : Except FunctionError Value :=
  .ok (.bool (args.all Value.isTruthy))

/-- Whether an argument counts as true. -/
def disjunction (args : List Value) : Except FunctionError Value :=
  .ok (.bool (args.any Value.isTruthy))

/-- Whether two arguments compare as equal. -/
def equal (args : List Value) : Except FunctionError Value := do
  let first ← argument args 0
  let second ← argument args 1
  return .bool (first.compare second = some .eq)

/-- The entity of a type and a key. -/
def makeEntity (args : List Value) : Except FunctionError Value := do
  let type ← argument args 0
  let key ← argument args 1
  return .entity ⟨type.plain, key.plain⟩

/-- The texts of values as they stand in messages, joined. -/
def joinPlain (values : List Value) : String :=
  String.join (values.map Value.plain)

/-- Join texts: at once if all arguments are constant, else by a call at run time. -/
def concatHook (node : CallNode) : Except CompileError Expr :=
  match Expr.constants? node.args with
  | some values => .ok (.const (.text (joinPlain values)))
  | none => .ok (.call "_concat" node.args)

/-- Queue the announcement of a message. -/
def logStatement (invocation : Invocation) (args : List Value) : Action Unit :=
  match args with
  | [] => .finish (.error ⟨"log requires a format string"⟩)
  | format :: params =>
    let message := formatMessage format.plain params
    if invocation.hasManipulator then
      let callback : Callback := fun context =>
        .emit (.announced message context.requestId) (.finish (.ok ()))
      .perform (.queue callback) (.finish (.ok ()))
    else .finish (.error ⟨"log requires a manipulator"⟩)

/-- A function of its arguments alone. -/
def plainFunction (body : List Value → Except FunctionError Value) : FunctionKind :=
  .sync fun _ args => ([], body args)

/-- The shape of any number of arguments. -/
def anyNumber : ArgShape := { variadic := some .any }

/-- The functions of the library. -/
def registrations : List Registration :=
  [ ⟨"add", plainFunction add,
      { isPure := true
        args := some { required := [.any], variadic := some .any }
        docText := some "Sum of the arguments; a float if any argument is a float" }⟩,
    ⟨"if", plainFunction choose,
      { isPure := true
        allowNull := true
        allowEntities := true
        args := some { required := [.any, .any], optional := [.any] }
        docText := some "Second argument when the first is truthy, else the third or null" }⟩,
    ⟨"not", plainFunction negate,
      { isPure := true, allowNull := true, args := some { required := [.any] } }⟩,
    ⟨"and", plainFunction conjunction,
      { isPure := true, allowNull := true, args := some anyNumber }⟩,
    ⟨"or", plainFunction disjunction,
      { isPure := true, allowNull := true, args := some anyNumber }⟩,
    ⟨"eq", plainFunction equal,
      { isPure := true, allowNull := true, args := some { required := [.any, .any] } }⟩,
    ⟨"list", plainFunction fun args => .ok (.list args),
      { isPure := true, allowNull := true, allowEntities := true, args := some anyNumber }⟩,
    ⟨"entity", plainFunction makeEntity,
      { isPure := true
        args := some { required := [.constant, .any] }
        docText := some "Wrap a key as a typed entity: entity(\"User\", Name)" }⟩,
    ⟨"now", .sync fun invocation _ => ([], .ok (.int invocation.clock)),
      { args := some {}
        docText := some "Event time in milliseconds since the Unix epoch" }⟩,
    ⟨"_concat", plainFunction fun args => .ok (.text (joinPlain args)),
      { isPure := true, args := some anyNumber }⟩,
    ⟨"concat", .transform concatHook,
      { isPure := true
        args := some anyNumber
        docText := some "Join the arguments as plain strings" }⟩,
    ⟨"log", .statement logStatements logStatement,
      { allowNull := true
        args := some { required := [.constant], variadic := some .any }
        docText := some "Log a message when the execution's effects are applied" }⟩ ]

end StandardLibrary

/-- A catalog of the standard library alone. -/
def Catalog.standard : Catalog :=
  { entries := StandardLibrary.registrations.map (Entry.ofRegistration none) }

end RuleGraph
