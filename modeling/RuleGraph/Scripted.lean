import RuleGraph.Catalog
import RuleGraph.Json.Writer
import RuleGraph.Source.Grammar

/-! # Functions described by data

A host need not write its functions as code: the recipes of this module describe simple functions,
statements and compile-time hooks by data, and say what a function so described does.

* **`Recipe`**, **`Plan`** — what a function computes, and how it suspends before that.
* **`CallbackPlan`** — a deferred action.
* **`TransformRecipe`**, **`CustomRecipe`** — compile-time hooks.
* **`FunctionPlan.registration`** — the described function, ready to be registered.
-/

namespace RuleGraph.Scripted

/-- A deferred action: it suspends, emits a message, queues further actions and may fail. Formats
are filled with the arguments of the function that queued it. -/
inductive CallbackPlan where
  /-- All parts of the action in their order. -/
  | mk (pauses : Nat) (sleep : Nat) (emit : Option String) (andThen : List CallbackPlan)
    (failure : Option String)
  deriving Inhabited

/-- Suspend so many times. The steps are found as they are looked for, however many there are. -/
def pausesThen : Nat → Deferred → Deferred
  | 0, next => next
  | count + 1, next => ⟨fun turns => match turns with
    | [] => .pause ()
    | _ :: turns => (pausesThen count next).stepAt turns⟩

/-- Queue actions in order. -/
def queueAll : List Callback → Deferred → Deferred
  | [], next => next
  | callback :: rest, next => .queue callback (queueAll rest next)

mutual

/-- The described action on the arguments of the function that queues it. -/
def CallbackPlan.callback (args : List Value) : CallbackPlan → Callback
  | .mk pauses sleep emit andThen failure => fun context =>
    let ending : Deferred := .finish <| match failure with
      | some format => .error ⟨formatMessage format args⟩
      | none => .ok ()
    let queued := queueAll (callbacks args andThen) ending
    let emitted : Deferred := match emit with
      | some format => .emit (.emitted (formatMessage format args) context) queued
      | none => queued
    pausesThen pauses (if sleep = 0 then emitted else .sleep sleep emitted)

/-- The described actions, in order. -/
def callbacks (args : List Value) : List CallbackPlan → List Callback
  | [] => []
  | plan :: rest => plan.callback args :: callbacks args rest

end

/-- What a described function does with its arguments. -/
inductive Recipe where
  /-- A fixed value. -/
  | const (value : Value)
  /-- The argument at a position, or null. -/
  | arg (position : Nat)
  /-- The list of the arguments. -/
  | args
  /-- Fail with a message. -/
  | fail (format : String)
  /-- How often the function has been invoked. -/
  | calls
  /-- The event time. -/
  | clock
  /-- The function's qualified name. -/
  | name
  /-- Write a log record; the value is the number of arguments. -/
  | log (level : LogLevel) (format : String)
  /-- A key of the configuration as JSON text, or null. -/
  | config (key : String)
  /-- The value of a slot; its error fails the function. -/
  | fetch (slot : String)
  /-- The value of a slot with its entities replaced by their keys. -/
  | fetchValue (slot : String)
  /-- The value of the slot that the first argument names. -/
  | fetchArg
  /-- The value of a slot, or the text of its error. -/
  | tryFetch (slot : String)
  /-- The values of slots, fetched one after the other. -/
  | fetchAll (slots : List String)
  /-- Wait as long as the first argument says, then give the second one or null. -/
  | sleepArg
  /-- Note that the function ran, and on what. -/
  | record
  /-- Queue deferred actions. -/
  | callbacks (plans : List CallbackPlan)
  /-- Report an error. -/
  | logError (format : String) (props : ErrorProps)
  /-- Nothing. -/
  | nothing
  /-- A recipe of an unknown name, which fails. -/
  | unknown (name : String)

/-- A failure with a text. -/
def failure {α : Type} (message : String) : Except FunctionError α := .error ⟨message⟩

/-- The result of a recipe that neither suspends nor fetches, with its effects. Recipes of other
kinds fail under their names. -/
def Recipe.immediate (config : Dictionary Json) (recipe : Recipe) (invocation : Invocation)
    (args : List Value) : List Effect × Except FunctionError Value :=
  match recipe with
  | .const value => ([], .ok value)
  | .arg position => ([], .ok (args[position]?.getD .null))
  | .args => ([], .ok (.list args))
  | .fail format => ([], failure (formatMessage format args))
  | .calls => ([], .ok (.int (Int64.ofNat invocation.ordinal)))
  | .clock => ([], .ok (.int invocation.clock))
  | .name => ([], .ok (.text invocation.function))
  | .log level format =>
    ([invocation.log level format args], .ok (.int (Int64.ofNat args.length)))
  | .config key =>
    ([], .ok (match Dictionary.find? config key with
      | some value => .text value.write
      | none => .null))
  | .unknown label => ([], failure ("no behavior " ++ label))
  | .fetch _ => ([], failure "no behavior fetch")
  | .fetchValue _ => ([], failure "no behavior fetch_value")
  | .fetchArg => ([], failure "no behavior fetch_arg")
  | .tryFetch _ => ([], failure "no behavior try_fetch")
  | .fetchAll _ => ([], failure "no behavior fetch_all")
  | .sleepArg => ([], failure "no behavior sleep_arg")
  | .record => ([], failure "no behavior record")
  | .callbacks _ => ([], failure "no behavior callbacks")
  | .logError _ _ => ([], failure "no behavior log_error")
  | .nothing => ([], failure "no behavior noop")

/-- Have effects in order, then end. -/
def performAll {α : Type} : List Effect → Except FunctionError α → Action α
  | [], result => .finish result
  | effect :: rest, result => .perform effect (performAll rest result)

/-- The value of a fetched slot; its error fails the function. -/
def ofOutcome : Outcome → Except FunctionError Value
  | .ok value => .ok value
  | .error error => failure error.message

/-- Fetch slots one after the other until one fails; `values` are those fetched so far. -/
def fetchInTurn (values : List Value) : List String → Action Value
  | [] => .finish (.ok (.list values))
  | name :: rest => Action.fetchOne name fun outcome =>
    match outcome with
    | .ok value => fetchInTurn (values ++ [value]) rest
    | .error error => .finish (failure error.message)

/-- How long a value asks to wait: a positive integer number of milliseconds, else not at all. -/
def sleepOf : Option Value → Nat
  | some (.int n) => n.toInt.toNat
  | _ => 0

/-- What a described function does once it has suspended. -/
def Recipe.action (config : Dictionary Json) (recipe : Recipe) (invocation : Invocation)
    (args : List Value) : Action Value :=
  match recipe with
  | .fetch slot => Action.fetchOne slot fun outcome => .finish (ofOutcome outcome)
  | .fetchValue slot =>
    Action.fetchOne slot fun outcome => .finish ((ofOutcome outcome).map Value.unwrap)
  | .fetchArg =>
    Action.fetchOne ((args.head?.getD .null).plain) fun outcome => .finish (ofOutcome outcome)
  | .tryFetch slot => Action.fetchOne slot fun outcome =>
    .finish (.ok (match outcome with
      | .ok value => value
      | .error error => .text error.message))
  | .fetchAll slots => fetchInTurn [] slots
  | .sleepArg => .sleep (sleepOf args.head?) (.finish (.ok (args[1]?.getD .null)))
  | recipe =>
    let (effects, result) := recipe.immediate config invocation args
    performAll effects result

/-- What a described statement does once it has suspended. -/
def Recipe.statement (config : Dictionary Json) (recipe : Recipe) (invocation : Invocation)
    (args : List Value) : Action Value :=
  match recipe with
  | .record => .perform (.emit (.recorded invocation.function args)) (.finish (.ok .null))
  | .callbacks plans =>
    performAll ((Scripted.callbacks args plans).map Effect.queue) (.ok .null)
  | .logError format props =>
    .perform (.report (formatMessage format args) props) (.finish (.ok .null))
  | .nothing => .finish (.ok .null)
  | recipe => recipe.action config invocation args

/-- An action that ends without a value. -/
def dropValue : Action Value → Action Unit
  | .finish result => .finish (result.map fun _ => ())
  | .pause next => .pause (dropValue next)
  | .sleep milliseconds next => .sleep milliseconds (dropValue next)
  | .fetch names next => .fetch names fun outcomes => dropValue (next outcomes)
  | .fetchWithin milliseconds name next =>
    .fetchWithin milliseconds name fun outcome => dropValue (next outcome)
  | .perform effect next => .perform effect (dropValue next)

/-- How a described call hook rewrites its call site. -/
inductive TransformRecipe where
  /-- The call site itself. -/
  | identity
  /-- A fixed expression. -/
  | expr (body : Expr)
  /-- The argument at a position. -/
  | arg (position : Nat)
  /-- A call of another function on the same arguments. -/
  | call (function : String)
  /-- A call of a function on the first argument twice. -/
  | dup (function : String)
  /-- The list of the arguments. -/
  | list
  /-- A call with the text of the call site between its parentheses. -/
  | custom (function : String)
  /-- The same call on a constant one smaller, down to a final word. -/
  | countdown
  /-- Fail with a message. -/
  | fail (message : String)
  /-- A recipe of an unknown name, which fails. -/
  | unknown (name : String)

/-- An argument of a call site. -/
def argumentAt (node : CallNode) (position : Nat) : Except CompileError Expr :=
  match node.args[position]? with
  | some arg => .ok arg
  | none => .error (.hookFailed node.function "missing argument")

/-- What a described call hook makes of its call site. -/
def TransformRecipe.rewrite (recipe : TransformRecipe) (node : CallNode) :
    Except CompileError Expr :=
  match recipe with
  | .identity => .ok node.toExpr
  | .expr body => .ok body
  | .arg position => argumentAt node position
  | .call function => .ok (.call function node.args)
  | .dup function => do
    let arg ← argumentAt node 0
    return .call function [arg, arg]
  | .list => .ok (.list node.args)
  | .custom function => .ok (.custom function node.write)
  | .countdown =>
    match node.args with
    | .const (.int n) :: _ =>
      if 0 < n.toInt then .ok (.call node.function [.const (.int (n - 1))])
      else .ok (.const (.text "done"))
    | _ => .ok (.const (.text "done"))
  | .fail message => .error (.hookFailed node.function message)
  | .unknown name => .error (.hookFailed node.function ("no behavior " ++ name))

/-- What a described hook for raw text makes of its call site. -/
inductive CustomRecipe where
  /-- A reference to the feature that the text names. -/
  | feature
  /-- The text as a constant. -/
  | text
  /-- A call of a function on the feature that the text names. -/
  | call (function : String)
  /-- The text read as an expression. -/
  | parse
  /-- A call of a function on a new feature twice; the feature is the text read as an expression. -/
  | define (stem function : String)
  /-- A feature of a given name; the feature is the text read as an expression. -/
  | defineAs (name : String)
  /-- Whether the text names a feature. -/
  | defined
  /-- Whether the text names a function. -/
  | known
  /-- A fixed expression. -/
  | expr (body : Expr)
  /-- Fail with a message. -/
  | fail (message : String)
  /-- A recipe of an unknown name, which fails. -/
  | unknown (name : String)

/-- The text of a call site read as an expression. -/
def parseSource (node : CustomNode) : Except CompileError Expr :=
  match parse ("LET X := " ++ node.source ++ ";") with
  | .ok (.feature _ body :: _) => .ok body
  | .ok _ => .error (.hookFailed node.function "not a definition")
  | .error error => .error (.hookFailed node.function error.message)

/-- Read the text of a call site as an expression and go on with it. -/
def withParsed (node : CustomNode) (next : Expr → Hook) : Hook :=
  match parseSource node with
  | .ok body => next body
  | .error error => .finish (.error error)

/-- Define a feature and end with an expression, unless the name is taken. -/
def defineThen (name : String) (body result : Expr) : Hook :=
  .define name body fun defined =>
    .finish (match defined with
      | .ok _ => .ok result
      | .error error => .error error)

/-- The steps of a described hook for raw text. -/
def CustomRecipe.hook (recipe : CustomRecipe) (node : CustomNode) : Hook :=
  match recipe with
  | .feature => .finish (.ok (.feature node.source))
  | .text => .finish (.ok (.const (.text node.source)))
  | .call function => .finish (.ok (.call function [.feature node.source]))
  | .parse => .finish (parseSource node)
  | .define stem function => .freshName stem fun name =>
    withParsed node fun body =>
      defineThen name body (.call function [.feature name, .feature name])
  | .defineAs name => withParsed node fun body => defineThen name body (.feature name)
  | .defined => .isDefined node.source fun answer => .finish (.ok (.const (.bool answer)))
  | .known => .lookup node.source fun answer => .finish (.ok (.const (.bool answer.isOk)))
  | .expr body => .finish (.ok body)
  | .fail message => .finish (.error (.hookFailed node.function message))
  | .unknown name => .finish (.error (.hookFailed node.function ("no behavior " ++ name)))

/-- What a described function is. -/
inductive Plan where
  /-- A function that completes at once. -/
  | sync (recipe : Recipe)
  /-- A function that suspends so many times and waits before it goes on. -/
  | async (pauses sleep : Nat) (recipe : Recipe)
  /-- A statement that suspends so many times and waits before it goes on. -/
  | statement (feature : String) (pauses sleep : Nat) (recipe : Recipe)
  /-- A hook for raw text. -/
  | custom (recipe : CustomRecipe)
  /-- A hook for ordinary calls. -/
  | transform (recipe : TransformRecipe)

/-- Suspend so many times and wait, then go on. -/
def suspended {α : Type} (pauses sleep : Nat) (next : Action α) : Action α :=
  Action.pauses pauses (if sleep = 0 then next else .sleep sleep next)

/-- A described function with its name, package and declarations. -/
structure FunctionPlan where
  /-- The name. -/
  name : String
  /-- The package it is registered in. -/
  package : Option String := none
  /-- What it is. -/
  plan : Plan
  /-- What is declared about it. -/
  options : FunctionOptions := {}

/-- The function, given the configuration that it can read. -/
def Plan.kind (config : Dictionary Json) : Plan → FunctionKind
  | .sync recipe => .sync (recipe.immediate config)
  | .async pauses sleep recipe => .async fun invocation args =>
    suspended pauses sleep (recipe.action config invocation args)
  | .statement feature pauses sleep recipe => .statement feature fun invocation args =>
    suspended pauses sleep (dropValue (recipe.statement config invocation args))
  | .custom recipe => .custom recipe.hook
  | .transform recipe => .transform recipe.rewrite

/-- The described function, ready to be registered through a view of a catalog. -/
def FunctionPlan.registration (plan : FunctionPlan) (catalog : Catalog) (view : View) :
    Registration :=
  ⟨plan.name, plan.plan.kind (view.config catalog).1, plan.options⟩

end RuleGraph.Scripted
