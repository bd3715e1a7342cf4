import RuleGraph.ArgShape
import RuleGraph.Effect

/-! # Registered functions

What a host registers: functions that compute values, statements, and compile-time hooks.

* **`Action`** — the steps of a function that may suspend and fetch other slots.
* **`Hook`** — the steps of a compile-time hook.
* **`FunctionKind`** — the five kinds of registered functions.
* **`Entry`** — a registered function with its name, package and declarations.
-/

namespace RuleGraph

/-- What a function is told about its invocation. -/
structure Invocation where
  /-- The qualified name of the function. -/
  function : String
  /-- The event time in milliseconds. -/
  clock : Int64
  /-- Whether the execution has a manipulator. -/
  hasManipulator : Bool
  /-- How many times the function has been invoked, this time included. -/
  ordinal : Nat
  deriving DecidableEq

/-- A log record written by a function, which goes under the function's name. -/
def Invocation.log (invocation : Invocation) (level : LogLevel) (format : String)
    (params : List Value) : Effect :=
  .log level [("function", invocation.function)] format params

/-- The steps of a function: it may suspend, fetch slots and have effects, and it ends with a result.
A fetch may be given up while it is pending. What a function does is one thing after the other: it
starts no task that goes on besides it or after its end, and of several fetches at the same time it
waits for all before it does anything else. -/
inductive Action (α : Type) where
  /-- The end. -/
  | finish (result : Except FunctionError α)
  /-- Let others go first, once. -/
  | pause (next : Action α)
  /-- Wait so many milliseconds. -/
  | sleep (milliseconds : Nat) (next : Action α)
  /-- Fetch slots by name, all at the same time. -/
  | fetch (names : List String) (next : List Outcome → Action α)
  /-- Fetch a slot by name for so many milliseconds at most. If there is no outcome by then, the
  fetch is dropped, and so is what has been computed for it. -/
  | fetchWithin (milliseconds : Nat) (name : String) (next : Option Outcome → Action α)
  /-- Have an effect. -/
  | perform (effect : Effect) (next : Action α)

namespace Action

/-- Fetch one slot by name. -/
def fetchOne {α : Type} (name : String) (next : Outcome → Action α) : Action α :=
  .fetch [name] fun outcomes => next (outcomes.head?.getD (.ok .null))

/-- Suspend so many times. -/
def pauses {α : Type} : Nat → Action α → Action α
  | 0, next => next
  | count + 1, next => .pause (pauses count next)

end Action

/-- What kind of function an entry is, without the function itself. -/
inductive Role where
  /-- A function that may suspend. -/
  | async
  /-- A function that completes at once. -/
  | sync
  /-- A statement of a statement feature. -/
  | statement (feature : String)
  /-- A hook for calls with raw text. -/
  | custom
  /-- A hook for ordinary calls. -/
  | transform
  deriving DecidableEq, Inhabited

/-- Everything that can be said about a registered function without running it. -/
structure EntryInfo where
  /-- The name within its package. -/
  name : String
  /-- The package, if it belongs to one. -/
  package : Option String
  /-- What kind of function it is. -/
  role : Role
  /-- Whether it is invoked when an argument is null. -/
  allowNull : Bool
  /-- Whether it receives entities rather than their keys. -/
  allowEntities : Bool
  /-- Whether it is declared free of side effects. -/
  isPure : Bool
  /-- The declared arguments. -/
  args : Option ArgShape
  /-- The text that describes the arguments. -/
  argText : String
  /-- The text that describes the function. -/
  docText : String
  deriving DecidableEq

/-- The name that selects an entry from anywhere: behind its package and a point, if it has one. -/
def qualify (package : Option String) (name : String) : String :=
  match package with
  | some package => package ++ "." ++ name
  | none => name

/-- The qualified name of an entry. -/
def EntryInfo.qualifiedName (info : EntryInfo) : String :=
  qualify info.package info.name

/-- The steps of a compile-time hook: it may take fresh names, define features and look up names
and functions, and ends with an expression. -/
inductive Hook where
  /-- The end. -/
  | finish (result : Except CompileError Expr)
  /-- Take a name that no feature has, beginning with a stem. -/
  | freshName (stem : String) (next : String → Hook)
  /-- Add a feature to the program. -/
  | define (name : String) (body : Expr) (next : Except CompileError Unit → Hook)
  /-- Ask whether the program has a feature of a name. -/
  | isDefined (name : String) (next : Bool → Hook)
  /-- Look up a function. -/
  | lookup (name : String) (next : Except CompileError EntryInfo → Hook)

/-- A registered function. -/
inductive FunctionKind where
  /-- A function that may suspend. -/
  | async (body : Invocation → List Value → Action Value)
  /-- A function that completes at once, with its effects in order. -/
  | sync (body : Invocation → List Value → List Effect × Except FunctionError Value)
  /-- A statement of a statement feature. -/
  | statement (feature : String) (body : Invocation → List Value → Action Unit)
  /-- A hook for calls with raw text. -/
  | custom (hook : CustomNode → Hook)
  /-- A hook for ordinary calls. -/
  | transform (hook : CallNode → Except CompileError Expr)

/-- What kind of function it is. -/
def FunctionKind.role : FunctionKind → Role
  | .async _ => .async
  | .sync _ => .sync
  | .statement feature _ => .statement feature
  | .custom _ => .custom
  | .transform _ => .transform

/-- What is declared about a function when it is registered. -/
structure FunctionOptions where
  /-- Invoke the function even when an argument is null. -/
  allowNull : Bool := false
  /-- Pass entities as they are. -/
  allowEntities : Bool := false
  /-- The function has no side effects. -/
  isPure : Bool := false
  /-- The declared arguments. -/
  args : Option ArgShape := none
  /-- The text that describes the arguments. -/
  argText : Option String := none
  /-- The text that describes the function. -/
  docText : Option String := none
  deriving DecidableEq, Inhabited

/-- A function about to be registered. -/
structure Registration where
  /-- The name. -/
  name : String
  /-- The function. -/
  kind : FunctionKind
  /-- What is declared about it. -/
  options : FunctionOptions := {}

/-- A registered function. -/
structure Entry where
  /-- The name within its package. -/
  name : String
  /-- The package, if it belongs to one. -/
  package : Option String
  /-- The function. -/
  kind : FunctionKind
  /-- Whether it is invoked when an argument is null. -/
  allowNull : Bool
  /-- Whether it receives entities rather than their keys. -/
  allowEntities : Bool
  /-- Whether it is declared free of side effects. -/
  isPure : Bool
  /-- The declared arguments. -/
  args : Option ArgShape
  /-- The text that describes the arguments. -/
  argText : String
  /-- The text that describes the function. -/
  docText : String

namespace Entry

/-- The entry of a registration in a package. The arguments describe themselves unless a text is
given. -/
def ofRegistration (package : Option String) (registration : Registration) : Entry :=
  let options := registration.options
  { name := registration.name
    package
    kind := registration.kind
    allowNull := options.allowNull
    allowEntities := options.allowEntities
    isPure := options.isPure
    args := options.args
    argText := (options.argText.or (options.args.map ArgShape.write)).getD ""
    docText := options.docText.getD "" }

/-- Everything that can be said about an entry without running it. -/
def info (entry : Entry) : EntryInfo :=
  { name := entry.name
    package := entry.package
    role := entry.kind.role
    allowNull := entry.allowNull
    allowEntities := entry.allowEntities
    isPure := entry.isPure
    args := entry.args
    argText := entry.argText
    docText := entry.docText }

/-- The name that selects the entry from anywhere. -/
def qualifiedName (entry : Entry) : String :=
  qualify entry.package entry.name

/-- Whether the entry is a statement. -/
def isStatement (entry : Entry) : Bool :=
  match entry.kind with
  | .statement _ _ => true
  | _ => false

/-- Whether the entry is a compile-time hook. -/
def isHook (entry : Entry) : Bool :=
  match entry.kind with
  | .custom _ | .transform _ => true
  | _ => false

/-- Whether the entry may suspend. -/
def maySuspend (entry : Entry) : Bool :=
  match entry.kind with
  | .async _ | .statement _ _ => true
  | _ => false

/-- Why a number of arguments does not fit the declaration, if it does not. -/
def arityError? (entry : Entry) (count : Nat) : Option FunctionError :=
  (entry.args >>= fun shape => shape.countMismatch? count).map FunctionError.mk

/-- Check the arguments of a call site against the declaration. -/
def checkArgs (entry : Entry) (args : List Expr) : Except CompileError Unit :=
  match entry.args with
  | some shape => shape.check entry.name args
  | none => .ok ()

/-- The arguments as the function receives them; none if a null keeps it from being invoked. -/
def admit? (entry : Entry) (args : List Value) : Option (List Value) :=
  if !entry.allowNull && args.any Value.isNull then none
  else if entry.allowEntities then some args
  else some (args.map Value.unwrap)

end Entry

end RuleGraph
