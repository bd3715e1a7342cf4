import RuleGraph.Value.Text

/-! # Errors

The ways in which setting up functions, compiling a program and running it can fail, each with the
text that describes it.

* **`RegistryError`** — a function could not be registered.
* **`CompileError`** — a program could not be compiled.
* **`FunctionError`** — a registered function failed.
* **`ExecutionError`** — a slot could not be computed.
-/

namespace RuleGraph

/-- Why a function could not be registered. -/
inductive RegistryError where
  /-- The name is taken in its package, or outside all packages. -/
  | duplicate (name : String) (package : Option String)
  /-- A compile-time hook has no name. -/
  | unnamedHook
  /-- A function has no name. -/
  | unnamedFunction
  /-- The view already belongs to a package. -/
  | alreadyInPackage (package : String)
  /-- The package has nothing to register. -/
  | emptyPackage (name : String)
  /-- Registration has ended. -/
  | catalogSealed (name : String)
  deriving DecidableEq

/-- The text of a registration error. -/
def RegistryError.message : RegistryError → String
  | .duplicate name package =>
    let place := match package with
      | some package => " in package '" ++ package ++ "'"
      | none => ""
    "function '" ++ name ++ "' is already registered" ++ place
  | .unnamedHook => "transform has no name; transforms are registered under their declared name"
  | .unnamedFunction => "function has no name"
  | .alreadyInPackage package =>
    "registry is already namespaced to package '" ++ package ++ "'"
  | .emptyPackage name => "package '" ++ name ++ "' does not expose a register entry point"
  | .catalogSealed name =>
    "cannot register '" ++ name ++ "': registry is sealed after compilation"

/-- The text of a cycle: the names along it. -/
def cycleMessage (path : List String) : String :=
  "cyclic dependency detected: " ++ " -> ".intercalate path

/-- Why a program could not be compiled. -/
inductive CompileError where
  /-- A slot depends on a name that no slot has. -/
  | undefinedFeature (slot reference : String)
  /-- Slots depend on each other in a cycle. -/
  | cyclicDependency (path : List String)
  /-- Two slots have the same name. -/
  | duplicateFeature (name : String)
  /-- No function has the name. -/
  | unknownFunction (name : String)
  /-- Several packages have a function of the name. -/
  | ambiguousFunction (name : String) (packages : List String)
  /-- The arguments do not have the declared shape. -/
  | argumentMismatch (function reason : String)
  /-- A statement stands where a value is needed. -/
  | statementAsValue (function : String)
  /-- Something other than a statement stands where a statement is needed. -/
  | notAStatement (function : String)
  /-- The function takes no raw text. -/
  | notCustom (function : String)
  /-- A compile-time hook failed. -/
  | hookFailed (name reason : String)
  /-- Rewriting an expression did not come to an end. -/
  | rewriteLimit (name : String) (limit : Nat)
  /-- A function could not be registered. -/
  | registry (error : RegistryError)
  deriving DecidableEq

/-- The text of a compilation error. -/
def CompileError.message : CompileError → String
  | .undefinedFeature slot reference =>
    "undefined feature reference '" ++ reference ++ "' in '" ++ slot ++ "'"
  | .cyclicDependency path => cycleMessage path
  | .duplicateFeature name => "duplicate feature name '" ++ name ++ "'"
  | .unknownFunction name => "unknown function '" ++ name ++ "'"
  | .ambiguousFunction name packages =>
    "function '" ++ name ++ "' is ambiguous; qualify it with one of: " ++ commaSeparated packages
  | .argumentMismatch function reason =>
    "invalid arguments to '" ++ function ++ "': " ++ reason
  | .statementAsValue function => "statement '" ++ function ++ "' cannot be used as a value"
  | .notAStatement function =>
    "'" ++ function ++ "' is not a statement and cannot be executed in WHEN ... THEN"
  | .notCustom function => "'" ++ function ++ "' does not accept custom syntax"
  | .hookFailed name reason => "transform '" ++ name ++ "' failed: " ++ reason
  | .rewriteLimit name limit =>
    "transform rewriting of '" ++ name ++ "' exceeded " ++ Numeral.natText limit ++ " passes"
  | .registry error => error.message

/-- A failure that a registered function raises itself. -/
structure FunctionError where
  /-- The text of the failure. -/
  message : String
  deriving DecidableEq, Inhabited

/-- Why a slot could not be computed. -/
inductive ExecutionError where
  /-- The computation would wait for itself. -/
  | cyclicDependency (path : List String)
  /-- The time for computing features is over. -/
  | featureTimeout (feature : String) (milliseconds : Nat)
  /-- No slot has the name. -/
  | unknownFeature (name : String)
  /-- No input slot has the name. -/
  | unknownInput (name : String)
  /-- The name is bound to no function that may be called here. -/
  | unknownFunction (name : String)
  /-- Statements need a manipulator. -/
  | missingManipulator (statement : String)
  /-- A registered function failed. -/
  | functionFailed (function : String) (source : FunctionError)
  deriving DecidableEq

/-- The text of an execution error. -/
def ExecutionError.message : ExecutionError → String
  | .cyclicDependency path => cycleMessage path
  | .featureTimeout feature milliseconds =>
    "feature '" ++ feature ++ "' exceeded the feature timeout of "
      ++ Numeral.natText milliseconds ++ "ms"
  | .unknownFeature name => "unknown feature '" ++ name ++ "'"
  | .unknownInput name => "unknown input '" ++ name ++ "'"
  | .unknownFunction name => "function '" ++ name ++ "' is not registered"
  | .missingManipulator statement => "statement '" ++ statement ++ "' requires a manipulator"
  | .functionFailed function source => "'" ++ function ++ "' failed: " ++ source.message

/-- What computing a slot comes to. -/
abbrev Outcome := Except ExecutionError Value

end RuleGraph
