import RuleGraph.Function
import RuleGraph.Json
import RuleGraph.Text.Blank

/-! # The catalog of functions

All registered functions of a host, in packages and outside of them, with a configuration that
functions can read. Registration ends when the catalog is sealed.

* **`Catalog.register`** — add a function.
* **`Scope.lookup`** — the function that a name at a call site stands for.
* **`Catalog.summaries`** — the public functions in order of their names.
* **`View`** — a package's view of the catalog, which reads the configuration once.
-/

namespace RuleGraph

/-- The first character of names that are not listed. -/
def hiddenMark : Char := '_'

/-- All registered functions of a host. -/
structure Catalog where
  /-- The functions in order of registration; no two have the same name and package. -/
  entries : List Entry := []
  /-- The configuration that functions can read. -/
  config : Dictionary Json := []
  /-- Whether registration has ended. -/
  isSealed : Bool := false
  deriving Inhabited

/-- What is listed about a function. -/
structure FunctionSummary where
  /-- The name within its package. -/
  name : String
  /-- The text that describes the arguments. -/
  argText : String
  /-- The text that describes the function. -/
  docText : String
  /-- The package, if it belongs to one. -/
  package : Option String
  deriving DecidableEq

/-- The order of listings: by name, and under one name the function outside all packages first. -/
def FunctionSummary.precedes (a b : FunctionSummary) : Bool :=
  a.name < b.name ||
    (a.name = b.name &&
      match a.package, b.package with
      | none, _ => true
      | some _, none => false
      | some p, some q => p ≤ q)

namespace Catalog

/-- End registration. -/
def endRegistration (catalog : Catalog) : Catalog :=
  { catalog with isSealed := true }

/-- The entry with a name in a package, or outside of all packages. -/
def find? (catalog : Catalog) (package : Option String) (name : String) : Option Entry :=
  catalog.entries.find? fun entry => entry.package = package && entry.name = name

/-- Add a function to a package, or outside of all packages. Names are not blank, and no name is
used twice in a package. -/
def register (catalog : Catalog) (package : Option String) (registration : Registration) :
    Except RegistryError Catalog :=
  let entry := Entry.ofRegistration package registration
  -- A blank name is refused first, then any registration after the end, then a name that is taken.
  if Text.isAllBlank registration.name then
    .error (if entry.isHook then .unnamedHook else .unnamedFunction)
  else if catalog.isSealed then .error (.catalogSealed registration.name)
  else if (catalog.find? package registration.name).isSome then
    .error (.duplicate registration.name package)
  else .ok { catalog with entries := catalog.entries ++ [entry] }

/-- Add functions to a package one after the other until one cannot be added. What was added before
stays. -/
def registerAll (catalog : Catalog) (package : Option String) :
    List Registration → Catalog × Except RegistryError Unit
  | [] => (catalog, .ok ())
  | registration :: rest =>
    match catalog.register package registration with
    | .ok catalog => registerAll catalog package rest
    | .error error => (catalog, .error error)

/-- Set a key of the configuration. -/
def setConfig (catalog : Catalog) (key : String) (value : Json) : Catalog :=
  { catalog with config := Dictionary.insert key value catalog.config }

/-- Overlay the configuration with the members of an object; other values change nothing. -/
def withConfig (catalog : Catalog) (config : Json) : Catalog :=
  match config with
  | .object members => { catalog with config := Dictionary.union catalog.config members }
  | _ => catalog

/-- The configuration that a package sees: its own block, if it has one, overlays the rest. -/
def configFor (catalog : Catalog) (package : Option String) : Dictionary Json :=
  match package >>= Dictionary.find? catalog.config with
  | some (.object overlay) => Dictionary.union catalog.config overlay
  | _ => catalog.config

/-- What is listed about an entry. -/
def summaryOf (entry : Entry) : FunctionSummary :=
  ⟨entry.name, entry.argText, entry.docText, entry.package⟩

/-- Whether an entry is listed. -/
def isListed (entry : Entry) : Bool :=
  entry.name.toList.head? ≠ some hiddenMark

/-- The functions whose names are not hidden, in order of names and packages. -/
def summaries (catalog : Catalog) : List FunctionSummary :=
  ((catalog.entries.filter isListed).map summaryOf).mergeSort FunctionSummary.precedes

end Catalog

/-- What a call site sees: the catalog, from within a package or from outside of all packages. -/
structure Scope where
  /-- The catalog. -/
  catalog : Catalog
  /-- The package whose functions come first. -/
  package : Option String := none
  deriving Inhabited

/-- A name at a call site taken apart at its first point: the package and the rest. -/
def splitName? (name : String) : Option (String × String) :=
  match name.toList.span fun c => c ≠ '.' with
  | (package, _ :: rest) => some (String.ofList package, String.ofList rest)
  | (_, []) => none

namespace Scope

/-- The entry that a name without a point stands for: one of the own package, else one outside of
all packages, else the only one of any package. -/
def lookupBare (scope : Scope) (name : String) : Except CompileError Entry :=
  let own := scope.package.bind fun package => scope.catalog.find? (some package) name
  match own.or (scope.catalog.find? none name) with
  | some entry => .ok entry
  | none =>
    match scope.catalog.entries.filter fun entry => entry.name = name with
    | [] => .error (.unknownFunction name)
    | [entry] => .ok entry
    | entries =>
      let packages := entries.filterMap Entry.package
      .error (.ambiguousFunction name (packages.mergeSort fun a b => a ≤ b))

/-- The entry that a name at a call site stands for. A point selects a package. -/
def lookup (scope : Scope) (name : String) : Except CompileError Entry :=
  match splitName? name with
  | some (package, rest) =>
    match scope.catalog.find? (some package) rest with
    | some entry => .ok entry
    | none => .error (.unknownFunction name)
  | none => scope.lookupBare name

/-- The entry that a name stands for, if there is exactly one. -/
def get? (scope : Scope) (name : String) : Option Entry :=
  match scope.lookup name with
  | .ok entry => some entry
  | .error _ => none

end Scope

/-- A view of a catalog: the package it registers into, and the configuration since it was first
read. -/
structure View where
  /-- The package, if the view belongs to one. -/
  package : Option String := none
  /-- The configuration, once it has been read. -/
  seenConfig : Option (Dictionary Json) := none
  deriving Inhabited

namespace View

/-- The view of a package. Views of packages have no packages of their own. -/
def ofPackage (view : View) (name : String) : Except RegistryError View :=
  match view.package with
  | some package => .error (.alreadyInPackage package)
  | none => .ok { package := some name }

/-- The configuration as the view first saw it, and the view from then on. -/
def config (view : View) (catalog : Catalog) : Dictionary Json × View :=
  match view.seenConfig with
  | some seen => (seen, view)
  | none =>
    let current := catalog.configFor view.package
    (current, { view with seenConfig := some current })

/-- What call sites in the view see. -/
def scope (view : View) (catalog : Catalog) : Scope :=
  ⟨catalog, view.package⟩

/-- Run the registrations of an extension package against a fresh view of the package. -/
def importPackage (view : View) (catalog : Catalog) (name : String)
    (registrations : Option (List Registration)) : Catalog × Except RegistryError Unit :=
  match registrations, view.ofPackage name with
  | none, _ => (catalog, .error (.emptyPackage name))
  | some _, .error error => (catalog, .error error)
  | some registrations, .ok inner => catalog.registerAll inner.package registrations

end View

end RuleGraph
