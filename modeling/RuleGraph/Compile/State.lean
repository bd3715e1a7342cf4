import RuleGraph.Catalog

/-! # The state of a compilation

The names that the program defines so far, and the features that compile-time hooks have added to
it and that are still to be compiled.

* **`CompileState.freshName`** — a name that nothing is defined under.
* **`CompileState.define`** — add a feature to the program.
* **`Hook.run`** — run a compile-time hook.
-/

namespace RuleGraph

/-- What a compilation keeps track of. -/
structure CompileState where
  /-- The names that are defined. -/
  defined : List String
  /-- Features that hooks have added and that are not compiled yet, in order. -/
  pending : List (String × Expr) := []
  /-- The number that the next fresh name tries first. -/
  counter : Nat := 0
  deriving DecidableEq

namespace CompileState

/-- Whether a name is defined. -/
def isDefined (state : CompileState) (name : String) : Bool :=
  name ∈ state.defined

/-- A stem with a number behind it. -/
def numbered (stem : String) (number : Nat) : String :=
  stem ++ "#" ++ Numeral.natText number

/-- The first number from a given one whose name is not defined, looking at so many numbers. -/
def freeNumber (state : CompileState) (stem : String) : Nat → Nat → Nat
  | 0, number => number
  | steps + 1, number =>
    if state.isDefined (numbered stem number) then freeNumber state stem steps (number + 1)
    else number

/-- A name that begins with a stem and is not defined. Among one more numbers than there are
defined names, one is free. -/
def freshName (state : CompileState) (stem : String) : String × CompileState :=
  let number := state.freeNumber stem state.defined.length state.counter
  (numbered stem number, { state with counter := number + 1 })

/-- Add a feature to the program, unless its name is taken. -/
def define (state : CompileState) (name : String) (body : Expr) :
    Except CompileError CompileState :=
  if state.isDefined name then .error (.duplicateFeature name)
  else .ok { state with
    defined := name :: state.defined
    pending := state.pending ++ [(name, body)] }

end CompileState

/-- Run a compile-time hook in a scope. -/
def Hook.run (scope : Scope) : Hook → CompileState → Except CompileError (Expr × CompileState)
  | .finish (.ok result), state => .ok (result, state)
  | .finish (.error error), _ => .error error
  | .freshName stem next, state =>
    let (name, state) := state.freshName stem
    run scope (next name) state
  | .define name body next, state =>
    match state.define name body with
    | .ok state => run scope (next (.ok ())) state
    | .error error => run scope (next (.error error)) state
  | .isDefined name next, state => run scope (next (state.isDefined name)) state
  | .lookup name next, state => run scope (next ((scope.lookup name).map Entry.info)) state

end RuleGraph
