import RuleGraph.Compile.State

/-! # Rewriting call sites

Compile-time hooks replace the call sites that name them. A pass goes through an expression from
the inside out and replaces every call site at most once; passes are repeated until one replaces
nothing.

* **`rewriteOnce`** — one pass.
* **`rewrite`** — passes until nothing changes, up to a limit.
-/

namespace RuleGraph

/-- The state of one pass: that of the compilation, and the last hook that replaced something. -/
structure Pass where
  /-- The state of the compilation. -/
  state : CompileState
  /-- The name of the last hook, as its call site writes it. -/
  applied : Option String := none
  deriving DecidableEq

/-- Steps of a pass. -/
abbrev PassM := StateT Pass (Except CompileError)

/-- Replace a call site whose arguments have been through the pass. -/
def rewriteCall (scope : Scope) (node : CallNode) : PassM Expr := fun pass =>
  match scope.lookup node.function with
  -- Names that stand for nothing are found out when the expression is lowered.
  | .error _ => .ok (node.toExpr, pass)
  | .ok entry =>
    match entry.kind with
    | .transform hook =>
      match hook node with
      | .ok replaced => .ok (replaced, { pass with applied := some node.function })
      | .error error => .error error
    | _ => .ok (node.toExpr, pass)

/-- Replace a call site with raw text. -/
def rewriteCustom (scope : Scope) (node : CustomNode) : PassM Expr := fun pass =>
  match scope.lookup node.function with
  | .error error => .error error
  | .ok entry =>
    match entry.kind with
    | .custom hook =>
      match (hook node).run scope pass.state with
      | .ok (replaced, state) => .ok (replaced, ⟨state, some node.function⟩)
      | .error error => .error error
    | _ => .error (.notCustom node.function)

mutual

/-- One pass over an expression, from the inside out. What a hook returns is left for the next
pass. -/
def rewriteOnce (scope : Scope) : Expr → PassM Expr
  | .const value => pure (.const value)
  | .feature name => pure (.feature name)
  | .list items => do return .list (← rewriteAll scope items)
  | .call function args => do
    let args ← rewriteAll scope args
    rewriteCall scope ⟨function, args⟩
  | .custom function source => rewriteCustom scope ⟨function, source⟩

/-- One pass over several expressions, from the first to the last. -/
def rewriteAll (scope : Scope) : List Expr → PassM (List Expr)
  | [] => pure []
  | item :: rest => do
    let item ← rewriteOnce scope item
    return item :: (← rewriteAll scope rest)

end

/-- At most so many passes, until one replaces nothing. `last` is the hook that the pass before
ended with. -/
def rewritePasses (scope : Scope) (limit : Nat) :
    Nat → Option String → Expr → CompileState → Except CompileError (Expr × CompileState)
  | 0, last, _, _ => .error (.rewriteLimit (last.getD "") limit)
  | passes + 1, _, body, state =>
    match rewriteOnce scope body { state } with
    | .error error => .error error
    | .ok (body, ⟨state, none⟩) => .ok (body, state)
    | .ok (body, ⟨state, some name⟩) => rewritePasses scope limit passes (some name) body state

/-- Rewrite an expression until nothing changes. Up to `limit` passes may replace something. -/
def rewrite (scope : Scope) (limit : Nat) (body : Expr) (state : CompileState) :
    Except CompileError (Expr × CompileState) :=
  rewritePasses scope limit (limit + 1) none body state

end RuleGraph
