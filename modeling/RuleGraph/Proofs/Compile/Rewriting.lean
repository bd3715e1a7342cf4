import RuleGraph.Compile.Rewrite
import Mathlib.Data.List.Forall2

/-! # Rewriting, pass by pass

How a pass goes through an expression, and when it is the last one.

* **`bind_eq_ok_iff`**, **`bind_eq_error_iff`**, **`map_eq_ok_iff`** — steps one after the other.
* **`Expr.induction`** — induction on expressions.
* **`rewriteOnce_call`**, **`rewriteAll_cons`** — a pass, one expression after the other.
* **`Expr.IsIdle`** — a pass leaves an expression as it is.
* **`Expr.isIdle_of_constant?`** — constants hold no call sites.
* **`rewrite_of_isIdle`**, **`rewrite_of_applied`** — rewriting ends with an idle pass.
-/

namespace RuleGraph

/-- Steps one after the other succeed if and only if each of them does. -/
theorem bind_eq_ok_iff {ε α β : Type} {first : Except ε α} {next : α → Except ε β} {b : β} :
    first >>= next = .ok b ↔ ∃ a, first = .ok a ∧ next a = .ok b := by
  cases first with
  | error error =>
    constructor
    · intro h
      cases h
    · rintro ⟨a, same, -⟩
      cases same
  | ok a =>
    constructor
    · exact fun h => ⟨a, rfl, h⟩
    · rintro ⟨a', same, h⟩
      cases same
      exact h

/-- Steps one after the other fail if and only if one of them does. -/
theorem bind_eq_error_iff {ε α β : Type} {first : Except ε α} {next : α → Except ε β} {error : ε} :
    first >>= next = .error error ↔
      first = .error error ∨ ∃ a, first = .ok a ∧ next a = .error error := by
  cases first with
  | error other =>
    show Except.error other = _ ↔ _
    simp
  | ok a =>
    show next a = _ ↔ _
    simp

/-- A step with another value succeeds if and only if the step does. -/
theorem map_eq_ok_iff {ε α β : Type} {step : Except ε α} {f : α → β} {b : β} :
    step.map f = .ok b ↔ ∃ a, step = .ok a ∧ f a = b := by
  cases step with
  | error error =>
    constructor
    · intro h
      cases h
    · rintro ⟨a, same, -⟩
      cases same
  | ok a =>
    constructor
    · intro h
      exact ⟨a, rfl, Except.ok.inj h⟩
    · rintro ⟨a', same, rfl⟩
      cases same
      rfl

/-- Induction on expressions of source, with a hypothesis for every item of a list and every
argument. -/
@[induction_eliminator]
theorem Expr.induction {motive : Expr → Prop}
    (const : ∀ value, motive (.const value))
    (feature : ∀ name, motive (.feature name))
    (list : ∀ items, (∀ item ∈ items, motive item) → motive (.list items))
    (call : ∀ function args, (∀ arg ∈ args, motive arg) → motive (.call function args))
    (custom : ∀ function source, motive (.custom function source))
    (body : Expr) : motive body := by
  -- The recursor has a motive of its own for lists of expressions: that it holds of all of them.
  refine @Expr.rec motive (fun items => ∀ item ∈ items, motive item)
    const feature list call custom ?_ ?_ body
  · intro item none
    cases none
  · intro head tail onHead onTail item member
    rcases List.mem_cons.1 member with rfl | later
    · exact onHead
    · exact onTail item later

/-- Several expressions are constant if each of them is, and their values are those of each. -/
theorem Expr.constants?_eq_some_iff {bodies : List Expr} {values : List Value} :
    constants? bodies = some values ↔
      List.Forall₂ (fun body value => body.constant? = some value) bodies values := by
  induction bodies generalizing values with
  | nil => simp [constants?, eq_comm]
  | cons body rest ih =>
    rw [constants?]
    constructor
    · intro h
      split at h
      · rename_i first later
        cases h
        exact .cons first (ih.1 later)
      · cases h
    · intro h
      cases h with
      | cons first later => simp [first, ih.2 later]

/-! ## A pass -/

section

variable {scope : Scope} {pass : Pass}

/-- A pass goes through a list item by item. -/
theorem rewriteOnce_list (items : List Expr) :
    rewriteOnce scope (.list items) pass =
      (rewriteAll scope items pass).map fun (items, pass) => (.list items, pass) := by
  rw [rewriteOnce]
  show rewriteAll scope items pass >>= _ = _
  cases rewriteAll scope items pass <;> rfl

/-- A pass goes through the arguments of a call, and then replaces the call. -/
theorem rewriteOnce_call (function : String) (args : List Expr) :
    rewriteOnce scope (.call function args) pass =
      (rewriteAll scope args pass).bind fun (args, pass) =>
        rewriteCall scope ⟨function, args⟩ pass :=
  rfl

/-- A pass goes through several expressions one after the other. -/
theorem rewriteAll_cons (body : Expr) (rest : List Expr) :
    rewriteAll scope (body :: rest) pass =
      (rewriteOnce scope body pass).bind fun (body, pass) =>
        (rewriteAll scope rest pass).map fun (rest, pass) => (body :: rest, pass) := by
  rw [rewriteAll]
  show rewriteOnce scope body pass >>= _ = _
  cases rewriteOnce scope body pass with
  | error => rfl
  | ok first =>
    show rewriteAll scope rest first.2 >>= _ = Except.map _ (rewriteAll scope rest first.2)
    cases rewriteAll scope rest first.2 <;> rfl

end

/-! ## Idle passes -/

namespace Expr

/-- A pass leaves an expression as it is, and applies no hook to it. -/
def IsIdle (scope : Scope) (body : Expr) : Prop :=
  ∀ pass : Pass, rewriteOnce scope body pass = .ok (body, pass)

variable {scope : Scope}

/-- A pass leaves several expressions as they are if it does so with each of them. -/
theorem rewriteAll_of_isIdle {bodies : List Expr} (idle : ∀ body ∈ bodies, body.IsIdle scope)
    (pass : Pass) : rewriteAll scope bodies pass = .ok (bodies, pass) := by
  induction bodies with
  | nil => rw [rewriteAll]; rfl
  | cons body rest ih =>
    have first := idle body List.mem_cons_self pass
    have later := ih fun other member => idle other (List.mem_cons_of_mem _ member)
    rw [rewriteAll_cons, first]
    show (rewriteAll scope rest pass).map _ = _
    rw [later]
    rfl

/-- A feature is no call site. -/
theorem isIdle_feature (name : String) : (feature name).IsIdle scope :=
  fun _ => rfl

/-- A literal value is no call site. -/
theorem isIdle_const (value : Value) : (const value).IsIdle scope :=
  fun _ => rfl

/-- A list is idle if its items are. -/
theorem isIdle_list {items : List Expr} (idle : ∀ item ∈ items, item.IsIdle scope) :
    (list items).IsIdle scope := by
  intro pass
  rw [rewriteOnce_list, rewriteAll_of_isIdle idle]
  rfl

/-- Constants hold no call sites. -/
theorem isIdle_of_constant? {body : Expr} {value : Value} (constant : body.constant? = some value) :
    body.IsIdle scope := by
  induction body generalizing value with
  | const => exact isIdle_const _
  | list items ih =>
    obtain ⟨values, all, -⟩ := Option.map_eq_some_iff.1 constant
    apply isIdle_list
    intro item member
    have each := constants?_eq_some_iff.1 all
    obtain ⟨place, bound, rfl⟩ := List.getElem_of_mem member
    exact ih _ member (each.get bound (each.length_eq ▸ bound))
  | feature | call | custom => cases constant

end Expr

/-! ## The last pass -/

variable {scope : Scope} {limit : Nat} {body body' : Expr} {state state' : CompileState}

/-- Rewriting is done after one pass if that is idle. -/
theorem rewritePasses_of_isIdle (idle : body.IsIdle scope) (passes : Nat) (last : Option String) :
    rewritePasses scope limit (passes + 1) last body state = .ok (body, state) := by
  rw [rewritePasses, idle]

/-- An idle expression stays as it is. -/
theorem rewrite_of_isIdle (idle : body.IsIdle scope) :
    rewrite scope limit body state = .ok (body, state) :=
  rewritePasses_of_isIdle idle limit none

/-- Rewriting is done after two passes if the first one applies a hook and the second one is
idle. -/
theorem rewrite_of_applied {name : String}
    (applied : rewriteOnce scope body { state } = .ok (body', ⟨state', some name⟩))
    (idle : body'.IsIdle scope) :
    rewrite scope (limit + 1) body state = .ok (body', state') := by
  rw [rewrite, rewritePasses, applied]
  exact rewritePasses_of_isIdle idle limit (some name)

end RuleGraph
