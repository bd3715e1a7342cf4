import RuleGraph.Proofs.Compile.Rewriting

/-! # Where rewriting ends

Rewriting ends in an expression in which no hook has anything left to replace, or with the error of
a pass that fails, or at its limit, after one pass more than the limit allows to replace something.

* **`Expr.IsRewritten`** — no call site for a hook is left, at any depth.
* **`idle_iff_isRewritten`** — a pass applies no hook if and only if there is none left to apply.
* **`Rewrites`** — passes that replace something, one after the other.
* **`rewrite_eq_ok_iff`**, **`rewrite_eq_error_iff`** — what rewriting comes to, in terms of its
  passes.
-/

namespace RuleGraph

variable {scope : Scope}

/-! ## Call sites for hooks -/

/-- An expression occurs in another one: it is the whole, or it occurs in an item or an argument. -/
inductive Expr.Occurs (part : Expr) : Expr → Prop where
  /-- The whole. -/
  | whole : Occurs part part
  /-- In an item of a list. -/
  | item {items item} (member : item ∈ items) (inside : Occurs part item) :
    Occurs part (.list items)
  /-- In an argument of a call. -/
  | arg {function args arg} (member : arg ∈ args) (inside : Occurs part arg) :
    Occurs part (.call function args)

/-- A name stands for a hook that replaces ordinary calls. -/
def Scope.Transforms (scope : Scope) (function : String) : Prop :=
  ∃ entry hook, scope.lookup function = .ok entry ∧ entry.kind = .transform hook

namespace Expr

/-- No call site for a hook is left in an expression, at any depth: no call with raw text, and no
call of a name that stands for a hook. -/
def IsRewritten (scope : Scope) (body : Expr) : Prop :=
  ∀ part : Expr, part.Occurs body →
    (∀ function source, part ≠ .custom function source) ∧
    ∀ function args, part = .call function args → ¬scope.Transforms function

/-- A literal value is no call site. -/
theorem isRewritten_const (value : Value) : (const value).IsRewritten scope := by
  rintro part ⟨⟩
  simp

/-- A feature is no call site. -/
theorem isRewritten_feature (name : String) : (feature name).IsRewritten scope := by
  rintro part ⟨⟩
  simp

/-- In a list no call site is left if and only if none is left in its items. -/
theorem isRewritten_list_iff {items : List Expr} :
    (list items).IsRewritten scope ↔ ∀ item ∈ items, item.IsRewritten scope := by
  constructor
  · exact fun rewritten item member part inside => rewritten part (.item member inside)
  · rintro all part inside
    cases inside with
    | whole => simp
    | item member inside => exact all _ member part inside

/-- In a call no call site is left if and only if it names no hook and none is left in its
arguments. -/
theorem isRewritten_call_iff {function : String} {args : List Expr} :
    (call function args).IsRewritten scope ↔
      ¬scope.Transforms function ∧ ∀ arg ∈ args, arg.IsRewritten scope := by
  constructor
  · intro rewritten
    exact ⟨(rewritten _ .whole).2 function args rfl,
      fun arg member part inside => rewritten part (.arg member inside)⟩
  · rintro ⟨kept, all⟩ part inside
    cases inside with
    | whole =>
      refine ⟨fun _ _ same => (nomatch same), fun _ _ same => ?_⟩
      cases same
      exact kept
    | arg member inside => exact all _ member part inside

/-- A call with raw text is a call site. -/
theorem not_isRewritten_custom (function source : String) :
    ¬(custom function source).IsRewritten scope :=
  fun rewritten => (rewritten _ .whole).1 function source rfl

end Expr

/-! ## Idle passes -/

/-- A call whose name stands for no hook stays. -/
theorem rewriteCall_of_not_transforms {node : CallNode} (kept : ¬scope.Transforms node.function)
    (pass : Pass) : rewriteCall scope node pass = .ok (node.toExpr, pass) := by
  unfold rewriteCall
  cases found : scope.lookup node.function with
  | error => rfl
  | ok entry =>
    dsimp only
    split
    · rename_i hook kind
      exact absurd ⟨entry, hook, found, kind⟩ kept
    · rfl

/-- A call that is gone through without a hook being applied stays, and its name stands for no
hook. -/
theorem of_rewriteCall {node : CallNode} {pass pass' : Pass} {body : Expr}
    (run : rewriteCall scope node pass = .ok (body, pass')) (idle : pass'.applied = none) :
    body = node.toExpr ∧ pass' = pass ∧ ¬scope.Transforms node.function := by
  by_cases hooked : scope.Transforms node.function
  · obtain ⟨entry, hook, found, kind⟩ := hooked
    unfold rewriteCall at run
    rw [found] at run
    dsimp only at run
    rw [kind] at run
    dsimp only at run
    split at run
    · cases run
      cases idle
    · cases run
  · rw [rewriteCall_of_not_transforms hooked] at run
    cases run
    exact ⟨rfl, rfl, hooked⟩

/-- A call with raw text is replaced, or the pass fails. -/
theorem applied_of_rewriteCustom {node : CustomNode} {pass pass' : Pass} {body : Expr}
    (run : rewriteCustom scope node pass = .ok (body, pass')) :
    pass'.applied = some node.function := by
  unfold rewriteCustom at run
  split at run
  · cases run
  · split at run
    · split at run
      · cases run
        rfl
      · cases run
    · cases run

namespace Expr

/-- Where no call site is left, a pass is idle. -/
theorem IsRewritten.isIdle {body : Expr} (rewritten : body.IsRewritten scope) :
    body.IsIdle scope := by
  induction body with
  | const value => exact isIdle_const value
  | feature name => exact isIdle_feature name
  | list items ih =>
    have all := isRewritten_list_iff.1 rewritten
    exact isIdle_list fun item member => ih item member (all item member)
  | call function args ih =>
    obtain ⟨kept, all⟩ := isRewritten_call_iff.1 rewritten
    intro pass
    rw [rewriteOnce_call, rewriteAll_of_isIdle fun arg member => ih arg member (all arg member)]
    exact rewriteCall_of_not_transforms kept pass
  | custom function source => exact absurd rewritten (not_isRewritten_custom function source)

/-- What a pass says of an expression that it goes through without applying a hook. -/
def IsSettledBy (scope : Scope) (body : Expr) : Prop :=
  ∀ {pass pass' : Pass} {body' : Expr}, rewriteOnce scope body pass = .ok (body', pass') →
    pass'.applied = none → body' = body ∧ pass' = pass ∧ body.IsRewritten scope

/-- A pass that goes through several expressions without applying a hook leaves them as they are,
and no call site is left in any of them. -/
theorem of_rewriteAll {bodies bodies' : List Expr} {pass pass' : Pass}
    (each : ∀ body ∈ bodies, body.IsSettledBy scope)
    (run : rewriteAll scope bodies pass = .ok (bodies', pass')) (idle : pass'.applied = none) :
    bodies' = bodies ∧ pass' = pass ∧ ∀ body ∈ bodies, body.IsRewritten scope := by
  induction bodies generalizing bodies' pass with
  | nil =>
    rw [rewriteAll] at run
    cases run
    exact ⟨rfl, rfl, by simp⟩
  | cons body rest ih =>
    obtain ⟨onBody, onRest⟩ := List.forall_mem_cons.1 each
    rw [rewriteAll_cons] at run
    obtain ⟨⟨body', between⟩, first, run⟩ := bind_eq_ok_iff.1 run
    obtain ⟨⟨rest', after⟩, later, same⟩ := map_eq_ok_iff.1 run
    cases same
    -- The pass is idle on what comes later, so that nothing has been applied before that either.
    obtain ⟨rfl, rfl, all⟩ := ih onRest later
    obtain ⟨rfl, rfl, rewritten⟩ := onBody first idle
    exact ⟨rfl, rfl, List.forall_mem_cons.2 ⟨rewritten, all⟩⟩

/-- **A pass that applies no hook finds no call site for one, and changes nothing.** -/
theorem isSettledBy (body : Expr) : body.IsSettledBy scope := by
  induction body with
  | const value =>
    intro pass pass' body' run idle
    cases (isIdle_const value pass).symm.trans run
    exact ⟨rfl, rfl, isRewritten_const value⟩
  | feature name =>
    intro pass pass' body' run idle
    cases (isIdle_feature name pass).symm.trans run
    exact ⟨rfl, rfl, isRewritten_feature name⟩
  | list items ih =>
    intro pass pass' body' run idle
    rw [rewriteOnce_list] at run
    obtain ⟨⟨items', after⟩, each, same⟩ := map_eq_ok_iff.1 run
    cases same
    obtain ⟨rfl, rfl, all⟩ := of_rewriteAll ih each idle
    exact ⟨rfl, rfl, isRewritten_list_iff.2 all⟩
  | call function args ih =>
    intro pass pass' body' run idle
    rw [rewriteOnce_call] at run
    obtain ⟨⟨args', between⟩, each, own⟩ := bind_eq_ok_iff.1 run
    obtain ⟨rfl, rfl, kept⟩ := of_rewriteCall own idle
    obtain ⟨rfl, rfl, all⟩ := of_rewriteAll ih each idle
    exact ⟨rfl, rfl, isRewritten_call_iff.2 ⟨kept, all⟩⟩
  | custom function source =>
    intro pass pass' body' run idle
    rw [rewriteOnce] at run
    rw [applied_of_rewriteCustom run] at idle
    cases idle

end Expr

variable {limit : Nat} {body body' : Expr} {state state' : CompileState}

/-- **A pass applies no hook if and only if no call site is left**; it then changes neither the
expression nor the state. -/
theorem idle_iff_isRewritten :
    rewriteOnce scope body { state } = .ok (body', ⟨state', none⟩) ↔
      body' = body ∧ state' = state ∧ body.IsRewritten scope := by
  constructor
  · intro run
    obtain ⟨rfl, same, rewritten⟩ := body.isSettledBy run rfl
    cases same
    exact ⟨rfl, rfl, rewritten⟩
  · rintro ⟨rfl, rfl, rewritten⟩
    exact rewritten.isIdle _

/-! ## Passes -/

/-- Passes one after the other, each of which applies a hook: the last hooks that they apply, and
the expressions and states before and after them. -/
inductive Rewrites (scope : Scope) :
    List String → Expr × CompileState → Expr × CompileState → Prop where
  /-- No pass. -/
  | nil {here} : Rewrites scope [] here here
  /-- A pass that applies a hook, and the passes after it. -/
  | cons {name names body body' state state' last}
    (first : rewriteOnce scope body { state } = .ok (body', ⟨state', some name⟩))
    (later : Rewrites scope names (body', state') last) :
    Rewrites scope (name :: names) (body, state) last

/-- A pass fails after passes that apply hooks, all of them within the limit. -/
def FailsWithin (scope : Scope) (limit : Nat) (body : Expr) (state : CompileState)
    (error : CompileError) : Prop :=
  ∃ names body' state', names.length ≤ limit ∧ Rewrites scope names (body, state) (body', state') ∧
    rewriteOnce scope body' { state := state' } = .error error

/-- So many passes end well if and only if passes that apply hooks come to an expression without
call sites, and one is left for the idle pass. -/
theorem rewritePasses_eq_ok_iff {passes : Nat} {last : Option String} :
    rewritePasses scope limit passes last body state = .ok (body', state') ↔
      ∃ names, names.length < passes ∧ Rewrites scope names (body, state) (body', state') ∧
        body'.IsRewritten scope := by
  induction passes generalizing last body state with
  | zero => simp [rewritePasses]
  | succ passes ih =>
    rw [rewritePasses]
    constructor
    · intro run
      split at run
      · cases run
      · rename_i idle
        cases run
        obtain ⟨rfl, rfl, rewritten⟩ := idle_iff_isRewritten.1 idle
        exact ⟨[], Nat.succ_pos _, .nil, rewritten⟩
      · rename_i first
        obtain ⟨names, few, later, rewritten⟩ := ih.1 run
        exact ⟨_ :: names, Nat.succ_lt_succ few, .cons first later, rewritten⟩
    · rintro ⟨names, few, all, rewritten⟩
      cases all with
      | nil => rw [idle_iff_isRewritten.2 ⟨rfl, rfl, rewritten⟩]
      | cons first later =>
        rw [first]
        exact ih.2 ⟨_, Nat.lt_of_succ_lt_succ few, later, rewritten⟩

/-- So many passes end badly if and only if all of them apply hooks, or one of them fails after some
that do. -/
theorem rewritePasses_eq_error_iff {passes : Nat} {last : Option String} {error : CompileError} :
    rewritePasses scope limit passes last body state = .error error ↔
      (∃ names after, names.length = passes ∧ Rewrites scope names (body, state) after ∧
        error = .rewriteLimit ((names.getLast?.or last).getD "") limit) ∨
      ∃ names body' state', names.length < passes ∧
        Rewrites scope names (body, state) (body', state') ∧
        rewriteOnce scope body' { state := state' } = .error error := by
  induction passes generalizing last body state with
  | zero =>
    rw [rewritePasses]
    constructor
    · intro same
      cases same
      exact .inl ⟨[], _, rfl, .nil, rfl⟩
    · rintro (⟨names, after, none, all, rfl⟩ | ⟨names, -, -, few, -⟩)
      · cases List.eq_nil_of_length_eq_zero none
        rfl
      · cases few
  | succ passes ih =>
    rw [rewritePasses]
    constructor
    · intro run
      split at run
      · rename_i failed
        cases run
        exact .inr ⟨[], body, state, Nat.succ_pos _, .nil, failed⟩
      · cases run
      · rename_i name first
        rcases ih.1 run with ⟨names, after, whole, later, rfl⟩ | ⟨names, _, _, few, later, failed⟩
        · refine .inl ⟨name :: names, after, congrArg (· + 1) whole, .cons first later, ?_⟩
          rw [List.getLast?_cons]
          cases names.getLast? <;> rfl
        · exact .inr ⟨name :: names, _, _, Nat.succ_lt_succ few, .cons first later, failed⟩
    · rintro (⟨names, after, whole, all, rfl⟩ | ⟨names, _, _, few, all, failed⟩)
      · cases all with
        | nil => cases whole
        | @cons name names _ _ _ _ _ first later =>
          rw [first]
          refine ih.2 (.inl ⟨names, after, Nat.succ.inj whole, later, ?_⟩)
          rw [List.getLast?_cons]
          cases names.getLast? <;> rfl
      · cases all with
        | nil => rw [failed]
        | cons first later =>
          rw [first]
          exact ih.2 (.inr ⟨_, _, _, Nat.lt_of_succ_lt_succ few, later, failed⟩)

/-- **Rewriting succeeds if and only if at most `limit` passes that apply hooks come to an
expression without call sites for hooks.** -/
theorem rewrite_eq_ok_iff :
    rewrite scope limit body state = .ok (body', state') ↔
      ∃ names, names.length ≤ limit ∧ Rewrites scope names (body, state) (body', state') ∧
        body'.IsRewritten scope := by
  rw [rewrite, rewritePasses_eq_ok_iff]
  simp only [Nat.lt_succ_iff]

/-- **Rewriting fails if and only if each of the first `limit + 1` passes applies a hook, or one of
them fails.** In the first case the error names the last hook. -/
theorem rewrite_eq_error_iff {error : CompileError} :
    rewrite scope limit body state = .error error ↔
      (∃ names after, names.length = limit + 1 ∧ Rewrites scope names (body, state) after ∧
        error = .rewriteLimit (names.getLast?.getD "") limit) ∨
      FailsWithin scope limit body state error := by
  rw [rewrite, rewritePasses_eq_error_iff]
  simp only [Nat.lt_succ_iff, Option.or_none, FailsWithin]

/-- Passes go one way only: where some apply hooks, fewer of them do not end in a failure. -/
theorem Rewrites.not_failed {names names' : List String} {here after : Expr × CompileState}
    {error : CompileError} (all : Rewrites scope names here after)
    (some : Rewrites scope names' here (body', state')) (fewer : names'.length < names.length) :
    rewriteOnce scope body' { state := state' } ≠ .error error := by
  induction all generalizing names' with
  | nil => cases fewer
  | cons first later ih =>
    cases some with
    | nil =>
      rw [first]
      simp
    | cons first' later' =>
      cases first.symm.trans first'
      exact ih later' (Nat.lt_of_succ_lt_succ fewer)

end RuleGraph
