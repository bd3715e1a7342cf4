import RuleGraph.Proofs.Compile.Definitions
import RuleGraph.Proofs.Compile.FixedPoint

/-! # What lowering never comes to

Lowering has errors for call sites that a hook should have replaced. After rewriting there are none,
so that such an error can only be one of a hook.

* **`CompileError.IsLeftover`** — the errors in question.
* **`Expr.IsRewritten.not_isLeftover_of_lowerValue`** — lowering finds no call site for a hook.
* **`failsWithin_of_compile?`** — where a compilation has such an error, a pass failed with it.
* **`rewrite_settles`** — where rewriting ends, what is lowered after it, and what that means for
  compilations.
-/

namespace RuleGraph

variable {scope : Scope} {limit rounds : Nat} {body : Expr} {state : CompileState}

/-! ## Lowering -/

/-- An error by which lowering says that it has come to a call site for a hook. -/
inductive CompileError.IsLeftover : CompileError → Prop where
  /-- A call whose name stands for a hook. -/
  | call (function : String) : IsLeftover (.hookFailed function "call site was not rewritten")
  /-- A call with raw text. -/
  | custom (function : String) : IsLeftover (.notCustom function)

/-- Looking up a name reports no call sites for hooks. -/
theorem Scope.not_isLeftover_of_lookup {name : String} {error : CompileError}
    (failed : scope.lookup name = .error error) : ¬error.IsLeftover := by
  unfold Scope.lookup Scope.lookupBare at failed
  split at failed
  · split at failed
    · cases failed
    · cases failed
      rintro ⟨⟩
  · dsimp only at failed
    split at failed
    · cases failed
    · split at failed
      · cases failed
        rintro ⟨⟩
      · cases failed
      · cases failed
        rintro ⟨⟩

/-- Checking arguments reports no call sites for hooks. -/
theorem Entry.not_isLeftover_of_checkArgs {entry : Entry} {args : List Expr} {error : CompileError}
    (failed : entry.checkArgs args = .error error) : ¬error.IsLeftover := by
  rcases entry.checkArgs_eq args with ⟨passes, -⟩ | ⟨reason, fails, -⟩
  · rw [passes] at failed
    cases failed
  · rw [fails] at failed
    cases failed
    rintro ⟨⟩

/-- A call whose name stands for no hook is not taken for a call site for one. -/
theorem not_isLeftover_of_resolveValue {function : String} {args : List Expr} {error : CompileError}
    (kept : ¬scope.Transforms function)
    (failed : resolveValue scope function args = .error error) : ¬error.IsLeftover := by
  unfold resolveValue at failed
  split at failed
  · cases failed
    rintro ⟨⟩
  · rcases bind_eq_error_iff.1 failed with missing | ⟨entry, found, failed⟩
    · exact Scope.not_isLeftover_of_lookup missing
    · have onArgs : ∀ {next : Unit → Except CompileError Entry}, (∀ u, next u = .ok entry) →
          entry.checkArgs args >>= next = .error error → ¬error.IsLeftover := by
        intro next passes failed
        rcases bind_eq_error_iff.1 failed with refused | ⟨_, -, failed⟩
        · exact Entry.not_isLeftover_of_checkArgs refused
        · rw [passes] at failed
          cases failed
      split at failed
      · exact onArgs (fun _ => rfl) failed
      · exact onArgs (fun _ => rfl) failed
      · cases failed
        rintro ⟨⟩
      · cases failed
        rintro ⟨⟩
      · rename_i hook kind
        exact absurd ⟨entry, hook, found, kind⟩ kept

/-- Lowering several expressions reports no call sites for hooks if lowering none of them does. -/
theorem not_isLeftover_of_lowerValues {items : List Expr} {error : CompileError}
    (each : ∀ item ∈ items, ∀ error, lowerValue scope item = .error error → ¬error.IsLeftover)
    (failed : lowerValues scope items = .error error) : ¬error.IsLeftover := by
  induction items with
  | nil =>
    rw [lowerValues] at failed
    cases failed
  | cons item rest ih =>
    obtain ⟨onItem, onRest⟩ := List.forall_mem_cons.1 each
    rw [lowerValues] at failed
    rcases bind_eq_error_iff.1 failed with first | ⟨_, -, failed⟩
    · exact onItem _ first
    · rcases bind_eq_error_iff.1 failed with later | ⟨_, -, failed⟩
      · exact ih onRest later
      · cases failed

namespace Expr.IsRewritten

variable {error : CompileError}

/-- **Lowering a value comes to no call site for a hook** once there is none left. -/
theorem not_isLeftover_of_lowerValue (rewritten : body.IsRewritten scope)
    (failed : lowerValue scope body = .error error) : ¬error.IsLeftover := by
  induction body generalizing error with
  | const | feature =>
    rw [lowerValue] at failed
    cases failed
  | list items ih =>
    have all := isRewritten_list_iff.1 rewritten
    rw [lowerValue] at failed
    rcases bind_eq_error_iff.1 failed with failed | ⟨_, -, failed⟩
    · exact not_isLeftover_of_lowerValues
        (fun item member _ => ih item member (all item member)) failed
    · cases failed
  | call function args ih =>
    obtain ⟨kept, all⟩ := isRewritten_call_iff.1 rewritten
    rw [lowerValue] at failed
    rcases bind_eq_error_iff.1 failed with failed | ⟨_, -, failed⟩
    · exact not_isLeftover_of_resolveValue kept failed
    · rcases bind_eq_error_iff.1 failed with failed | ⟨_, -, failed⟩
      · exact not_isLeftover_of_lowerValues (fun arg member _ => ih arg member (all arg member))
          failed
      · cases failed
  | custom function source => exact absurd rewritten (not_isRewritten_custom function source)

/-- Neither does lowering the definition of a feature. -/
theorem not_isLeftover_of_lowerFeature (rewritten : body.IsRewritten scope) {name : String}
    (failed : lowerFeature scope name body = .error error) : ¬error.IsLeftover := by
  have value : (do return .feature name (← lowerValue scope body) : Except CompileError Slot) =
      .error error → ¬error.IsLeftover := by
    intro failed
    rcases bind_eq_error_iff.1 failed with failed | ⟨_, -, failed⟩
    · exact rewritten.not_isLeftover_of_lowerValue failed
    · cases failed
  unfold lowerFeature at failed
  split at failed
  · split at failed
    · split at failed
      · cases failed
      · cases failed
        rintro ⟨⟩
    · exact value failed
  · exact value failed

/-- Neither does lowering a statement. -/
theorem not_isLeftover_of_lowerStatement (rewritten : body.IsRewritten scope) {groups : Groups}
    {condition : Option SlotExpr}
    (failed : groups.lowerStatement scope condition body = .error error) : ¬error.IsLeftover := by
  unfold Groups.lowerStatement at failed
  split at failed
  · rename_i function args
    obtain ⟨-, all⟩ := isRewritten_call_iff.1 rewritten
    rcases bind_eq_error_iff.1 failed with failed | ⟨entry, -, failed⟩
    · exact Scope.not_isLeftover_of_lookup failed
    · split at failed
      · rcases bind_eq_error_iff.1 failed with failed | ⟨_, -, failed⟩
        · exact Entry.not_isLeftover_of_checkArgs failed
        · rcases bind_eq_error_iff.1 failed with failed | ⟨_, -, failed⟩
          · exact not_isLeftover_of_lowerValues
              (fun arg member _ => (all arg member).not_isLeftover_of_lowerValue) failed
          · cases failed
      · cases failed
        rintro ⟨⟩
  · cases failed
    rintro ⟨⟩

end Expr.IsRewritten

/-! ## Compilations -/

/-- Compilation steps have an error for a call site that was not replaced only where a pass failed
with it. -/
def CompileM.LeavesNone {α : Type} (scope : Scope) (limit : Nat) (steps : CompileM α) : Prop :=
  ∀ state error, steps state = .error error → error.IsLeftover →
    ∃ body state, FailsWithin scope limit body state error

namespace CompileM.LeavesNone

variable {α β : Type}

/-- Steps that end well. -/
theorem pure (a : α) : LeavesNone scope limit (Pure.pure a) := by
  intro state error failed
  cases failed

/-- Steps without a state that have no such error. -/
theorem lift {found : Except CompileError α}
    (none : ∀ error, found = .error error → ¬error.IsLeftover) :
    LeavesNone scope limit (liftM found) := by
  intro state error failed isLeftover
  rcases bind_eq_error_iff.1 failed with failed | ⟨_, -, failed⟩
  · exact absurd isLeftover (none error failed)
  · cases failed

/-- Steps one after the other. -/
theorem bind {first : CompileM α} {next : α → CompileM β} (onFirst : LeavesNone scope limit first)
    (onNext : ∀ a before after, first before = .ok (a, after) → LeavesNone scope limit (next a)) :
    LeavesNone scope limit (first >>= next) := by
  intro state error failed isLeftover
  rcases bind_eq_error_iff.1 failed with failed | ⟨⟨a, between⟩, ran, failed⟩
  · exact onFirst state error failed isLeftover
  · exact onNext a state between ran between error failed isLeftover

/-- Steps for each member of a list. -/
theorem foldlM {step : α → β → CompileM α} (each : ∀ a b, LeavesNone scope limit (step a b))
    (bs : List β) (a : α) : LeavesNone scope limit (bs.foldlM step a) := by
  induction bs generalizing a with
  | nil => exact pure a
  | cons b rest ih =>
    rw [List.foldlM_cons]
    exact (each a b).bind fun a' _ _ _ => ih a'

/-- The limit is no such error, so that rewriting has one only from a pass. -/
theorem rewrite (body : Expr) : LeavesNone scope limit (rewrite scope limit body) := by
  intro state error failed isLeftover
  rcases rewrite_eq_error_iff.1 failed with ⟨names, after, -, -, rfl⟩ | inPass
  · cases isLeftover
  · exact ⟨body, state, inPass⟩

end CompileM.LeavesNone

namespace Lowered

open CompileM

variable (lowered : Lowered)

/-- A feature is rewritten before it is lowered. -/
theorem leavesNone_addFeature (name : String) (body : Expr) :
    LeavesNone scope limit (lowered.addFeature scope limit name body) := by
  refine (LeavesNone.rewrite body).bind fun body' before after ran => ?_
  obtain ⟨-, -, -, rewritten⟩ := rewrite_eq_ok_iff.1 ran
  refine .bind (.lift fun error failed => ?_) fun _ _ _ _ => .pure _
  exact rewritten.not_isLeftover_of_lowerFeature failed

/-- So is a statement. -/
theorem leavesNone_addStatement (condition : Option SlotExpr) (call : Expr) :
    LeavesNone scope limit (lowered.addStatement scope limit condition call) := by
  unfold addStatement
  split
  · refine (LeavesNone.rewrite _).bind fun call' before after ran => ?_
    obtain ⟨-, -, -, rewritten⟩ := rewrite_eq_ok_iff.1 ran
    refine .bind (.lift fun error failed => ?_) fun _ _ _ _ => .pure _
    exact rewritten.not_isLeftover_of_lowerStatement failed
  · intro state error failed
    cases failed
    rintro ⟨⟩

/-- So is the condition of a rule. -/
theorem leavesNone_addDefinition (definition : Definition) :
    LeavesNone scope limit (lowered.addDefinition scope limit definition) := by
  unfold addDefinition
  split
  · exact lowered.leavesNone_addFeature _ _
  · exact .foldlM (fun before call => before.leavesNone_addStatement none call) _ lowered
  · refine (LeavesNone.rewrite _).bind fun condition' before after ran => ?_
    obtain ⟨-, -, -, rewritten⟩ := rewrite_eq_ok_iff.1 ran
    refine .bind (.lift fun error failed => ?_) fun condition _ _ _ => ?_
    · exact rewritten.not_isLeftover_of_lowerValue failed
    · exact .foldlM (fun before call => before.leavesNone_addStatement _ call) _ lowered

/-- And so are the features that hooks have added. -/
theorem leavesNone_addPending (rounds : Nat) :
    LeavesNone scope limit (lowered.addPending scope limit rounds) := by
  have read : ∀ {next : CompileState → CompileM (Option Lowered)},
      (∀ state, LeavesNone scope limit (next state)) → LeavesNone scope limit (get >>= next) :=
    fun each state => each state state
  induction rounds generalizing lowered with
  | zero => exact read fun state => .pure _
  | succ rounds ih =>
    refine read fun state => ?_
    split
    · exact .pure _
    · refine .bind (fun _ _ failed => by cases failed) fun _ _ _ _ => ?_
      refine .bind (.foldlM ?_ _ lowered) fun lowered' _ _ _ => ih lowered'
      exact fun before feature => before.leavesNone_addFeature feature.1 feature.2

end Lowered

/-- Where steps for each member of a list fail, one of them does. -/
theorem exists_of_mapM_eq_error {ε α β : Type} {step : α → Except ε β} {items : List α} {error : ε}
    (failed : items.mapM step = .error error) : ∃ item ∈ items, step item = .error error := by
  induction items with
  | nil => cases failed
  | cons item rest ih =>
    rw [List.mapM_cons] at failed
    rcases bind_eq_error_iff.1 failed with first | ⟨_, -, failed⟩
    · exact ⟨item, List.mem_cons_self, first⟩
    · rcases bind_eq_error_iff.1 failed with later | ⟨_, -, failed⟩
      · obtain ⟨other, member, same⟩ := ih later
        exact ⟨other, List.mem_cons_of_mem _ member, same⟩
      · cases failed

/-- Neither names that are used twice nor names that are missing are call sites for hooks. -/
theorem Graph.not_isLeftover_of_ofSlots {slots : List Slot} {error : CompileError}
    (failed : Graph.ofSlots slots = .error error) : ¬error.IsLeftover := by
  unfold ofSlots at failed
  split at failed
  · cases failed
    rintro ⟨⟩
  · rcases bind_eq_error_iff.1 failed with failed | ⟨_, -, failed⟩
    · obtain ⟨slot, -, failed⟩ := exists_of_mapM_eq_error failed
      obtain ⟨dep, -, failed⟩ := exists_of_mapM_eq_error failed
      split at failed
      · cases failed
      · cases failed
        rintro ⟨⟩
    · cases failed

/-- Neither are cycles. -/
theorem not_isLeftover_of_linkSlots {slots : List Slot} {error : CompileError}
    (failed : linkSlots slots = .error error) : ¬error.IsLeftover := by
  rcases bind_eq_error_iff.1 failed with failed | ⟨graph, -, failed⟩
  · exact Graph.not_isLeftover_of_ofSlots failed
  · split at failed
    · cases failed
      rintro ⟨⟩
    · exact Graph.not_isLeftover_of_ofSlots failed

/-- **Where a compilation ends with an error for a call site that was not replaced, a pass failed
with it**: it is the error of a hook, or that of a call with raw text that no hook takes. -/
theorem failsWithin_of_compile? {program : Program} {error : CompileError}
    (failed : compile? scope limit rounds program = .error error) (isLeftover : error.IsLeftover) :
    ∃ body state, FailsWithin scope limit body state error := by
  rcases bind_eq_error_iff.1 failed with failed | ⟨slots?, -, failed⟩
  · unfold lowerProgram? at failed
    dsimp only at failed
    split at failed
    · rename_i error' ran
      cases failed
      refine CompileM.LeavesNone.bind ?_ (fun lowered _ _ _ => ?_) _ error ran isLeftover
      · exact .foldlM (fun before definition => before.leavesNone_addDefinition definition) _ _
      · exact lowered.leavesNone_addPending rounds
    · cases failed
  · cases slots? with
    | none => cases failed
    | some slots =>
      rcases bind_eq_error_iff.1 failed with failed | ⟨_, -, failed⟩
      · exact absurd isLeftover (not_isLeftover_of_linkSlots failed)
      · cases failed

/-! ## Where rewriting ends -/

/-- **Rewriting reaches a fixed point or reports its limit.** If it succeeds, no call site for a
hook is left in the result: a pass over it changes nothing, rewriting it once more gives it back
under every limit, and lowering it has no error for a call site that was not replaced. It fails with
the error of the limit, and no pass has failed, if and only if each of the first `limit + 1` passes
applies a hook; the error names the last one. It has no other errors but those of its passes. And so
no compilation ends at a call site that was not replaced, unless a pass has failed there. -/
theorem rewrite_settles (scope : Scope) (limit : Nat) (body : Expr) (state : CompileState) :
    (∀ result after, rewrite scope limit body state = .ok (result, after) →
      result.IsRewritten scope ∧
      (∀ pass, rewriteOnce scope result pass = .ok (result, pass)) ∧
      (∀ limit' state', rewrite scope limit' result state' = .ok (result, state')) ∧
      ∀ error : CompileError, error.IsLeftover → lowerValue scope result ≠ .error error ∧
        (∀ name, lowerFeature scope name result ≠ .error error) ∧
        ∀ groups condition, Groups.lowerStatement groups scope condition result ≠ .error error) ∧
    (∀ name, rewrite scope limit body state = .error (.rewriteLimit name limit) ∧
        (∀ error, ¬FailsWithin scope limit body state error) ↔
      ∃ names after, names.length = limit + 1 ∧ Rewrites scope names (body, state) after ∧
        names.getLast? = some name) ∧
    (∀ error, rewrite scope limit body state = .error error ↔
      FailsWithin scope limit body state error ∨
      ∃ names after name, names.length = limit + 1 ∧ Rewrites scope names (body, state) after ∧
        names.getLast? = some name ∧ error = .rewriteLimit name limit) ∧
    ∀ rounds program error, compile? scope limit rounds program = .error error →
      error.IsLeftover → ∃ body state, FailsWithin scope limit body state error := by
  -- With at least one pass there is a last hook.
  have last : ∀ {names : List String}, names.length = limit + 1 →
      names.getLast? = some (names.getLast?.getD "") := by
    intro names whole
    cases same : names.getLast? with
    | none =>
      rw [List.getLast?_eq_none_iff.1 same] at whole
      cases whole
    | some name => rfl
  refine ⟨fun result after ran => ?_, fun name => ⟨?_, ?_⟩, fun error => ?_,
    fun _ _ _ => failsWithin_of_compile?⟩
  · obtain ⟨-, -, -, rewritten⟩ := rewrite_eq_ok_iff.1 ran
    refine ⟨rewritten, rewritten.isIdle, fun _ _ => rewrite_of_isIdle rewritten.isIdle,
      fun error isLeftover => ⟨?_, ?_, ?_⟩⟩
    · exact fun failed => rewritten.not_isLeftover_of_lowerValue failed isLeftover
    · exact fun _ failed => rewritten.not_isLeftover_of_lowerFeature failed isLeftover
    · exact fun _ _ failed => rewritten.not_isLeftover_of_lowerStatement failed isLeftover
  · rintro ⟨failed, none⟩
    rcases rewrite_eq_error_iff.1 failed with ⟨names, after, whole, all, same⟩ | inPass
    · cases same
      exact ⟨names, after, whole, all, last whole⟩
    · exact absurd inPass (none _)
  · rintro ⟨names, after, whole, all, named⟩
    refine ⟨rewrite_eq_error_iff.2 (.inl ⟨names, after, whole, all, by rw [named]; rfl⟩), ?_⟩
    rintro error ⟨fewer, body', state', few, some, failed⟩
    exact all.not_failed some (by omega) failed
  · rw [rewrite_eq_error_iff]
    constructor
    · rintro (⟨names, after, whole, all, rfl⟩ | inPass)
      · exact .inr ⟨names, after, _, whole, all, last whole, rfl⟩
      · exact .inl inPass
    · rintro (inPass | ⟨names, after, name, whole, all, named, rfl⟩)
      · exact .inr inPass
      · exact .inl ⟨names, after, whole, all, by rw [named]; rfl⟩

/-- A hook that leaves the first argument of its call. -/
def Entry.unwrapping : Entry :=
  .ofRegistration none {
    name := "unwrap"
    kind := .transform fun node => .ok (node.args.headD (.const .null)) }

/-- A hook for raw text, which leaves a call for another hook. -/
def Entry.wrapping : Entry :=
  .ofRegistration none {
    name := "wrap"
    kind := .custom fun _ => .finish (.ok (.call "unwrap" [.const (.int 1)])) }

/-- Call sites that see a hook and one that leaves a call for it. -/
def Scope.wrapping : Scope := ⟨{ entries := [.wrapping, .unwrapping] }, none⟩

/-- A call with raw text within a list is replaced in two passes, and one pass is too few. -/
theorem rewrite_settles_of_wrapping :
    rewrite .wrapping 2 (.list [.custom "wrap" "", .feature "A"]) { defined := [] } =
      .ok (.list [.const (.int 1), .feature "A"], { defined := [] }) ∧
    (Expr.list [.const (.int 1), .feature "A"]).IsRewritten .wrapping ∧
    rewrite .wrapping 1 (.list [.custom "wrap" "", .feature "A"]) { defined := [] } =
      .error (.rewriteLimit "unwrap" 1) := by
  have ran : rewrite .wrapping 2 (.list [.custom "wrap" "", .feature "A"]) { defined := [] } =
      .ok (.list [.const (.int 1), .feature "A"], { defined := [] }) := by decide +kernel
  have first : rewriteOnce .wrapping (.list [.custom "wrap" "", .feature "A"])
      { state := { defined := [] } } =
        .ok (.list [.call "unwrap" [.const (.int 1)], .feature "A"],
          ⟨{ defined := [] }, some "wrap"⟩) := by decide +kernel
  have second : rewriteOnce .wrapping (.list [.call "unwrap" [.const (.int 1)], .feature "A"])
      { state := { defined := [] } } =
        .ok (.list [.const (.int 1), .feature "A"], ⟨{ defined := [] }, some "unwrap"⟩) := by
    decide +kernel
  refine ⟨ran, ?_, ?_⟩
  · exact ((rewrite_settles .wrapping 2 _ _).1 _ _ ran).1
  · have twice := Rewrites.cons first (.cons second .nil)
    exact (((rewrite_settles .wrapping 1 _ _).2.1 "unwrap").2 ⟨_, _, rfl, twice, rfl⟩).1

end RuleGraph
