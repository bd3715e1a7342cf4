import RuleGraph.Proofs.Compile.Numbering
import RuleGraph.Proofs.Source.Programs

/-! # Programs whose slots can be written

A program is plain if its features have proper names and its constants are literals. Where no hook
brings in anything else, the slots that such a program is lowered to can be written in source.

* **`Expr.IsPlain`**, **`Definition.IsPlain`** — plain expressions and definitions.
* **`Scope.IsTame`** — hooks make plain expressions of plain ones, and change nothing else.
* **`rewrite_isPlain`** — rewriting keeps expressions plain.
* **`Lowers.isWritable`** — what a plain expression is lowered to can be written.
-/

namespace RuleGraph

open Source

/-- An expression of literals and features with proper names. -/
inductive Expr.IsPlain : Expr → Prop where
  /-- A literal. -/
  | const {value : Value} (literal : value.IsLiteral) : IsPlain (.const value)
  /-- A feature. -/
  | feature {name : String} (proper : IsFeatureName name) : IsPlain (.feature name)
  /-- A list. -/
  | list {items : List Expr} (each : ∀ item ∈ items, IsPlain item) : IsPlain (.list items)
  /-- A call, of whatever function. -/
  | call {function : String} {args : List Expr} (each : ∀ arg ∈ args, IsPlain arg) :
    IsPlain (.call function args)
  /-- A call with raw text. -/
  | custom (function source : String) : IsPlain (.custom function source)

/-- A definition of plain expressions. -/
inductive Definition.IsPlain : Definition → Prop where
  /-- A feature. -/
  | feature {name : String} {body : Expr} (named : IsIdentifier name) (plain : body.IsPlain) :
    IsPlain (.feature name body)
  /-- A rule. -/
  | rule {condition : Option Expr} {calls : List Expr} (holds : ∀ body ∈ condition, body.IsPlain)
    (each : ∀ call ∈ calls, call.IsPlain) : IsPlain (.rule condition calls)

/-- Hooks make plain expressions of plain ones, and there are none that change anything else. -/
structure Scope.IsTame (scope : Scope) : Prop where
  /-- A hook replaces a plain call by a plain expression. -/
  transform : ∀ {name entry hook}, scope.lookup name = .ok entry → entry.kind = .transform hook →
    ∀ {node : CallNode} {replaced}, hook node = .ok replaced → (∀ arg ∈ node.args, arg.IsPlain) →
      replaced.IsPlain
  /-- No hook takes raw text. -/
  custom : ∀ {name entry hook}, scope.lookup name = .ok entry → entry.kind ≠ .custom hook

variable {scope : Scope} {limit : Nat}

/-! ## Rewriting -/

/-- A pass keeps expressions plain if it does so with each of them. -/
theorem rewriteAll_isPlain {bodies : List Expr} (each : ∀ body ∈ bodies, ∀ {pass pass' body'},
      rewriteOnce scope body pass = .ok (body', pass') → body'.IsPlain ∧ pass'.state = pass.state)
    {pass pass' : Pass} {bodies' : List Expr}
    (run : rewriteAll scope bodies pass = .ok (bodies', pass')) :
    (∀ body ∈ bodies', body.IsPlain) ∧ pass'.state = pass.state := by
  induction bodies generalizing pass bodies' with
  | nil =>
    rw [rewriteAll] at run
    cases run
    exact ⟨by simp, rfl⟩
  | cons body rest ih =>
    obtain ⟨onBody, onRest⟩ := List.forall_mem_cons.1 each
    rw [rewriteAll_cons] at run
    obtain ⟨⟨body', between⟩, first, run⟩ := bind_eq_ok_iff.1 run
    obtain ⟨reply, later, run⟩ := map_eq_ok_iff.1 run
    cases run
    obtain ⟨plain, same⟩ := onBody first
    obtain ⟨others, same'⟩ := ih onRest later
    exact ⟨List.forall_mem_cons.2 ⟨plain, others⟩, same'.trans same⟩

section

variable (tame : scope.IsTame)
include tame

/-- A hook replaces a plain call by a plain expression, and leaves the state as it is. -/
theorem rewriteCall_isPlain {node : CallNode} (plain : ∀ arg ∈ node.args, arg.IsPlain)
    {pass pass' : Pass} {body : Expr} (run : rewriteCall scope node pass = .ok (body, pass')) :
    body.IsPlain ∧ pass'.state = pass.state := by
  unfold rewriteCall at run
  split at run
  · cases run
    exact ⟨.call plain, rfl⟩
  · rename_i found
    split at run
    · rename_i kind
      split at run
      · rename_i made
        cases run
        exact ⟨tame.transform found kind made plain, rfl⟩
      · cases run
    · cases run
      exact ⟨.call plain, rfl⟩

/-- No call with raw text is replaced. -/
theorem rewriteCustom_ne_ok (node : CustomNode) (pass : Pass) {reply : Expr × Pass} :
    rewriteCustom scope node pass ≠ .ok reply := by
  intro run
  unfold rewriteCustom at run
  split at run
  · cases run
  · rename_i found
    split at run
    · rename_i kind
      exact tame.custom found kind
    · cases run

/-- A pass keeps an expression plain, and leaves the state as it is. -/
theorem rewriteOnce_isPlain {body : Expr} (plain : body.IsPlain) {pass pass' : Pass} {body' : Expr}
    (run : rewriteOnce scope body pass = .ok (body', pass')) :
    body'.IsPlain ∧ pass'.state = pass.state := by
  induction body generalizing pass pass' body' with
  | const | feature =>
    rw [rewriteOnce] at run
    cases run
    exact ⟨plain, rfl⟩
  | list items ih =>
    cases plain with
    | list each =>
      rw [rewriteOnce_list] at run
      obtain ⟨reply, later, run⟩ := map_eq_ok_iff.1 run
      cases run
      obtain ⟨all, same⟩ := rewriteAll_isPlain
        (fun item member => ih item member (each item member)) later
      exact ⟨.list all, same⟩
  | call function args ih =>
    cases plain with
    | call each =>
      rw [rewriteOnce_call] at run
      obtain ⟨⟨args', between⟩, later, run⟩ := bind_eq_ok_iff.1 run
      obtain ⟨all, same⟩ := rewriteAll_isPlain
        (fun arg member => ih arg member (each arg member)) later
      obtain ⟨plain, same'⟩ := rewriteCall_isPlain tame all run
      exact ⟨plain, same'.trans same⟩
  | custom function source =>
    rw [rewriteOnce] at run
    exact absurd run (rewriteCustom_ne_ok tame _ _)

/-- **Rewriting keeps an expression plain**, and leaves the state as it is. -/
theorem rewrite_isPlain {body body' : Expr} (plain : body.IsPlain) {state state' : CompileState}
    (run : rewrite scope limit body state = .ok (body', state')) :
    body'.IsPlain ∧ state' = state := by
  have onPasses : ∀ (passes : Nat) (last : Option String) {body : Expr} {state : CompileState},
      body.IsPlain → rewritePasses scope limit passes last body state = .ok (body', state') →
      body'.IsPlain ∧ state' = state := by
    intro passes
    induction passes with
    | zero =>
      intro last body state plain run
      cases run
    | succ passes ih =>
      intro last body state plain run
      rw [rewritePasses] at run
      split at run
      · cases run
      · rename_i once
        cases run
        exact rewriteOnce_isPlain tame plain once
      · rename_i once
        obtain ⟨plain', same⟩ := rewriteOnce_isPlain tame plain once
        obtain ⟨plain'', same'⟩ := ih _ plain' run
        exact ⟨plain'', same'.trans same⟩
  exact onPasses _ _ plain run

end

/-! ## Lowering -/

/-- Functions have proper names, except that negations have one operand. -/
def Scope.HasProperNames (scope : Scope) : Prop :=
  ∀ {name entry}, scope.lookup name = .ok entry →
    IsName entry.qualifiedName ∨
      entry.qualifiedName = "not" ∧ ∀ args, entry.Accepts args → args.length = 1

/-- A slot whose definition can be written. -/
def Slot.IsWritable (slot : Slot) : Prop :=
  ∀ item ∈ slot.definition?, item.IsWritable

section

variable (proper : scope.HasProperNames)
include proper

/-- A call that is accepted has a name that can be written. -/
theorem isName_or_of_accepts {name : String} {entry : Entry} {args : List Expr}
    {bodies : List SlotExpr} (found : scope.lookup name = .ok entry) (accepts : entry.Accepts args)
    (each : LowersAll scope args bodies) :
    IsName entry.qualifiedName ∨
      entry.qualifiedName = "not" ∧ (SlotExpr.toExprs bodies).length = 1 := by
  refine (proper found).imp_right fun ⟨isNot, single⟩ => ⟨isNot, ?_⟩
  rw [SlotExpr.length_toExprs, ← (lowersAll_iff.1 each).length_eq]
  exact single args accepts

omit proper in
/-- What several plain expressions are lowered to can be written if so it is with each of them. -/
theorem LowersAll.isWritable_of_forall {items : List Expr} {bodies : List SlotExpr}
    (each : LowersAll scope items bodies) (plain : ∀ item ∈ items, item.IsPlain)
    (writable : ∀ item ∈ items, ∀ {body}, Lowers scope item body → item.IsPlain →
      body.toExpr.IsWritable) : ∀ body ∈ SlotExpr.toExprs bodies, body.IsWritable := by
  induction items generalizing bodies with
  | nil =>
    cases each
    simp [SlotExpr.toExprs]
  | cons item rest ih =>
    obtain ⟨first, later⟩ := List.forall_mem_cons.1 plain
    obtain ⟨onItem, onRest⟩ := List.forall_mem_cons.1 writable
    cases each with
    | cons lowers each =>
      exact List.forall_mem_cons.2 ⟨onItem lowers first, ih each later onRest⟩

/-- **What a plain expression is lowered to can be written.** -/
theorem Lowers.isWritable {item : Expr} {body : SlotExpr} (lowers : Lowers scope item body)
    (plain : item.IsPlain) : body.toExpr.IsWritable := by
  induction item generalizing body with
  | const =>
    cases lowers
    cases plain with
    | const literal => exact .const literal
  | feature =>
    cases lowers
    cases plain with
    | feature proper => exact .feature proper
  | list items ih =>
    cases lowers with
    | list each =>
      cases plain with
      | list all => exact .list (each.isWritable_of_forall all ih)
  | call function args ih =>
    cases lowers with
    | call _ found isValue accepts each =>
      cases plain with
      | call all =>
        exact .call (isName_or_of_accepts proper found accepts each)
          (each.isWritable_of_forall all ih)
  | custom => cases lowers

/-- The slot of a plain statement can be written. -/
theorem Slot.IsStatementOf.isWritable (tame : scope.IsTame) {condition : Option SlotExpr}
    {call : Expr} {slot : Slot} (isStatement : slot.IsStatementOf scope limit condition call)
    (holds : ∀ body ∈ condition, body.toExpr.IsWritable) (plain : call.IsPlain) :
    slot.IsWritable := by
  cases isStatement with
  | lowered rewritten found kind accepts each =>
    obtain ⟨plain', -⟩ := rewrite_isPlain tame plain rewritten
    cases plain' with
    | call all =>
      rintro item ⟨⟩
      refine .rule (fun body same => ?_) (List.cons_ne_nil _ _) fun call member => ?_
      · obtain ⟨body', here, rfl⟩ := Option.map_eq_some_iff.1 same
        exact holds body' here
      · rw [List.mem_singleton.1 member]
        exact .call (isName_or_of_accepts proper found accepts each)
          (each.isWritable_of_forall all fun _ _ _ lowers plain => lowers.isWritable proper plain)

/-- **The slots of a plain definition can be written.** -/
theorem Definition.HasSlots.isWritable (tame : scope.IsTame) {definition : Definition}
    {slots : List Slot} (hasSlots : definition.HasSlots scope limit slots)
    (plain : definition.IsPlain) : ∀ slot ∈ slots, slot.IsWritable := by
  have ofStatements : ∀ {condition : Option SlotExpr} {calls : List Expr} {slots : List Slot},
      (∀ body ∈ condition, body.toExpr.IsWritable) → (∀ call ∈ calls, call.IsPlain) →
      List.Forall₂ (Slot.IsStatementOf scope limit condition) calls slots →
      ∀ slot ∈ slots, slot.IsWritable := by
    intro condition calls slots holds plain each slot member
    obtain ⟨place, bound, rfl⟩ := List.getElem_of_mem member
    have bound' : place < calls.length := each.length_eq ▸ bound
    exact (each.get bound' bound).isWritable proper tame holds (plain _ (List.getElem_mem bound'))
  cases hasSlots with
  | feature rewritten lowered =>
    cases plain with
    | feature named plain =>
      obtain ⟨plain', -⟩ := rewrite_isPlain tame plain rewritten
      intro slot member
      rw [List.mem_singleton.1 member]
      rcases lowerFeature_eq_ok lowered with ⟨-, rfl⟩ | ⟨body, lowers, rfl⟩
      · rintro item ⟨⟩
        exact .feature named (.call (.inl ⟨⟨'i', ['n', 'p', 'u', 't'], rfl, by decide, by decide⟩,
          by decide⟩) (by simp))
      · rintro item ⟨⟩
        exact .feature named (lowers.isWritable proper plain')
  | always each =>
    cases plain with
    | rule _ all => exact ofStatements (by simp) all each
  | rule rewritten lowers each =>
    cases plain with
    | rule holds all =>
      obtain ⟨plain', -⟩ := rewrite_isPlain tame (holds _ rfl) rewritten
      refine ofStatements (fun body same => ?_) all each
      cases same
      exact lowers.isWritable proper plain'

end

/-! ## Compiled programs -/

/-- Compilation steps leave the state as it is. -/
def CompileM.Leaves {α : Type} (steps : CompileM α) : Prop :=
  ∀ state value state', steps state = .ok (value, state') → state' = state

namespace CompileM.Leaves

variable {α β : Type}

/-- Nothing is done. -/
theorem pure {a : α} : Leaves (Pure.pure a) := by
  intro state value state' run
  cases run
  rfl

/-- What is found without a state leaves it. -/
theorem lift {found : Except CompileError α} : Leaves (liftM found) := by
  intro state value state' run
  obtain ⟨a, -, last⟩ := RuleGraph.bind_eq_ok_iff.1 run
  cases last
  rfl

/-- Steps one after the other. -/
theorem bind {first : CompileM α} {next : α → CompileM β} (onFirst : Leaves first)
    (onNext : ∀ a, Leaves (next a)) : Leaves (first >>= next) := by
  intro state value state' run
  obtain ⟨a, between, before, after⟩ := CompileM.bind_eq_ok_iff.1 run
  exact (onNext a _ _ _ after).trans (onFirst _ _ _ before)

/-- Steps for each member of a list. -/
theorem foldlM {step : α → β → CompileM α} {bs : List β} {a : α}
    (each : ∀ b ∈ bs, ∀ a, Leaves (step a b)) : Leaves (bs.foldlM step a) := by
  induction bs generalizing a with
  | nil => exact pure
  | cons b rest ih =>
    obtain ⟨onFirst, onRest⟩ := List.forall_mem_cons.1 each
    rw [List.foldlM_cons]
    exact (onFirst a).bind fun _ => ih onRest

end CompileM.Leaves

namespace Lowered

variable {lowered lowered' : Lowered} {state state' : CompileState}

/-- Rewriting a plain expression leaves the state as it is. -/
theorem leaves_rewrite (tame : scope.IsTame) {body : Expr} (plain : body.IsPlain) :
    CompileM.Leaves (rewrite scope limit body) :=
  fun _ _ _ run => (rewrite_isPlain tame plain run).2

/-- Lowering a plain definition leaves the state as it is. -/
theorem leaves_addDefinition (tame : scope.IsTame) {definition : Definition}
    (plain : definition.IsPlain) : (lowered.addDefinition scope limit definition).Leaves := by
  have statements : ∀ {condition : Option SlotExpr} {calls : List Expr} {lowered : Lowered},
      (∀ call ∈ calls, call.IsPlain) →
      CompileM.Leaves (calls.foldlM (addStatement scope limit condition) lowered) := by
    intro condition calls lowered plain
    refine .foldlM fun call member lowered => ?_
    unfold addStatement
    split
    · exact (leaves_rewrite tame (plain _ member)).bind fun _ => .bind .lift fun _ => .pure
    · intro state value state' run
      cases run
  cases plain with
  | feature named plain =>
    exact (leaves_rewrite tame plain).bind fun _ => .bind .lift fun _ => .pure
  | @rule condition calls holds plain =>
    cases condition with
    | none => exact statements plain
    | some condition =>
      exact (leaves_rewrite tame (holds condition rfl)).bind fun _ =>
        .bind .lift fun _ => statements plain

/-- Every slot is that of a definition. -/
theorem exists_definition_of_foldlM {program : Program}
    (run : program.foldlM (addDefinition scope limit) lowered state = .ok (lowered', state')) :
    ∀ slot ∈ lowered'.slots, slot ∈ lowered.slots ∨
      ∃ definition ∈ program, ∃ slots, definition.HasSlots scope limit slots ∧ slot ∈ slots := by
  induction program generalizing lowered state with
  | nil =>
    cases run
    exact fun slot member => .inl member
  | cons definition rest ih =>
    intro slot member
    rw [List.foldlM_cons] at run
    obtain ⟨next, between, first, later⟩ := CompileM.bind_eq_ok_iff.1 run
    obtain ⟨slots, same, hasSlots⟩ := of_addDefinition first
    rcases ih later slot member with here | ⟨other, listed, there⟩
    · rw [same] at here
      exact (List.mem_append.1 here).imp_right fun own =>
        ⟨definition, List.mem_cons_self, slots, hasSlots, own⟩
    · exact .inr ⟨other, List.mem_cons_of_mem _ listed, there⟩

end Lowered

/-- **The slots of a compiled plain program can be written**, and hooks add none. -/
theorem exists_lowered_of_isPlain (tame : scope.IsTame) (proper : scope.HasProperNames)
    {rounds : Nat} {program : Program} {graph : Graph}
    (plain : ∀ definition ∈ program, definition.IsPlain)
    (compiled : compile? scope limit rounds program = .ok (some graph)) :
    ∃ lowered : Lowered, lowered.IsNumbered ∧ (∀ slot ∈ lowered.slots, slot.isGroup = false) ∧
      (∀ slot ∈ lowered.slots, slot.IsWritable) ∧
      linkSlots (lowered.slots ++ lowered.groups.slots) = .ok graph := by
  obtain ⟨lowered, state, run, linked⟩ := exists_lowered_of_compile? compiled
  obtain ⟨defined, between, each, pending⟩ := CompileM.bind_eq_ok_iff.1 run
  have same : between = { defined := program.featureNames } :=
    CompileM.Leaves.foldlM (fun definition member lowered =>
      Lowered.leaves_addDefinition tame (plain definition member)) _ _ _ each
  subst same
  rw [Lowered.addPending_of_eq_nil rfl] at pending
  cases pending
  refine ⟨lowered, Lowered.keeps_isNumbered.of_run run,
    (Lowered.keeps_listsStatements.of_run run).ungrouped, fun slot member => ?_, linked⟩
  rcases Lowered.exists_definition_of_foldlM each slot member with
    start | ⟨definition, listed, slots, hasSlots, own⟩
  · cases start
  · exact hasSlots.isWritable proper tame (plain definition listed) slot own

end RuleGraph
