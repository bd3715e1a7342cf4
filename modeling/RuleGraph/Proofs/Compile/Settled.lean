import RuleGraph.Proofs.Catalog.Names
import RuleGraph.Proofs.Compile.Definitions

/-! # What is lowered stays as it is

A lowered slot can be written as a definition again. In it no call site is left to be rewritten, and
every name stands for what it stood for, so that lowering it once more gives the same slot, except
that statements are numbered anew.

* **`Lowers.settled`** — a lowered expression is lowered to itself.
* **`Lowers.isIdle`** — what is lowered has no call sites for hooks.
* **`Slot.definition?`** — the definition of a slot.
* **`Lowered.put`** — a slot that is lowered once more.
* **`Lowered.foldlM_addDefinition`** — lowering the definitions of slots puts the slots.
-/

namespace RuleGraph

variable {scope : Scope} {limit : Nat}

/-! ## Expressions -/

/-- A qualified name is the name that was looked up, or has a point. -/
theorem Scope.qualifiedName_of_lookup {name : String} {entry : Entry}
    (found : scope.lookup name = .ok entry) :
    entry.qualifiedName = name ∨ '.' ∈ entry.qualifiedName.toList := by
  have inPackage : ∀ {package name}, scope.catalog.find? (some package) name = some entry →
      '.' ∈ entry.qualifiedName.toList := by
    intro package name here
    obtain ⟨-, belongs, -⟩ := Catalog.of_find? here
    have same : entry.qualifiedName = package ++ "." ++ entry.name := by
      rw [Entry.qualifiedName, belongs]
      rfl
    rw [same]
    simp
  unfold Scope.lookup at found
  split at found
  · split at found
    · rename_i here
      cases found
      exact .inr (inPackage here)
    · cases found
  · rcases Scope.of_lookupBare found with ⟨package, here⟩ | here
    · exact .inr (inPackage here)
    · obtain ⟨-, outside, named⟩ := Catalog.of_find? here
      refine .inl ?_
      rw [Entry.qualifiedName, outside, ← named]
      rfl

/-- Nothing but an input is called under the name of inputs. -/
theorem Scope.qualifiedName_ne_input {name : String} {entry : Entry}
    (found : scope.lookup name = .ok entry) (proper : name ≠ inputFunction) :
    entry.qualifiedName ≠ inputFunction := by
  intro same
  rcases Scope.qualifiedName_of_lookup found with whole | point
  · exact proper (whole.symm.trans same)
  · rw [same] at point
    exact absurd point (by decide)

/-- A call that no hook replaces is idle if its arguments are. -/
theorem Expr.isIdle_call {function : String} {args : List Expr} {entry : Entry}
    (found : scope.lookup function = .ok entry) (other : ∀ hook, entry.kind ≠ .transform hook)
    (idle : ∀ arg ∈ args, arg.IsIdle scope) : (Expr.call function args).IsIdle scope := by
  intro pass
  rw [rewriteOnce_call, rewriteAll_of_isIdle idle]
  show rewriteCall scope ⟨function, args⟩ pass = _
  unfold rewriteCall
  rw [found]
  dsimp only
  split
  · rename_i hook kind
    exact absurd kind (other hook)
  · rfl

/-- A function that computes values is no hook. -/
theorem Entry.IsValue.ne_transform {entry : Entry} (isValue : entry.IsValue)
    (hook : CallNode → Except CompileError Expr) : entry.kind ≠ .transform hook := by
  intro same
  rcases isValue with ⟨body, kind⟩ | ⟨body, kind⟩
  · rw [kind] at same
    cases same
  · rw [kind] at same
    cases same

/-- Several expressions are idle if being lowered makes each of them idle. -/
theorem LowersAll.isIdle_of_forall {items : List Expr} {bodies : List SlotExpr}
    (each : LowersAll scope items bodies)
    (idle : ∀ item ∈ items, ∀ {body}, Lowers scope item body → item.IsIdle scope) :
    ∀ item ∈ items, item.IsIdle scope := by
  intro item member
  obtain ⟨place, bound, rfl⟩ := List.getElem_of_mem member
  have all := lowersAll_iff.1 each
  exact idle _ member (all.get bound (all.length_eq ▸ bound))

/-- **What is lowered has no call sites for hooks.** -/
theorem Lowers.isIdle {item : Expr} {body : SlotExpr} (lowers : Lowers scope item body) :
    item.IsIdle scope := by
  induction item generalizing body with
  | const value => exact Expr.isIdle_const value
  | feature name => exact Expr.isIdle_feature name
  | list items ih =>
    cases lowers with
    | list each => exact Expr.isIdle_list (each.isIdle_of_forall ih)
  | call function args ih =>
    cases lowers with
    | call proper found isValue accepts each =>
      exact Expr.isIdle_call found isValue.ne_transform (each.isIdle_of_forall ih)
  | custom => cases lowers

/-- Several lowered expressions are lowered to themselves if each of them is. -/
theorem LowersAll.settled_of_forall {items : List Expr} {bodies : List SlotExpr}
    (each : LowersAll scope items bodies)
    (settled : ∀ item ∈ items, ∀ {body}, Lowers scope item body → Lowers scope body.toExpr body) :
    LowersAll scope (SlotExpr.toExprs bodies) bodies := by
  induction items generalizing bodies with
  | nil =>
    cases each
    exact .nil
  | cons item rest ih =>
    obtain ⟨onItem, onRest⟩ := List.forall_mem_cons.1 settled
    cases each with
    | cons first others => exact .cons (onItem first) (ih others onRest)

variable (plain : scope.catalog.HasPlainPackages)
include plain

/-- **A lowered expression is lowered to itself.** -/
theorem Lowers.settled {item : Expr} {body : SlotExpr} (lowers : Lowers scope item body) :
    Lowers scope body.toExpr body := by
  induction item generalizing body with
  | const | feature =>
    cases lowers
    constructor
  | list items ih =>
    cases lowers with
    | list each => exact .list (each.settled_of_forall ih)
  | call function args ih =>
    cases lowers with
    | call proper found isValue accepts each =>
      exact .call (Scope.qualifiedName_ne_input found proper)
        (Scope.lookup_qualifiedName plain found) isValue (accepts.congr each.forall₂_admits)
        (each.settled_of_forall ih)
  | custom => cases lowers

/-- Several lowered expressions are lowered to themselves. -/
theorem LowersAll.settled {items : List Expr} {bodies : List SlotExpr}
    (each : LowersAll scope items bodies) : LowersAll scope (SlotExpr.toExprs bodies) bodies :=
  each.settled_of_forall fun _ _ _ lowers => lowers.settled plain

omit plain

/-! ## Slots -/

/-- The definition of a slot. A statement feature has none. -/
def Slot.definition? (slot : Slot) : Option Definition :=
  match slot.kind with
  | .input => some (.input slot.name)
  | .feature body => some (.feature slot.name body.toExpr)
  | .statement _ condition call => some (.rule (condition.map SlotExpr.toExpr) [call.toExpr])
  | .group => none

variable {lowered : Lowered} {state : CompileState}

namespace Lowered

/-- A slot that is lowered once more. A statement gets the next number of its statement feature, and
statement features are made from their statements. -/
def put (lowered : Lowered) (slot : Slot) : Lowered :=
  match slot.kind with
  | .statement feature _ _ =>
    let name := CompileState.numbered feature (lowered.groups.members feature).length
    ⟨lowered.slots ++ [{ slot with name := name }], lowered.groups.add feature name⟩
  | .group => lowered
  | _ => { lowered with slots := lowered.slots ++ [slot] }

/-- An idle expression is lowered as it is. -/
theorem addFeature_of_isIdle {name : String} {body : Expr} {slot : Slot} (idle : body.IsIdle scope)
    (made : lowerFeature scope name body = .ok slot) :
    lowered.addFeature scope limit name body state =
      .ok ({ lowered with slots := lowered.slots ++ [slot] }, state) := by
  refine CompileM.bind_eq_ok_iff.2 ⟨body, state, rewrite_of_isIdle idle, ?_⟩
  refine CompileM.bind_eq_ok_iff.2 ⟨slot, state, ?_, rfl⟩
  exact bind_eq_ok_iff.2 ⟨slot, made, rfl⟩

/-- An idle statement is lowered as it is, and numbered anew. -/
theorem addStatement_of_isIdle {condition : Option SlotExpr} {function : String} {args : List Expr}
    {slot : Slot} {groups : Groups} (idle : (Expr.call function args).IsIdle scope)
    (made : lowered.groups.lowerStatement scope condition (.call function args) =
      .ok (slot, groups)) :
    lowered.addStatement scope limit condition (.call function args) state =
      .ok (⟨lowered.slots ++ [slot], groups⟩, state) := by
  refine CompileM.bind_eq_ok_iff.2 ⟨.call function args, state, rewrite_of_isIdle idle, ?_⟩
  refine CompileM.bind_eq_ok_iff.2 ⟨(slot, groups), state, ?_, rfl⟩
  exact bind_eq_ok_iff.2 ⟨(slot, groups), made, rfl⟩

end Lowered

/-- What is lowered to a value is lowered to a feature. -/
theorem lowerFeature_of_lowers {name : String} {item : Expr} {body : SlotExpr}
    (lowers : Lowers scope item body) :
    lowerFeature scope name item = .ok (.feature name body) := by
  have value : (do return .feature name (← lowerValue scope item) : Except CompileError Slot) =
      .ok (.feature name body) :=
    bind_eq_ok_iff.2 ⟨body, lowerValue_eq_ok_iff.2 lowers, rfl⟩
  cases lowers with
  | call proper =>
    rw [lowerFeature, if_neg proper]
    exact value
  | const | feature | list => exact value

/-- A statement that accepts its lowered arguments is numbered within its statement feature. -/
theorem lowerStatement_of_lowersAll {groups : Groups} {condition : Option SlotExpr}
    {function feature : String} {args : List Expr} {bodies : List SlotExpr} {entry : Entry}
    {run : Invocation → List Value → Action Unit} (found : scope.lookup function = .ok entry)
    (kind : entry.kind = .statement feature run) (accepts : entry.Accepts args)
    (each : LowersAll scope args bodies) :
    groups.lowerStatement scope condition (.call function args) =
      .ok (.statement (CompileState.numbered feature (groups.members feature).length) feature
        condition (.call entry.qualifiedName bodies),
        groups.add feature (CompileState.numbered feature (groups.members feature).length)) := by
  refine bind_eq_ok_iff.2 ⟨entry, found, ?_⟩
  simp only [kind]
  refine bind_eq_ok_iff.2 ⟨(), Entry.checkArgs_eq_ok_iff.2 accepts, ?_⟩
  exact bind_eq_ok_iff.2 ⟨bodies, lowerValues_eq_ok.2 each, rfl⟩

namespace Lowered

/-- **Lowering the definition of a lowered slot puts the slot.** -/
theorem addDefinition_definition? (plain : scope.catalog.HasPlainPackages)
    (inputs : (Expr.call inputFunction []).IsIdle scope) {slot : Slot}
    (isLowered : slot.IsLowered scope) {item : Definition}
    (defined : slot.definition? = some item) :
    lowered.addDefinition scope limit item state = .ok (lowered.put slot, state) := by
  cases isLowered with
  | input name =>
    cases defined
    exact addFeature_of_isIdle inputs rfl
  | feature lowers =>
    cases defined
    have settled := lowers.settled plain
    exact addFeature_of_isIdle settled.isIdle (lowerFeature_of_lowers settled)
  | @statement name feature condition _ _ entry _ bodies holds found kind accepts each =>
    cases defined
    have found' := Scope.lookup_qualifiedName plain found
    have each' := each.settled plain
    have idle : (Expr.call entry.qualifiedName (SlotExpr.toExprs bodies)).IsIdle scope := by
      refine Expr.isIdle_call found' (fun hook same => ?_)
        (each'.isIdle_of_forall fun _ _ _ lowers => lowers.isIdle)
      rw [kind] at same
      cases same
    have single : [Expr.call entry.qualifiedName (SlotExpr.toExprs bodies)].foldlM
        (addStatement scope limit condition) lowered state = .ok (lowered.put
          (.statement name feature condition (.call entry.qualifiedName bodies)), state) :=
      CompileM.bind_eq_ok_iff.2 ⟨_, state, addStatement_of_isIdle idle
        (lowerStatement_of_lowersAll found' kind (accepts.congr each.forall₂_admits) each'), rfl⟩
    cases condition with
    | none => exact single
    | some condition =>
      obtain ⟨item, lowers⟩ := holds condition rfl
      have settled := lowers.settled plain
      refine CompileM.bind_eq_ok_iff.2 ⟨_, state, rewrite_of_isIdle settled.isIdle, ?_⟩
      refine CompileM.bind_eq_ok_iff.2 ⟨condition, state, ?_, single⟩
      exact bind_eq_ok_iff.2 ⟨condition, lowerValue_eq_ok_iff.2 settled, rfl⟩
  | group => cases defined

/-- **Lowering the definitions of lowered slots puts the slots.** -/
theorem foldlM_addDefinition (plain : scope.catalog.HasPlainPackages)
    (inputs : (Expr.call inputFunction []).IsIdle scope) {slots : List Slot}
    (areLowered : ∀ slot ∈ slots, slot.IsLowered scope) :
    (slots.filterMap Slot.definition?).foldlM (addDefinition scope limit) lowered state =
      .ok (slots.foldl put lowered, state) := by
  induction slots generalizing lowered with
  | nil => rfl
  | cons slot rest ih =>
    obtain ⟨first, others⟩ := List.forall_mem_cons.1 areLowered
    rw [List.foldl_cons]
    cases defined : slot.definition? with
    | none =>
      have same : lowered.put slot = lowered := by
        unfold Slot.definition? at defined
        unfold put
        split at defined
        · cases defined
        · cases defined
        · cases defined
        · rename_i kind
          rw [kind]
      rw [List.filterMap_cons_none defined, same]
      exact ih others
    | some item =>
      rw [List.filterMap_cons_some defined, List.foldlM_cons]
      exact CompileM.bind_eq_ok_iff.2
        ⟨_, state, addDefinition_definition? plain inputs first defined, ih others⟩

/-- Without features that hooks have added there is nothing left to do. -/
theorem addPending_of_eq_nil (none : state.pending = []) {rounds : Nat} :
    lowered.addPending scope limit rounds state = .ok (some lowered, state) := by
  cases rounds with
  | zero =>
    refine CompileM.bind_eq_ok_iff.2 ⟨state, state, rfl, ?_⟩
    rw [none]
    rfl
  | succ rounds =>
    refine CompileM.bind_eq_ok_iff.2 ⟨state, state, rfl, ?_⟩
    rw [none]
    rfl

end Lowered

/-- **Compiling the definitions of lowered slots links the slots that are put.** -/
theorem compile?_filterMap_definition? (plain : scope.catalog.HasPlainPackages)
    (inputs : (Expr.call inputFunction []).IsIdle scope) {slots : List Slot}
    (areLowered : ∀ slot ∈ slots, slot.IsLowered scope) (rounds : Nat) {lowered : Lowered}
    (put : slots.foldl Lowered.put {} = lowered) {graph : Graph}
    (linked : linkSlots (lowered.slots ++ lowered.groups.slots) = .ok graph) :
    compile? scope limit rounds (slots.filterMap Slot.definition?) = .ok (some graph) := by
  have run : ∀ state : CompileState, state.pending = [] → (do
      let lowered ← (slots.filterMap Slot.definition?).foldlM (Lowered.addDefinition scope limit) {}
      lowered.addPending scope limit rounds : CompileM (Option Lowered)) state =
        .ok (some lowered, state) := by
    intro state none
    refine CompileM.bind_eq_ok_iff.2
      ⟨lowered, state, put ▸ Lowered.foldlM_addDefinition plain inputs areLowered, ?_⟩
    exact Lowered.addPending_of_eq_nil none
  refine bind_eq_ok_iff.2 ⟨some (lowered.slots ++ lowered.groups.slots), ?_, ?_⟩
  · unfold lowerProgram?
    dsimp only
    rw [run _ rfl]
    rfl
  · exact bind_eq_ok_iff.2 ⟨graph, linked, rfl⟩

end RuleGraph
