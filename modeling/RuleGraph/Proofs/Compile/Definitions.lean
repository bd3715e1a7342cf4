import RuleGraph.Proofs.Compile.Lowering
import RuleGraph.Proofs.Graph.Built

/-! # From definitions to slots

What a compiled graph says of the program that it was made from: every slot is a lowered definition
or a statement feature, and every definition has its slots.

* **`Slot.IsLowered`** — a slot is what a definition is lowered to.
* **`isLowered_of_compile?`** — all slots of a compiled graph are.
* **`Definition.HasSlots`** — the slots of a definition.
* **`slots_of_compile?`** — every definition of a program has its slots in the graph.
-/

namespace RuleGraph

variable {scope : Scope} {limit rounds : Nat} {program : Program} {graph : Graph}

/-! ## Lowered slots -/

/-- A slot is what a definition is lowered to, or a statement feature. -/
inductive Slot.IsLowered (scope : Scope) : Slot → Prop where
  /-- An input. -/
  | input (name) : IsLowered scope (.input name)
  /-- The value of a lowered expression. -/
  | feature {name item body} (lowers : Lowers scope item body) :
    IsLowered scope (.feature name body)
  /-- A call of a statement that accepts the arguments, under a lowered condition if there is
  one. -/
  | statement {name feature condition function args entry run bodies}
    (holds : ∀ body, condition = some body → ∃ item, Lowers scope item body)
    (found : scope.lookup function = .ok entry) (kind : entry.kind = .statement feature run)
    (accepts : entry.Accepts args) (each : LowersAll scope args bodies) :
    IsLowered scope (.statement name feature condition (.call entry.qualifiedName bodies))
  /-- A statement feature. -/
  | group (name members) : IsLowered scope (.group name members)

/-- Lowered slots have the dependencies that their constructors give them. -/
theorem Slot.IsLowered.isConstructed {slot : Slot} (lowered : slot.IsLowered scope) :
    slot.IsConstructed := by
  cases lowered with
  | input name => exact .input name
  | feature => exact .feature _ _
  | statement => exact .statement _ _ _ _
  | group name members => exact .group name members

/-- Slots as they are constructed depend on what their expressions name. -/
theorem Slot.IsConstructed.mem_deps_of_mem_features {slot : Slot}
    (constructed : slot.IsConstructed) {body : SlotExpr} (inside : body ∈ slot.expressions)
    {name : String} (named : name ∈ body.features) : name ∈ slot.deps := by
  cases constructed with
  | input | group => cases inside
  | feature =>
    cases List.mem_singleton.1 inside
    exact SlotExpr.mem_references.2 named
  | statement =>
    refine SlotExpr.mem_distinct.2 (List.mem_append.2 ?_)
    rcases List.mem_append.1 inside with guard | own
    · cases Option.mem_toList.1 guard
      exact .inl named
    · cases List.mem_singleton.1 own
      exact .inr named

/-- A feature is lowered to an input or to the value of its definition. -/
theorem lowerFeature_eq_ok {name : String} {item : Expr} {slot : Slot}
    (lowered : lowerFeature scope name item = .ok slot) :
    item = .call inputFunction [] ∧ slot = .input name ∨
      ∃ body, Lowers scope item body ∧ slot = .feature name body := by
  have value : ∀ {item : Expr},
      (do return .feature name (← lowerValue scope item) : Except CompileError Slot) = .ok slot →
        ∃ body, Lowers scope item body ∧ slot = .feature name body := by
    intro item lowered
    obtain ⟨body, first, same⟩ := bind_eq_ok_iff.1 lowered
    cases same
    exact ⟨body, lowerValue_eq_ok_iff.1 first, rfl⟩
  unfold lowerFeature at lowered
  split at lowered
  · split at lowered
    · rename_i isInput
      split at lowered
      · rename_i noArgs
        cases lowered
        rw [List.isEmpty_iff] at noArgs
        exact .inl ⟨by rw [isInput, noArgs], rfl⟩
      · cases lowered
    · exact .inr (value lowered)
  · exact .inr (value lowered)

/-- A statement is lowered to a call of its function, numbered within its statement feature. -/
theorem lowerStatement_eq_ok {groups groups' : Groups} {condition : Option SlotExpr} {call : Expr}
    {slot : Slot} (lowered : groups.lowerStatement scope condition call = .ok (slot, groups')) :
    ∃ function args entry feature run bodies, call = .call function args ∧
      scope.lookup function = .ok entry ∧ entry.kind = .statement feature run ∧
      entry.Accepts args ∧ LowersAll scope args bodies ∧
      slot = .statement (feature ++ "#" ++ Numeral.natText (groups.members feature).length) feature
        condition (.call entry.qualifiedName bodies) := by
  unfold Groups.lowerStatement at lowered
  split at lowered
  · rename_i function args
    obtain ⟨entry, found, lowered⟩ := bind_eq_ok_iff.1 lowered
    split at lowered
    · rename_i feature run kind
      obtain ⟨_, accepts, lowered⟩ := bind_eq_ok_iff.1 lowered
      obtain ⟨bodies, each, same⟩ := bind_eq_ok_iff.1 lowered
      cases same
      exact ⟨function, args, entry, feature, run, bodies, rfl, found, kind,
        Entry.checkArgs_eq_ok_iff.1 accepts, lowerValues_eq_ok.1 each, rfl⟩
    · cases lowered
  · cases lowered

namespace Lowered

/-- All slots so far are lowered. -/
def AreLowered (scope : Scope) (lowered : Lowered) : Prop :=
  ∀ slot ∈ lowered.slots, slot.IsLowered scope

variable {lowered : Lowered}

/-- A further slot. -/
theorem AreLowered.concat {slot : Slot} {groups : Groups} (all : lowered.AreLowered scope)
    (new : slot.IsLowered scope) : AreLowered scope ⟨lowered.slots ++ [slot], groups⟩ := by
  intro other member
  rcases List.mem_append.1 member with old | last
  · exact all other old
  · exact List.mem_singleton.1 last ▸ new

/-- Every further slot is lowered. -/
theorem keeps_areLowered : Keeps scope (AreLowered scope) := by
  refine ⟨fun slot none => ?_, fun all made => ?_, fun all holds made => ?_⟩
  · cases none
  · refine all.concat ?_
    rcases lowerFeature_eq_ok made with ⟨-, rfl⟩ | ⟨value, lowers, rfl⟩
    · exact .input _
    · exact .feature lowers
  · obtain ⟨function, args, entry, feature, run, bodies, -, found, kind, accepts, each, rfl⟩ :=
      lowerStatement_eq_ok made
    refine all.concat (.statement (fun body same => ?_) found kind accepts each)
    obtain ⟨item, lowered⟩ := holds body same
    exact ⟨item, lowerValue_eq_ok_iff.1 lowered⟩

end Lowered

/-! ## Compiled graphs -/

/-- A compiled graph has the slots that lowering its program has come to, and the statement
features. -/
theorem exists_lowered_of_compile?
    (compiled : compile? scope limit rounds program = .ok (some graph)) :
    ∃ lowered state, (do
        let lowered ← program.foldlM (Lowered.addDefinition scope limit) {}
        lowered.addPending scope limit rounds : CompileM (Option Lowered))
          { defined := program.featureNames } = .ok (some lowered, state) ∧
      linkSlots (lowered.slots ++ lowered.groups.slots) = .ok graph := by
  obtain ⟨slots?, found, compiled⟩ := bind_eq_ok_iff.1 compiled
  unfold lowerProgram? at found
  dsimp only at found
  split at found
  · cases found
  · rename_i lowered? state run
    cases lowered? with
    | none =>
      cases found
      cases compiled
    | some lowered =>
      cases found
      obtain ⟨graph', linked, same⟩ := bind_eq_ok_iff.1 compiled
      cases same
      exact ⟨lowered, state, run, linked⟩

/-- **All slots of a compiled graph are lowered.** -/
theorem isLowered_of_compile? (compiled : compile? scope limit rounds program = .ok (some graph)) :
    ∀ slot ∈ graph.slots, slot.IsLowered scope := by
  obtain ⟨lowered, state, run, linked⟩ := exists_lowered_of_compile? compiled
  have all := Lowered.keeps_areLowered.of_run run
  intro slot member
  rcases List.mem_append.1 (((isBuilt_of_linkSlots linked).2 slot).1 member) with old | group
  · exact all slot old
  · obtain ⟨⟨name, members⟩, -, rfl⟩ := List.mem_map.1 group
    exact .group name members

/-! ## The slots of a definition -/

/-- A slot is that of a statement under a condition: what its call is rewritten to is lowered. -/
inductive Slot.IsStatementOf (scope : Scope) (limit : Nat) (condition : Option SlotExpr)
    (call : Expr) : Slot → Prop where
  /-- The call is one of a statement that accepts the arguments. -/
  | lowered {state state' name function args entry feature run bodies}
    (rewritten : rewrite scope limit call state = .ok (.call function args, state'))
    (found : scope.lookup function = .ok entry) (kind : entry.kind = .statement feature run)
    (accepts : entry.Accepts args) (each : LowersAll scope args bodies) :
    IsStatementOf scope limit condition call
      (.statement name feature condition (.call entry.qualifiedName bodies))

/-- It is a statement under that condition. -/
theorem Slot.IsStatementOf.exists_kind {condition : Option SlotExpr} {call : Expr} {slot : Slot}
    (isStatement : slot.IsStatementOf scope limit condition call) :
    ∃ feature call', slot.kind = .statement feature condition call' := by
  cases isStatement with
  | lowered => exact ⟨_, _, rfl⟩

/-- The slots of a definition: one for a feature, and one for every statement of a rule. -/
inductive Definition.HasSlots (scope : Scope) (limit : Nat) : Definition → List Slot → Prop where
  /-- What the body of a feature is rewritten to is lowered. -/
  | feature {name body body' state state' slot}
    (rewritten : rewrite scope limit body state = .ok (body', state'))
    (lowered : lowerFeature scope name body' = .ok slot) :
    HasSlots scope limit (.feature name body) [slot]
  /-- The statements of a rule without a condition. -/
  | always {calls slots} (each : List.Forall₂ (Slot.IsStatementOf scope limit none) calls slots) :
    HasSlots scope limit (.rule none calls) slots
  /-- The statements of a rule, all of them under the same lowered condition. -/
  | rule {item item' body state state' calls slots}
    (rewritten : rewrite scope limit item state = .ok (item', state'))
    (lowers : Lowers scope item' body)
    (each : List.Forall₂ (Slot.IsStatementOf scope limit (some body)) calls slots) :
    HasSlots scope limit (.rule (some item) calls) slots

section

variable {α β : Type} {state state' : CompileState}

/-- Steps of a compilation one after the other. -/
theorem CompileM.bind_eq_ok_iff {first : CompileM α} {next : α → CompileM β} {b : β} :
    (first >>= next) state = .ok (b, state') ↔
      ∃ a between, first state = .ok (a, between) ∧ next a between = .ok (b, state') := by
  show (first state >>= fun run => next run.1 run.2) = .ok (b, state') ↔ _
  rw [RuleGraph.bind_eq_ok_iff]
  exact Prod.exists

/-- Steps for each member of a list come to every one of them. -/
theorem CompileM.exists_of_foldlM {step : α → β → CompileM α} {bs : List β} {b : β} {a a' : α}
    (member : b ∈ bs) (run : bs.foldlM step a state = .ok (a', state')) :
    ∃ before after here there between between', bs = before ++ b :: after ∧
      before.foldlM step a state = .ok (here, between) ∧
      step here b between = .ok (there, between') ∧
      after.foldlM step there between' = .ok (a', state') := by
  obtain ⟨before, after, rfl⟩ := List.append_of_mem member
  rw [List.foldlM_append] at run
  obtain ⟨here, between, first, run⟩ := bind_eq_ok_iff.1 run
  rw [List.foldlM_cons] at run
  obtain ⟨there, between', own, last⟩ := bind_eq_ok_iff.1 run
  exact ⟨before, after, here, there, between, between', rfl, first, own, last⟩

end

namespace Lowered

variable {lowered lowered' : Lowered} {state state' : CompileState}

/-- A feature adds its slot. -/
theorem of_addFeature {name : String} {body : Expr}
    (run : lowered.addFeature scope limit name body state = .ok (lowered', state')) :
    ∃ slot body', lowered'.slots = lowered.slots ++ [slot] ∧
      rewrite scope limit body state = .ok (body', state') ∧
      lowerFeature scope name body' = .ok slot := by
  obtain ⟨body', between, rewritten, run⟩ := CompileM.bind_eq_ok_iff.1 run
  obtain ⟨slot, between', made, run⟩ := CompileM.bind_eq_ok_iff.1 run
  cases run
  obtain ⟨made', same, last⟩ := bind_eq_ok_iff.1 made
  cases last
  exact ⟨slot, body', rfl, rewritten, same⟩

/-- A statement adds its slot. -/
theorem of_addStatement {condition : Option SlotExpr} {call : Expr}
    (run : lowered.addStatement scope limit condition call state = .ok (lowered', state')) :
    ∃ slot, lowered'.slots = lowered.slots ++ [slot] ∧
      slot.IsStatementOf scope limit condition call := by
  unfold addStatement at run
  split at run
  · obtain ⟨call', between, rewritten, run⟩ := CompileM.bind_eq_ok_iff.1 run
    obtain ⟨⟨slot, groups⟩, between', made, run⟩ := CompileM.bind_eq_ok_iff.1 run
    cases run
    obtain ⟨made', same, last⟩ := bind_eq_ok_iff.1 made
    cases last
    obtain ⟨function, args, entry, feature, run, bodies, rfl, found, kind, accepts, each, rfl⟩ :=
      lowerStatement_eq_ok same
    exact ⟨_, rfl, .lowered rewritten found kind accepts each⟩
  · cases run

/-- Several statements add one slot each. -/
theorem of_foldlM_addStatement {condition : Option SlotExpr} {calls : List Expr}
    (run : calls.foldlM (addStatement scope limit condition) lowered state =
      .ok (lowered', state')) :
    ∃ slots, lowered'.slots = lowered.slots ++ slots ∧
      List.Forall₂ (Slot.IsStatementOf scope limit condition) calls slots := by
  induction calls generalizing lowered state with
  | nil =>
    cases run
    exact ⟨[], (List.append_nil _).symm, .nil⟩
  | cons call rest ih =>
    rw [List.foldlM_cons] at run
    obtain ⟨next, between, first, run⟩ := CompileM.bind_eq_ok_iff.1 run
    obtain ⟨slot, same, isStatement⟩ := of_addStatement first
    obtain ⟨slots, same', each⟩ := ih run
    refine ⟨slot :: slots, ?_, .cons isStatement each⟩
    rw [same', same, List.append_assoc, List.singleton_append]

/-- A definition adds its slots. -/
theorem of_addDefinition {definition : Definition}
    (run : lowered.addDefinition scope limit definition state = .ok (lowered', state')) :
    ∃ slots, lowered'.slots = lowered.slots ++ slots ∧ definition.HasSlots scope limit slots := by
  unfold addDefinition at run
  split at run
  · obtain ⟨slot, body', same, rewritten, made⟩ := of_addFeature run
    exact ⟨[slot], same, .feature rewritten made⟩
  · obtain ⟨slots, same, each⟩ := of_foldlM_addStatement run
    exact ⟨slots, same, .always each⟩
  · obtain ⟨item', between, rewritten, run⟩ := CompileM.bind_eq_ok_iff.1 run
    obtain ⟨body, between', made, run⟩ := CompileM.bind_eq_ok_iff.1 run
    obtain ⟨body', lowers, last⟩ := bind_eq_ok_iff.1 made
    cases last
    obtain ⟨slots, same, each⟩ := of_foldlM_addStatement run
    exact ⟨slots, same, .rule rewritten (lowerValue_eq_ok_iff.1 lowers) each⟩

variable {start : List Slot}

/-- Lowering definitions leaves in front what stands there. -/
theorem foldlM_addDefinition_ensures (ahead : start <+: lowered.slots)
    (definitions : List Definition) :
    CompileM.Ensures (definitions.foldlM (addDefinition scope limit) lowered)
      fun after => start <+: after.slots := by
  refine .foldlM ahead fun before ahead definition state after state' run => ?_
  obtain ⟨slots, same, -⟩ := of_addDefinition run
  exact ahead.trans ⟨slots, same.symm⟩

/-- So does lowering what hooks have added. -/
theorem addPending_ensures_prefix (ahead : start <+: lowered.slots) (rounds : Nat) :
    (lowered.addPending scope limit rounds).Ensures fun found =>
      ∀ after ∈ found, start <+: after.slots := by
  induction rounds generalizing lowered with
  | zero =>
    refine .andThen fun state => .pure ?_
    split
    · simpa using ahead
    · simp
  | succ rounds ih =>
    refine .andThen fun state => ?_
    split
    · exact .pure (by simpa using ahead)
    · refine .andThen fun _ => .bind (.foldlM ahead ?_) fun lowered ahead => ih ahead
      intro before ahead feature state after state' run
      obtain ⟨slot, -, same, -⟩ := of_addFeature run
      exact ahead.trans ⟨[slot], same.symm⟩

end Lowered

/-- **Every definition of a compiled program has its slots in the graph**, each under a name of its
own. -/
theorem slots_of_compile? (compiled : compile? scope limit rounds program = .ok (some graph))
    {definition : Definition} (member : definition ∈ program) :
    ∃ slots, definition.HasSlots scope limit slots ∧ (slots.map Slot.name).Nodup ∧
      ∀ slot ∈ slots, slot ∈ graph.slots := by
  obtain ⟨lowered, state, run, linked⟩ := exists_lowered_of_compile? compiled
  obtain ⟨defined, between, each, pending⟩ := CompileM.bind_eq_ok_iff.1 run
  obtain ⟨before, after, here, there, _, _, -, -, own, later⟩ :=
    CompileM.exists_of_foldlM member each
  obtain ⟨slots, same, hasSlots⟩ := Lowered.of_addDefinition own
  -- The slots of the definition stand among those of the program, which have names of their own.
  have ahead := Lowered.foldlM_addDefinition_ensures List.prefix_rfl after _ _ _ later
  obtain ⟨more, whole⟩ :=
    Lowered.addPending_ensures_prefix ahead rounds _ _ _ pending lowered rfl
  have inside : slots.Sublist (lowered.slots ++ lowered.groups.slots) := by
    rw [← whole, same, List.append_assoc, List.append_assoc]
    exact (List.sublist_append_left _ _).trans (List.sublist_append_right _ _)
  obtain ⟨unordered, made, -⟩ := bind_eq_ok_iff.1 linked
  obtain ⟨all, isLinked⟩ := Graph.linked_of_ofSlots made
  refine ⟨slots, hasSlots, ?_, fun slot member => ?_⟩
  · exact isLinked.nodup.sublist (all ▸ inside.map Slot.name)
  · exact ((isBuilt_of_linkSlots linked).2 slot).2 (inside.subset member)

end RuleGraph
