import RuleGraph.Proofs.Compile.Groups

/-! # The slots that a program is lowered to

The slots of the definitions come first, in the order of the program. Then come those of the
features that hooks have added, in the order in which they did, and last the statement features.

* **`CompileState.Adds`** — features that hooks have added between two states.
* **`rewrite_adds`** — rewriting changes nothing of a state but that.
* **`Lowered.Drains`** — what is added, in the order in which it is taken up.
* **`Lowered.of_addPending`** — what is added is lowered, and what is added meanwhile.
* **`Program.LowersTo`** — what the slots of a program are.
* **`lowersTo_of_lowerProgram?`** — the slots that a program is lowered to are these.
-/

namespace RuleGraph

variable {scope : Scope} {limit rounds : Nat} {program : Program}
  {added more : List (String × Expr)}

/-! ## Features that hooks add -/

/-- Between two states hooks have added features: their names are taken, and they are still to be
lowered. -/
structure CompileState.Adds (before : CompileState) (added : List (String × Expr))
    (after : CompileState) : Prop where
  /-- The names are taken, the latest first. -/
  defined : after.defined = (added.map Prod.fst).reverse ++ before.defined
  /-- The features stand behind those that are still to be lowered. -/
  pending : after.pending = before.pending ++ added

namespace CompileState

variable {state state' state'' : CompileState}

/-- Nothing is added. -/
theorem Adds.refl (state : CompileState) : state.Adds [] state :=
  ⟨rfl, (List.append_nil _).symm⟩

/-- What is added later comes behind. -/
theorem Adds.trans (first : state.Adds added state') (second : state'.Adds more state'') :
    state.Adds (added ++ more) state'' := by
  refine ⟨?_, ?_⟩
  · rw [second.defined, first.defined, List.map_append, List.reverse_append, List.append_assoc]
  · rw [second.pending, first.pending, List.append_assoc]

/-- A feature is added. -/
theorem adds_of_define {name : String} {body : Expr} (ran : state.define name body = .ok state') :
    state.Adds [(name, body)] state' := by
  rw [define] at ran
  split at ran
  · cases ran
  · cases ran
    exact ⟨rfl, rfl⟩

end CompileState

variable {state state' : CompileState}

/-- A hook may add features, and changes nothing else. -/
theorem Hook.run_adds {hook : Hook} {result : Expr}
    (ran : hook.run scope state = .ok (result, state')) : ∃ added, state.Adds added state' := by
  induction hook generalizing state with
  | finish found =>
    cases found with
    | ok result =>
      cases ran
      exact ⟨[], .refl _⟩
    | error error => cases ran
  | freshName stem next ih =>
    rw [run] at ran
    -- The counter is of no account here.
    obtain ⟨added, adds⟩ := ih _ ran
    exact ⟨added, adds.defined, adds.pending⟩
  | define name body next ih =>
    rw [run] at ran
    split at ran
    · rename_i between defined
      obtain ⟨added, adds⟩ := ih _ ran
      exact ⟨_, (CompileState.adds_of_define defined).trans adds⟩
    · exact ih _ ran
  | isDefined name next ih => exact ih _ ran
  | lookup name next ih => exact ih _ ran

/-- A call site with raw text may add features. -/
theorem rewriteCustom_adds {node : CustomNode} {result : Expr} {pass pass' : Pass}
    (ran : rewriteCustom scope node pass = .ok (result, pass')) :
    ∃ added, pass.state.Adds added pass'.state := by
  unfold rewriteCustom at ran
  split at ran
  · cases ran
  · split at ran
    · split at ran
      · rename_i hooked
        cases ran
        exact Hook.run_adds hooked
      · cases ran
    · cases ran

/-- A call adds none, whether it is replaced or not. -/
theorem rewriteCall_state {node : CallNode} {result : Expr} {pass pass' : Pass}
    (ran : rewriteCall scope node pass = .ok (result, pass')) : pass'.state = pass.state := by
  unfold rewriteCall at ran
  split at ran
  · cases ran
    rfl
  · split at ran
    · split at ran
      · cases ran
        rfl
      · cases ran
    · cases ran
      rfl

/-- A pass over several expressions may add features if one over each of them may. -/
theorem rewriteAll_adds {items results : List Expr} {pass pass' : Pass}
    (each : ∀ item ∈ items, ∀ {result : Expr} {pass pass' : Pass},
      rewriteOnce scope item pass = .ok (result, pass') →
        ∃ added, pass.state.Adds added pass'.state)
    (ran : rewriteAll scope items pass = .ok (results, pass')) :
    ∃ added, pass.state.Adds added pass'.state := by
  induction items generalizing results pass with
  | nil =>
    cases ran
    exact ⟨[], .refl _⟩
  | cons item rest ih =>
    obtain ⟨onItem, onRest⟩ := List.forall_mem_cons.1 each
    rw [rewriteAll_cons] at ran
    obtain ⟨⟨first, between⟩, here, ran⟩ := bind_eq_ok_iff.1 ran
    obtain ⟨⟨others, last⟩, later, same⟩ := map_eq_ok_iff.1 ran
    cases same
    obtain ⟨added, adds⟩ := onItem here
    obtain ⟨more, adds'⟩ := ih onRest later
    exact ⟨added ++ more, adds.trans adds'⟩

/-- A pass over an expression may add features. -/
theorem rewriteOnce_adds {body result : Expr} {pass pass' : Pass}
    (ran : rewriteOnce scope body pass = .ok (result, pass')) :
    ∃ added, pass.state.Adds added pass'.state := by
  induction body generalizing result pass pass' with
  | const | feature =>
    cases ran
    exact ⟨[], .refl _⟩
  | list items ih =>
    rw [rewriteOnce_list] at ran
    obtain ⟨⟨others, last⟩, inside, same⟩ := map_eq_ok_iff.1 ran
    cases same
    exact rewriteAll_adds (fun item member _ _ _ => ih item member) inside
  | call function args ih =>
    rw [rewriteOnce_call] at ran
    obtain ⟨⟨others, between⟩, inside, own⟩ := bind_eq_ok_iff.1 ran
    rw [rewriteCall_state own]
    exact rewriteAll_adds (fun item member _ _ _ => ih item member) inside
  | custom function source => exact rewriteCustom_adds ran

/-- **Rewriting an expression may add features**, and changes nothing else. -/
theorem rewrite_adds {body result : Expr}
    (ran : rewrite scope limit body state = .ok (result, state')) :
    ∃ added, state.Adds added state' := by
  have passes : ∀ {count : Nat} {last : Option String} {body : Expr} {state : CompileState},
      rewritePasses scope limit count last body state = .ok (result, state') →
        ∃ added, state.Adds added state' := by
    intro count
    induction count with
    | zero =>
      intro last body state ran
      cases ran
    | succ count ih =>
      intro last body state ran
      rw [rewritePasses] at ran
      split at ran
      · cases ran
      · rename_i once
        cases ran
        exact rewriteOnce_adds once
      -- The pass has replaced something, so there is another one.
      · rename_i once
        obtain ⟨added, adds⟩ := rewriteOnce_adds once
        obtain ⟨more, adds'⟩ := ih ran
        exact ⟨added ++ more, adds.trans adds'⟩
  exact passes ran

/-! ## Lowering -/

/-- The slot of a feature. -/
def Slot.IsFeatureOf (scope : Scope) (limit : Nat) (feature : String × Expr) (slot : Slot) : Prop :=
  (Definition.feature feature.1 feature.2).HasSlots scope limit [slot]

namespace Lowered

variable {lowered lowered' : Lowered}

/-- A feature adds its slot, and hooks may add features meanwhile. -/
theorem adds_of_addFeature {name : String} {body : Expr}
    (run : lowered.addFeature scope limit name body state = .ok (lowered', state')) :
    ∃ slot added, lowered'.slots = lowered.slots ++ [slot] ∧
      slot.IsFeatureOf scope limit (name, body) ∧ state.Adds added state' := by
  obtain ⟨slot, body', same, rewritten, made⟩ := of_addFeature run
  obtain ⟨added, adds⟩ := rewrite_adds rewritten
  exact ⟨slot, added, same, .feature rewritten made, adds⟩

/-- While a statement is lowered, hooks may add features. -/
theorem adds_of_addStatement {condition : Option SlotExpr} {call : Expr}
    (run : lowered.addStatement scope limit condition call state = .ok (lowered', state')) :
    ∃ added, state.Adds added state' := by
  unfold addStatement at run
  split at run
  · obtain ⟨call', between, rewritten, run⟩ := CompileM.bind_eq_ok_iff.1 run
    obtain ⟨⟨slot, groups⟩, between', made, run⟩ := CompileM.bind_eq_ok_iff.1 run
    cases run
    obtain ⟨made', same, last⟩ := bind_eq_ok_iff.1 made
    cases last
    exact rewrite_adds rewritten
  · cases run

/-- Steps of which each may add features may add features. -/
theorem adds_of_foldlM {α β : Type} {step : α → β → CompileM α}
    (each : ∀ {a b a' state state'}, step a b state = .ok (a', state') →
      ∃ added, CompileState.Adds state added state')
    {bs : List β} {a a' : α} (run : bs.foldlM step a state = .ok (a', state')) :
    ∃ added, state.Adds added state' := by
  induction bs generalizing a state with
  | nil =>
    cases run
    exact ⟨[], .refl _⟩
  | cons b rest ih =>
    rw [List.foldlM_cons] at run
    obtain ⟨next, between, first, run⟩ := CompileM.bind_eq_ok_iff.1 run
    obtain ⟨added, adds⟩ := each first
    obtain ⟨more, adds'⟩ := ih run
    exact ⟨added ++ more, adds.trans adds'⟩

/-- While a definition is lowered, hooks may add features. -/
theorem adds_of_addDefinition {definition : Definition}
    (run : lowered.addDefinition scope limit definition state = .ok (lowered', state')) :
    ∃ added, state.Adds added state' := by
  unfold addDefinition at run
  split at run
  · obtain ⟨slot, added, -, -, adds⟩ := adds_of_addFeature run
    exact ⟨added, adds⟩
  · exact adds_of_foldlM adds_of_addStatement run
  · obtain ⟨item', between, rewritten, run⟩ := CompileM.bind_eq_ok_iff.1 run
    obtain ⟨body, between', made, run⟩ := CompileM.bind_eq_ok_iff.1 run
    obtain ⟨body', lowers, last⟩ := bind_eq_ok_iff.1 made
    cases last
    obtain ⟨added, adds⟩ := rewrite_adds rewritten
    obtain ⟨more, adds'⟩ := adds_of_foldlM adds_of_addStatement run
    exact ⟨added ++ more, adds.trans adds'⟩

/-- The definitions of a program have their slots in order, and hooks may add features meanwhile. -/
theorem of_foldlM_addDefinition
    (run : program.foldlM (addDefinition scope limit) lowered state = .ok (lowered', state')) :
    ∃ defined, lowered'.slots = lowered.slots ++ defined.flatten ∧
      List.Forall₂ (Definition.HasSlots scope limit) program defined := by
  induction program generalizing lowered state with
  | nil =>
    cases run
    exact ⟨[], (List.append_nil _).symm, .nil⟩
  | cons definition rest ih =>
    rw [List.foldlM_cons] at run
    obtain ⟨next, between, first, run⟩ := CompileM.bind_eq_ok_iff.1 run
    obtain ⟨slots, same, hasSlots⟩ := of_addDefinition first
    obtain ⟨defined, same', each⟩ := ih run
    refine ⟨slots :: defined, ?_, .cons hasSlots each⟩
    rw [same', same, List.append_assoc, List.flatten_cons]

/-- Features that were added have their slots in order, and hooks may add further ones meanwhile. -/
theorem of_foldlM_addFeature {features : List (String × Expr)}
    (run : (features.foldlM (fun lowered (name, body) =>
      lowered.addFeature scope limit name body) lowered : CompileM Lowered) state =
        .ok (lowered', state')) :
    ∃ slots more, lowered'.slots = lowered.slots ++ slots ∧
      List.Forall₂ (Slot.IsFeatureOf scope limit) features slots ∧ state.Adds more state' := by
  induction features generalizing lowered state with
  | nil =>
    cases run
    exact ⟨[], [], (List.append_nil _).symm, .nil, .refl _⟩
  | cons feature rest ih =>
    rw [List.foldlM_cons] at run
    obtain ⟨next, between, first, run⟩ := CompileM.bind_eq_ok_iff.1 run
    obtain ⟨slot, added, same, isFeature, adds⟩ := adds_of_addFeature first
    obtain ⟨slots, more, same', each, adds'⟩ := ih run
    refine ⟨slot :: slots, added ++ more, ?_, .cons isFeature each, adds.trans adds'⟩
    rw [same', same, List.append_assoc, List.singleton_append]

/-- What hooks have added is taken up, what is pending before what is added meanwhile. -/
inductive Drains (scope : Scope) (limit : Nat) :
    Lowered → CompileState → List (String × Expr) → Prop where
  /-- Nothing is pending. -/
  | done {here : Lowered} {state : CompileState} (none : state.pending = []) :
    Drains scope limit here state []
  /-- What is pending is lowered, in order, and then what has been added meanwhile. -/
  | round {here there : Lowered} {state state' : CompileState} {later : List (String × Expr)}
    (run : (state.pending.foldlM (fun lowered (name, body) =>
      lowered.addFeature scope limit name body) here : CompileM Lowered)
        { state with pending := [] } = .ok (there, state'))
    (more : Drains scope limit there state' later) :
    Drains scope limit here state (state.pending ++ later)

/-- **What hooks have added is lowered**, and what they add meanwhile, until nothing is left. -/
theorem of_addPending
    (run : lowered.addPending scope limit rounds state = .ok (some lowered', state')) :
    ∃ more slots, lowered.Drains scope limit state (state.pending ++ more) ∧
      lowered'.slots = lowered.slots ++ slots ∧
      List.Forall₂ (Slot.IsFeatureOf scope limit) (state.pending ++ more) slots ∧
      state'.defined = (more.map Prod.fst).reverse ++ state.defined ∧ state'.pending = [] := by
  induction rounds generalizing lowered state with
  | zero =>
    obtain ⟨_, _, same, run⟩ := CompileM.bind_eq_ok_iff.1 run
    cases same
    split at run
    · rename_i none
      cases run
      rw [List.isEmpty_iff] at none
      refine ⟨[], [], ?_, (List.append_nil _).symm, ?_, rfl, none⟩ <;> rw [none]
      · exact .done none
      · exact .nil
    · cases run
  | succ rounds ih =>
    obtain ⟨_, _, same, run⟩ := CompileM.bind_eq_ok_iff.1 run
    cases same
    split at run
    · rename_i none
      cases run
      rw [List.isEmpty_iff] at none
      refine ⟨[], [], ?_, (List.append_nil _).symm, ?_, rfl, none⟩ <;> rw [none]
      · exact .done none
      · exact .nil
    · -- One round lowers what is pending, the others what was added meanwhile.
      obtain ⟨_, _, same, run⟩ := CompileM.bind_eq_ok_iff.1 run
      cases same
      obtain ⟨next, between, round, run⟩ := CompileM.bind_eq_ok_iff.1 run
      obtain ⟨slots, added, first, each, adds⟩ := of_foldlM_addFeature round
      obtain ⟨more, slots', drains, later, each', defined, pending⟩ := ih run
      rw [adds.pending, List.nil_append] at each' drains
      refine ⟨added ++ more, slots ++ slots', .round round drains, ?_,
        List.rel_append each each', ?_, pending⟩
      · rw [later, first, List.append_assoc]
      · rw [defined, adds.defined, List.map_append, List.reverse_append, List.append_assoc]

end Lowered

/-! ## Lowered programs -/

/-- While a program is lowered, hooks add features of these names in this order. -/
def Program.HooksAdd (scope : Scope) (limit rounds : Nat) (program : Program)
    (names : List String) : Prop :=
  ∃ found state, (do
      let lowered ← program.foldlM (Lowered.addDefinition scope limit) {}
      lowered.addPending scope limit rounds : CompileM (Option Lowered))
        { defined := program.featureNames } = .ok (found, state) ∧
    -- The latest name stands first.
    state.defined = names.reverse ++ program.featureNames

/-- What the slots of a program are: those of its definitions, those of the features that hooks have
added, and statement features. -/
structure Program.LowersTo (scope : Scope) (limit rounds : Nat) (program : Program)
    (defined : List (List Slot)) (added groups : List Slot) : Prop where
  /-- Every definition has its slots, in the order of the program. -/
  definitions : List.Forall₂ (Definition.HasSlots scope limit) program defined
  /-- Every feature that hooks have added has its slot, in the order in which they did. -/
  features : ∃ features, List.Forall₂ (Slot.IsFeatureOf scope limit) features added ∧
    program.HooksAdd scope limit rounds (features.map Prod.fst)
  /-- The last ones are statement features. -/
  grouped : ∀ slot ∈ groups, slot.isGroup = true
  /-- They list every statement once. -/
  statements : (groups.flatMap Slot.deps).Perm
    (((defined.flatten ++ added).filter Slot.isSingleStatement).map Slot.name)

/-- **The slots of a program** are those of its definitions, then those of the features that hooks
have added, then the statement features. -/
theorem lowersTo_of_lowerProgram? {slots : List Slot}
    (lowered : lowerProgram? scope limit rounds program = .ok (some slots)) :
    ∃ defined added groups, slots = defined.flatten ++ added ++ groups ∧
      program.LowersTo scope limit rounds defined added groups := by
  unfold lowerProgram? at lowered
  dsimp only at lowered
  split at lowered
  · cases lowered
  · rename_i found state run
    cases found with
    | none => cases lowered
    | some whole =>
      cases lowered
      have lists := Lowered.keeps_listsStatements.of_run run
      obtain ⟨first, between, each, pending⟩ := CompileM.bind_eq_ok_iff.1 run
      obtain ⟨defined, same, definitions⟩ := Lowered.of_foldlM_addDefinition each
      obtain ⟨added, adds⟩ := Lowered.adds_of_foldlM Lowered.adds_of_addDefinition each
      obtain ⟨more, slots, -, same', features, names, -⟩ := Lowered.of_addPending pending
      rw [adds.pending, List.nil_append] at features
      have all : whole.slots = defined.flatten ++ slots := by
        rw [same', same]
        rfl
      refine ⟨defined, slots, whole.groups.slots, by rw [← all], definitions,
        ⟨added ++ more, features, _, _, run, ?_⟩, ?_, ?_⟩
      · rw [names, adds.defined, List.map_append, List.reverse_append, List.append_assoc]
      · exact List.filter_eq_self.1 (Groups.filter_isGroup_slots whole.groups)
      · have deps : whole.groups.slots.flatMap Slot.deps = whole.groups.flatMap Prod.snd := by
          rw [Groups.slots, List.flatMap_map]
          rfl
        rw [deps, ← all]
        exact lists.names

end RuleGraph
