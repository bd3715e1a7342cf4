import RuleGraph.Proofs.Catalog.Names
import RuleGraph.Proofs.Compile.Settled
import RuleGraph.Proofs.Compile.Groups

/-! # Compilation without custom hooks

Only hooks that take raw text can ask what a program defines and add features to it. Where there
are none, a definition puts the same slots wherever it is lowered: they depend on the statements
that are numbered so far, and on nothing else.

* **`Catalog.HasNoCustomHooks`** — no hook takes raw text.
* **`rewrite_isSteady`** — an expression is then rewritten to the same in every state.
* **`Lowered.Puts`**, **`Lowered.PutsAll`** — the slots that steps put behind any others.
* **`Lowered.addDefinition_isSteady`** — a definition that is lowered somewhere puts its slots
  everywhere.
* **`lowerProgram?_eq_ok_iff`** — the slots of a program are those that its definitions put.
-/

namespace RuleGraph

/-- No hook of a catalog takes raw text. -/
def Catalog.HasNoCustomHooks (catalog : Catalog) : Prop :=
  ∀ entry ∈ catalog.entries, ∀ hook, entry.kind ≠ .custom hook

variable {scope : Scope} {limit rounds : Nat}

/-! ## Rewriting -/

/-- What a pass comes to in one state, it comes to in every state. -/
def PassM.IsSteady {α : Type} (steps : PassM α) : Prop :=
  ∀ ⦃pass pass' : Pass⦄ ⦃a : α⦄, steps pass = .ok (a, pass') →
    pass'.state = pass.state ∧
      ∀ state, steps { pass with state } = .ok (a, { pass' with state })

/-- What compilation steps come to in one state, they come to in every state, which they leave. -/
def CompileM.IsSteady {α : Type} (steps : CompileM α) : Prop :=
  ∀ ⦃state state' : CompileState⦄ ⦃a : α⦄, steps state = .ok (a, state') →
    state' = state ∧ ∀ other, steps other = .ok (a, other)

/-- A pass over several expressions is steady if one over each of them is. -/
theorem rewriteAll_isSteady {items : List Expr}
    (each : ∀ item ∈ items, (rewriteOnce scope item).IsSteady) :
    (rewriteAll scope items).IsSteady := by
  intro pass pass' results ran
  induction items generalizing pass results with
  | nil =>
    cases ran
    exact ⟨rfl, fun _ => rfl⟩
  | cons item rest ih =>
    obtain ⟨onItem, onRest⟩ := List.forall_mem_cons.1 each
    rw [rewriteAll_cons] at ran
    obtain ⟨⟨first, between⟩, here, ran⟩ := bind_eq_ok_iff.1 ran
    obtain ⟨⟨others, last⟩, later, same⟩ := map_eq_ok_iff.1 ran
    cases same
    obtain ⟨leaves, here'⟩ := onItem here
    obtain ⟨leaves', later'⟩ := ih onRest later
    refine ⟨leaves'.trans leaves, fun state => ?_⟩
    rw [rewriteAll_cons]
    exact bind_eq_ok_iff.2 ⟨_, here' state, map_eq_ok_iff.2 ⟨_, later' state, rfl⟩⟩

/-- A hook that replaces a call knows nothing but the call. -/
theorem rewriteCall_isSteady (node : CallNode) : (rewriteCall scope node).IsSteady := by
  intro pass pass' result ran
  unfold rewriteCall at ran ⊢
  split at ran
  · cases ran
    exact ⟨rfl, fun _ => rfl⟩
  · split at ran
    · split at ran
      · rename_i made
        cases ran
        exact ⟨rfl, fun _ => rfl⟩
      · cases ran
    · cases ran
      exact ⟨rfl, fun _ => rfl⟩

section

variable (unhooked : scope.catalog.HasNoCustomHooks)
include unhooked

/-- No call with raw text is replaced. -/
theorem rewriteCustom_isSteady (node : CustomNode) : (rewriteCustom scope node).IsSteady := by
  intro pass pass' result ran
  unfold rewriteCustom at ran
  split at ran
  · cases ran
  · rename_i found
    split at ran
    · rename_i kind
      exact absurd kind (unhooked _ (Scope.mem_of_lookup found) _)
    · cases ran

/-- A pass over an expression is steady. -/
theorem rewriteOnce_isSteady (body : Expr) : (rewriteOnce scope body).IsSteady := by
  induction body with
  | const | feature =>
    intro pass pass' result ran
    rw [rewriteOnce] at ran ⊢
    cases ran
    exact ⟨rfl, fun _ => rfl⟩
  | list items ih =>
    intro pass pass' result ran
    rw [rewriteOnce_list] at ran
    obtain ⟨reply, all, same⟩ := map_eq_ok_iff.1 ran
    cases same
    obtain ⟨leaves, all'⟩ := rewriteAll_isSteady ih all
    refine ⟨leaves, fun state => ?_⟩
    rw [rewriteOnce_list]
    exact map_eq_ok_iff.2 ⟨_, all' state, rfl⟩
  | call function args ih =>
    intro pass pass' result ran
    rw [rewriteOnce_call] at ran
    obtain ⟨⟨args', between⟩, all, replaced⟩ := bind_eq_ok_iff.1 ran
    obtain ⟨leaves, all'⟩ := rewriteAll_isSteady ih all
    obtain ⟨leaves', replaced'⟩ := rewriteCall_isSteady _ replaced
    refine ⟨leaves'.trans leaves, fun state => ?_⟩
    rw [rewriteOnce_call]
    exact bind_eq_ok_iff.2 ⟨_, all' state, replaced' state⟩
  | custom function source =>
    rw [rewriteOnce]
    exact rewriteCustom_isSteady unhooked _

/-- **An expression is rewritten to the same in every state**, which is left as it is. -/
theorem rewrite_isSteady (body : Expr) : CompileM.IsSteady (rewrite scope limit body) := by
  have onPasses : ∀ (passes : Nat) (last : Option String) (body : Expr),
      CompileM.IsSteady (rewritePasses scope limit passes last body) := by
    intro passes
    induction passes with
    | zero =>
      intro last body state state' result ran
      cases ran
    | succ passes ih =>
      intro last body state state' result ran
      rw [rewritePasses] at ran
      split at ran
      · cases ran
      · rename_i once
        cases ran
        obtain ⟨leaves, once'⟩ := rewriteOnce_isSteady unhooked body once
        refine ⟨leaves, fun other => ?_⟩
        rw [rewritePasses, once' other]
      · rename_i once
        obtain ⟨leaves, once'⟩ := rewriteOnce_isSteady unhooked body once
        obtain ⟨leaves', more⟩ := ih _ _ ran
        refine ⟨leaves'.trans leaves, fun other => ?_⟩
        rw [rewritePasses, once' other]
        exact more other
  exact onPasses _ _ body

end

/-! ## Slots that are put behind others -/

namespace Lowered

/-- Steps put slots behind whatever slots there are, and go on to other statement features. -/
def Puts (steps : Lowered → CompileM Lowered) (groups : Groups) (slots : List Slot)
    (groups' : Groups) : Prop :=
  ∀ before state, steps ⟨before, groups⟩ state = .ok (⟨before ++ slots, groups'⟩, state)

/-- Steps for each member of a list put slots one after the other. -/
inductive PutsAll {α : Type} (step : Lowered → α → CompileM Lowered) :
    List α → Groups → List Slot → Groups → Prop where
  /-- There are none. -/
  | nil {groups} : PutsAll step [] groups [] groups
  /-- The first steps put theirs, then the others do. -/
  | cons {a rest groups slots between more groups'}
    (first : Puts (fun lowered => step lowered a) groups slots between)
    (later : PutsAll step rest between more groups') :
    PutsAll step (a :: rest) groups (slots ++ more) groups'

/-- Steps that come to something come to it wherever they are taken: they put slots. -/
def IsSteady (steps : Lowered → CompileM Lowered) : Prop :=
  ∀ ⦃lowered lowered' : Lowered⦄ ⦃state state' : CompileState⦄,
    steps lowered state = .ok (lowered', state') →
      state' = state ∧ ∃ slots, lowered'.slots = lowered.slots ++ slots ∧
        Puts steps lowered.groups slots lowered'.groups

variable {α : Type} {step : Lowered → α → CompileM Lowered} {members : List α}
  {lowered lowered' : Lowered} {state state' : CompileState} {groups groups' : Groups}
  {slots : List Slot}

/-- Slots that are put one after the other are put. -/
theorem PutsAll.puts (all : PutsAll step members groups slots groups') :
    Puts (fun lowered => members.foldlM step lowered) groups slots groups' := by
  induction all with
  | nil =>
    intro before state
    rw [List.append_nil]
    rfl
  | cons first later ih =>
    intro before state
    show List.foldlM step _ (_ :: _) state = _
    rw [List.foldlM_cons, ← List.append_assoc]
    exact CompileM.bind_eq_ok_iff.2 ⟨_, _, first before state, ih _ state⟩

/-- Steady steps put their slots one after the other. -/
theorem putsAll_of_foldlM (steady : ∀ a ∈ members, IsSteady fun lowered => step lowered a)
    (ran : members.foldlM step lowered state = .ok (lowered', state')) :
    state' = state ∧ ∃ slots, lowered'.slots = lowered.slots ++ slots ∧
      PutsAll step members lowered.groups slots lowered'.groups := by
  induction members generalizing lowered state with
  | nil =>
    cases ran
    exact ⟨rfl, [], (List.append_nil _).symm, .nil⟩
  | cons a rest ih =>
    obtain ⟨onFirst, onRest⟩ := List.forall_mem_cons.1 steady
    rw [List.foldlM_cons] at ran
    obtain ⟨next, between, first, later⟩ := CompileM.bind_eq_ok_iff.1 ran
    obtain ⟨rfl, slots, same, puts⟩ := onFirst first
    obtain ⟨rfl, more, same', all⟩ := ih onRest later
    refine ⟨rfl, slots ++ more, ?_, .cons puts all⟩
    rw [same', same, List.append_assoc]

section

variable (unhooked : scope.catalog.HasNoCustomHooks)
include unhooked

/-- A feature that is lowered somewhere puts its slot everywhere, whatever statements there
are. -/
theorem exists_puts_of_addFeature {name : String} {body : Expr}
    (ran : lowered.addFeature scope limit name body state = .ok (lowered', state')) :
    state' = state ∧ ∃ slot, lowered' = ⟨lowered.slots ++ [slot], lowered.groups⟩ ∧
      ∀ groups, Puts (fun lowered => lowered.addFeature scope limit name body) groups [slot]
        groups := by
  obtain ⟨body', between, rewritten, ran⟩ := CompileM.bind_eq_ok_iff.1 ran
  obtain ⟨slot, between', made, ran⟩ := CompileM.bind_eq_ok_iff.1 ran
  cases ran
  obtain ⟨made', same, last⟩ := bind_eq_ok_iff.1 made
  cases last
  obtain ⟨rfl, everywhere⟩ := rewrite_isSteady unhooked body rewritten
  refine ⟨rfl, slot, rfl, fun groups before state => ?_⟩
  refine CompileM.bind_eq_ok_iff.2 ⟨body', state, everywhere state, ?_⟩
  exact CompileM.bind_eq_ok_iff.2 ⟨slot, state, bind_eq_ok_iff.2 ⟨slot, same, rfl⟩, rfl⟩

/-- A statement that is lowered somewhere puts its slot wherever its number is the same. -/
theorem addStatement_isSteady (condition : Option SlotExpr) (call : Expr) :
    IsSteady fun lowered => lowered.addStatement scope limit condition call := by
  intro lowered lowered' state state' ran
  cases call with
  | call function args =>
    obtain ⟨call', between, rewritten, ran⟩ := CompileM.bind_eq_ok_iff.1 ran
    obtain ⟨⟨slot, groups⟩, between', made, ran⟩ := CompileM.bind_eq_ok_iff.1 ran
    cases ran
    obtain ⟨made', same, last⟩ := bind_eq_ok_iff.1 made
    cases last
    obtain ⟨rfl, everywhere⟩ := rewrite_isSteady unhooked _ rewritten
    refine ⟨rfl, [slot], rfl, fun before state => ?_⟩
    refine CompileM.bind_eq_ok_iff.2 ⟨call', state, everywhere state, ?_⟩
    exact CompileM.bind_eq_ok_iff.2
      ⟨(slot, groups), state, bind_eq_ok_iff.2 ⟨_, same, rfl⟩, rfl⟩
  | const | feature | list | custom => cases ran

/-- **A definition that is lowered somewhere puts its slots everywhere** that its statements have
the same numbers. -/
theorem addDefinition_isSteady (definition : Definition) :
    IsSteady fun lowered => lowered.addDefinition scope limit definition := by
  have statements : ∀ (condition : Option SlotExpr) (calls : List Expr),
      IsSteady fun lowered => calls.foldlM (addStatement scope limit condition) lowered := by
    intro condition calls lowered lowered' state state' ran
    obtain ⟨same, slots, behind, all⟩ :=
      putsAll_of_foldlM (fun call _ => addStatement_isSteady unhooked condition call) ran
    exact ⟨same, slots, behind, all.puts⟩
  cases definition with
  | feature name body =>
    intro lowered lowered' state state' ran
    obtain ⟨same, slot, rfl, puts⟩ := exists_puts_of_addFeature unhooked ran
    exact ⟨same, [slot], rfl, puts lowered.groups⟩
  | rule condition calls =>
    cases condition with
    | none => exact statements none calls
    | some condition =>
      intro lowered lowered' state state' ran
      obtain ⟨item, between, rewritten, ran⟩ := CompileM.bind_eq_ok_iff.1 ran
      obtain ⟨body, between', made, each⟩ := CompileM.bind_eq_ok_iff.1 ran
      obtain ⟨body', same, last⟩ := bind_eq_ok_iff.1 made
      cases last
      obtain ⟨rfl, everywhere⟩ := rewrite_isSteady unhooked _ rewritten
      obtain ⟨rfl, slots, behind, puts⟩ := statements (some body) calls each
      refine ⟨rfl, slots, behind, fun before state => ?_⟩
      refine CompileM.bind_eq_ok_iff.2 ⟨item, state, everywhere state, ?_⟩
      exact CompileM.bind_eq_ok_iff.2
        ⟨body, state, bind_eq_ok_iff.2 ⟨body, same, rfl⟩, puts before state⟩

end

/-- What the definitions of a program put is what the program is lowered to. No features are to be
lowered after them. -/
theorem PutsAll.ran {program : Program}
    (all : PutsAll (addDefinition scope limit) program [] slots groups)
    (none : state.pending = []) (rounds : Nat) :
    (do
      let lowered ← program.foldlM (addDefinition scope limit) {}
      lowered.addPending scope limit rounds : CompileM (Option Lowered)) state =
        .ok (some ⟨slots, groups⟩, state) :=
  CompileM.bind_eq_ok_iff.2 ⟨_, _, all.puts [] state, addPending_of_eq_nil none⟩

/-- The slots that the definitions of a program put are no statement features. -/
theorem PutsAll.isGroup_eq_false {program : Program}
    (all : PutsAll (addDefinition scope limit) program [] slots groups) :
    ∀ slot ∈ slots, slot.isGroup = false := by
  have none : ({ defined := [] } : CompileState).pending = [] := rfl
  exact (keeps_listsStatements.of_run (all.ran none 0)).ungrouped

end Lowered

/-- **The slots of a program are those that its definitions put**, and the statement features. -/
theorem lowerProgram?_eq_ok_iff (unhooked : scope.catalog.HasNoCustomHooks) {program : Program}
    {found : Option (List Slot)} :
    lowerProgram? scope limit rounds program = .ok found ↔
      ∃ slots groups, Lowered.PutsAll (Lowered.addDefinition scope limit) program [] slots groups ∧
        found = some (slots ++ groups.slots) := by
  unfold lowerProgram?
  dsimp only
  constructor
  · intro made
    split at made
    · cases made
    · rename_i lowered? state ran
      cases made
      obtain ⟨lowered, between, each, pending⟩ := CompileM.bind_eq_ok_iff.1 ran
      obtain ⟨rfl, slots, behind, all⟩ := Lowered.putsAll_of_foldlM
        (fun definition _ => Lowered.addDefinition_isSteady unhooked definition) each
      rw [Lowered.addPending_of_eq_nil rfl] at pending
      cases pending
      exact ⟨slots, lowered.groups, all, by rw [Option.map_some, behind]; rfl⟩
  · rintro ⟨slots, groups, all, rfl⟩
    rw [all.ran rfl rounds]
    rfl

end RuleGraph
