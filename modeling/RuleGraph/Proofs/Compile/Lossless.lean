import RuleGraph.Proofs.Compile.Added
import RuleGraph.Proofs.Compile.Numbering

/-! # What a graph says of its program

Every definition of a compiled program, every call of its rules and every feature that its hooks
define has one slot in the graph, and besides these there are only the statement features, which
list their statements in the order of the program.

* **`AreFirsts`** — names in order of their first appearance.
* **`Slot.IsConstructed.areFirsts`** — the dependencies of a slot are what its expressions refer to.
* **`Graph.Accounts`** — a graph has the slots of a program, and no others.
* **`accounts_of_compile?`** — so has every compiled graph.
-/

namespace RuleGraph

/-! ## Names in order -/

/-- Names are listed once each, in the order of their first appearance among others. -/
structure AreFirsts (names firsts : List String) : Prop where
  /-- No name is left out, and none is added. -/
  complete : ∀ name, name ∈ firsts ↔ name ∈ names
  /-- What appears first stands first. -/
  ordered : firsts.Pairwise fun first second => names.idxOf first < names.idxOf second

/-- One name more. -/
theorem AreFirsts.concat {names firsts : List String} (are : AreFirsts names firsts)
    (name : String) :
    AreFirsts (names ++ [name]) (if name ∈ firsts then firsts else firsts ++ [name]) := by
  -- What has appeared keeps its place.
  have ordered : firsts.Pairwise fun first second =>
      (names ++ [name]).idxOf first < (names ++ [name]).idxOf second := by
    refine are.ordered.imp_of_mem fun here there before => ?_
    rwa [List.idxOf_append_of_mem ((are.complete _).1 here),
      List.idxOf_append_of_mem ((are.complete _).1 there)]
  split
  · rename_i old
    refine ⟨fun other => ?_, ordered⟩
    rw [are.complete, List.mem_append, List.mem_singleton]
    exact ⟨.inl, fun h => h.elim id fun same => same ▸ (are.complete _).1 old⟩
  · rename_i new
    refine ⟨fun other => by rw [List.mem_append, List.mem_append, are.complete], ?_⟩
    refine List.pairwise_append.2 ⟨ordered, List.pairwise_singleton _ _, ?_⟩
    intro first here last single
    rw [List.mem_singleton.1 single, List.idxOf_append_of_mem ((are.complete _).1 here),
      List.idxOf_append_of_notMem fun old => new ((are.complete _).2 old)]
    exact Nat.lt_add_right _ (List.idxOf_lt_length_iff.2 ((are.complete _).1 here))

/-- Taking each member once leaves names in the order of their first appearance. -/
theorem areFirsts_distinct (names : List String) : AreFirsts names (distinct names) := by
  -- The fold adds to the names seen so far.
  have onto : ∀ rest past seen : List String, AreFirsts past seen →
      AreFirsts (past ++ rest)
        (rest.foldl (fun seen name => if name ∈ seen then seen else seen ++ [name]) seen) := by
    intro rest
    induction rest with
    | nil =>
      intro past seen are
      rwa [List.append_nil]
    | cons name rest ih =>
      intro past seen are
      rw [List.foldl_cons, List.append_cons]
      exact ih _ _ (are.concat name)
  exact onto names [] [] ⟨fun _ => .rfl, .nil⟩

/-- **The dependencies of a slot are the names that its expressions refer to**, in order of their
first appearance, those of a condition before those of the call. -/
theorem Slot.IsConstructed.areFirsts {slot : Slot} (constructed : slot.IsConstructed)
    (own : slot.isGroup = false) :
    AreFirsts (slot.expressions.flatMap SlotExpr.features) slot.deps := by
  cases constructed with
  | input name => exact areFirsts_distinct []
  | feature name body =>
    show AreFirsts ([body].flatMap SlotExpr.features) _
    rw [List.flatMap_singleton]
    exact areFirsts_distinct body.features
  | statement name feature condition call =>
    have same : (condition.toList ++ [call]).flatMap SlotExpr.features =
        (condition.map SlotExpr.features).getD [] ++ call.features := by
      rw [List.flatMap_append, List.flatMap_singleton]
      cases condition with
      | none => rfl
      | some guard => rw [Option.toList_some, List.flatMap_singleton]; rfl
    show AreFirsts ((condition.toList ++ [call]).flatMap SlotExpr.features) _
    rw [same]
    exact areFirsts_distinct _
  | group => cases own

/-! ## The statements of a statement feature -/

/-- The names of the statements of a statement feature among slots, in order. -/
def statementNames (slots : List Slot) (feature : String) : List String :=
  (slots.filter (Slot.isStatementOf feature)).map Slot.name

/-- A statement feature that is not listed has no statements. -/
theorem Groups.members_of_not_mem {groups : Groups} {feature : String}
    (unlisted : feature ∉ groups.map Prod.fst) : groups.members feature = [] := by
  induction groups with
  | nil => rfl
  | cons group rest ih =>
    obtain ⟨name, names⟩ := group
    rw [List.map_cons, List.mem_cons, not_or] at unlisted
    have differ : (feature == name) = false := by simpa using unlisted.1
    rw [members, List.lookup_cons, differ]
    exact ih unlisted.2

namespace Lowered.IsNumbered

variable {lowered : Lowered} (numbered : lowered.IsNumbered)
include numbered

/-- A statement feature is listed if and only if it has a statement. -/
theorem mem_map_fst_iff {feature : String} : feature ∈ lowered.groups.map Prod.fst ↔
    ∃ slot ∈ lowered.slots, slot.isStatementOf feature = true := by
  constructor
  · intro listed
    obtain ⟨⟨name, names⟩, member, rfl⟩ := List.mem_map.1 listed
    exact numbered.exists_statement member
  · rintro ⟨slot, member, own⟩
    by_contra unlisted
    have none := numbered.listed feature
    rw [Groups.members_of_not_mem unlisted, eq_comm, List.map_eq_nil_iff] at none
    exact List.ne_nil_of_mem (List.mem_filter.2 ⟨member, own⟩) none

/-- Statement features list their statements in order. -/
theorem slots_groups : lowered.groups.slots =
    (lowered.groups.map Prod.fst).map fun feature =>
      .group feature (statementNames lowered.slots feature) := by
  rw [Groups.slots, List.map_map]
  refine List.map_congr_left fun group member => ?_
  show Slot.group group.1 group.2 = .group group.1 (statementNames lowered.slots group.1)
  rw [statementNames, ← numbered.listed, Groups.members_of_mem numbered.keys member]

end Lowered.IsNumbered

variable {scope : Scope} {limit rounds : Nat} {program : Program} {graph : Graph}

/-- The slot of a feature is no statement. -/
theorem Slot.IsFeatureOf.isStatementOf_eq_false {entry : String × Expr} {slot : Slot}
    (isFeature : slot.IsFeatureOf scope limit entry) (feature : String) :
    slot.isStatementOf feature = false := by
  cases isFeature with
  | feature rewritten made => rcases lowerFeature_eq_ok made with ⟨-, rfl⟩ | ⟨body, -, rfl⟩ <;> rfl

/-- Features between statements make no difference. -/
theorem statementNames_append {slots added : List Slot} {features : List (String × Expr)}
    (all : List.Forall₂ (Slot.IsFeatureOf scope limit) features added) (feature : String) :
    statementNames (slots ++ added) feature = statementNames slots feature := by
  have none : added.filter (Slot.isStatementOf feature) = [] := by
    induction all with
    | nil => rfl
    | cons first _ ih => rw [List.filter_cons_of_neg (by simp [first.isStatementOf_eq_false]), ih]
  rw [statementNames, List.filter_append, none, List.append_nil, statementNames]

/-! ## Compiled graphs -/

/-- While a program is lowered, hooks define these features, in this order. -/
def Program.HooksDefine (scope : Scope) (limit rounds : Nat) (program : Program)
    (features : List (String × Expr)) : Prop :=
  -- No name that hooks define is missing.
  program.HooksAdd scope limit rounds (features.map Prod.fst) ∧
  -- They are taken up as they were defined.
  ∃ lowered state, (program.foldlM (Lowered.addDefinition scope limit) {} : CompileM Lowered)
      { defined := program.featureNames } = .ok (lowered, state) ∧
    lowered.Drains scope limit state features

/-- A graph has the slots of a program, and no others: those of its definitions, those of the
features that hooks define, and the statement features that it uses. -/
structure Graph.Accounts (scope : Scope) (limit rounds : Nat) (program : Program) (graph : Graph)
    (defined : List (List Slot)) (features : List (String × Expr)) (added : List Slot)
    (used : List String) : Prop where
  /-- These are the slots, each of them once. -/
  slots : graph.slots.Perm (defined.flatten ++ added ++
    used.map fun feature => .group feature (statementNames defined.flatten feature))
  /-- No two of them have the same name. -/
  names : (graph.slots.map Slot.name).Nodup
  /-- There is one slot for every feature that the program defines, and one statement for every call
  of its rules, in order. -/
  definitions : List.Forall₂ (Definition.HasSlots scope limit) program defined
  /-- These are the features that hooks define. -/
  hooks : program.HooksDefine scope limit rounds features
  /-- There is one slot for each of them, in order. -/
  extras : List.Forall₂ (Slot.IsFeatureOf scope limit) features added
  /-- No statement feature comes twice. -/
  once : used.Nodup
  /-- The statement features are those of the statements. -/
  grouped : ∀ feature, feature ∈ used ↔
    ∃ slot ∈ defined.flatten, slot.isStatementOf feature = true
  /-- The statements of a statement feature are numbered from zero, in order. -/
  numbers : ∀ feature, statementNames defined.flatten feature =
    (List.range (statementNames defined.flatten feature).length).map
      (CompileState.numbered feature)
  /-- Every other slot depends on the names that its expressions refer to. -/
  deps : ∀ slot ∈ graph.slots, slot.isGroup = false →
    AreFirsts (slot.expressions.flatMap SlotExpr.features) slot.deps

/-- **Lowering neither loses nor invents anything.** A compiled graph has one slot for every feature
that its program or a hook defines, one statement for every call of its rules, and one statement
feature for each that is used. Statements are numbered within their statement feature in the order
of the program, and listed in that order. Every other slot depends on just the names that its
expressions refer to, in the order of their first appearance, those of a condition before those of
the call. -/
theorem accounts_of_compile? (compiled : compile? scope limit rounds program = .ok (some graph)) :
    ∃ defined features added used,
      graph.Accounts scope limit rounds program defined features added used := by
  obtain ⟨lowered, state, run, linked⟩ := exists_lowered_of_compile? compiled
  have numbered := Lowered.keeps_isNumbered.of_run run
  have isCompiled := isCompiled_of_compile? compiled
  obtain ⟨first, between, each, pending⟩ := CompileM.bind_eq_ok_iff.1 run
  obtain ⟨defined, same, definitions⟩ := Lowered.of_foldlM_addDefinition each
  obtain ⟨early, adds⟩ := Lowered.adds_of_foldlM Lowered.adds_of_addDefinition each
  obtain ⟨more, added, drains, same', extras, names, -⟩ := Lowered.of_addPending pending
  have whole : lowered.slots = defined.flatten ++ added := by
    rw [same', same]
    rfl
  have statements : ∀ feature, statementNames lowered.slots feature =
      statementNames defined.flatten feature := by
    intro feature
    rw [whole, statementNames_append extras]
  have ofFeature : ∀ slot ∈ added, ∀ feature, slot.isStatementOf feature = false := by
    intro slot member feature
    obtain ⟨place, bound, rfl⟩ := List.getElem_of_mem member
    exact (extras.get (extras.length_eq ▸ bound) bound).isStatementOf_eq_false feature
  refine ⟨defined, between.pending ++ more, added, lowered.groups.map Prod.fst, {
    slots := ?_, names := isCompiled.built.linked.nodup, definitions := definitions,
    hooks := ⟨⟨_, _, run, ?_⟩, _, _, each, drains⟩, extras := extras, once := numbered.keys,
    grouped := fun feature => ?_, numbers := fun feature => ?_, deps := ?_ }⟩
  · rw [← whole]
    simp only [← statements]
    rw [← numbered.slots_groups]
    exact perm_of_linkSlots linked
  · rw [names, adds.defined, adds.pending, List.nil_append, List.map_append, List.reverse_append,
      List.append_assoc]
  · rw [numbered.mem_map_fst_iff, whole]
    constructor
    · rintro ⟨slot, member, own⟩
      refine ⟨slot, (List.mem_append.1 member).resolve_right fun extra => ?_, own⟩
      rw [ofFeature slot extra] at own
      cases own
    · rintro ⟨slot, member, own⟩
      exact ⟨slot, List.mem_append_left _ member, own⟩
  · have numbers := numbered.numbers feature
    rw [numbered.listed] at numbers
    rw [← statements]
    exact numbers
  · exact fun slot member => (isCompiled.slots.1 slot member).areFirsts

/-- A hook that defines a feature and stands for it, and statements of two statement features. -/
def Scope.ledger : Scope where
  catalog := { entries := [
    .ofRegistration none {
      name := "derive"
      kind := .custom fun _ => .define "Derived" (.const (.int 1)) fun _ =>
        .finish (.ok (.feature "Derived")) },
    .ofRegistration none {
      name := "note", kind := .statement "Notes" fun _ _ => .finish (.ok ()) },
    .ofRegistration none {
      name := "send", kind := .statement "Mails" fun _ _ => .finish (.ok ()) }] }

/-- Statements of two statement features in turn, features that they refer to twice, and a feature
that a hook defines. -/
def Program.ledger : Program :=
  [.rule none [.call "note" [.feature "A"], .call "send" []],
    .feature "A" (.custom "derive" ""),
    .rule (some (.feature "B")) [.call "note" [.feature "A", .feature "B"]],
    .input "B"]

/-- The slots of their graph. -/
def Graph.ledger : Graph where
  slots := [.statement "Mails#0" "Mails" none (.call "send" []), .input "B",
    .feature "Derived" (.const (.int 1)), .feature "A" (.feature "Derived"),
    .statement "Notes#0" "Notes" none (.call "note" [.feature "A"]),
    .statement "Notes#1" "Notes" (some (.feature "B")) (.call "note" [.feature "A", .feature "B"]),
    .group "Notes" ["Notes#0", "Notes#1"], .group "Mails" ["Mails#0"]]
  edges := [[], [], [], [2], [3], [1, 3], [4, 5], [0]]
  cycles := [none, none, none, none, none, none, none, none]

/-- The two statement features list their statements, and the second note depends on its condition
first. -/
theorem accounts_of_ledger :
    compile? .ledger 10 2 .ledger = .ok (some .ledger) ∧
    ∃ defined features added used,
      Graph.ledger.Accounts .ledger 10 2 .ledger defined features added used := by
  have compiled : compile? .ledger 10 2 .ledger = .ok (some .ledger) := by decide +kernel
  exact ⟨compiled, accounts_of_compile? compiled⟩

end RuleGraph
