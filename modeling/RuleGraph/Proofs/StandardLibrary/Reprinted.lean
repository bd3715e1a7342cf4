import RuleGraph.Proofs.Compile.Renumbering
import RuleGraph.Proofs.Sequence.Places
import RuleGraph.Proofs.Source.Printed
import RuleGraph.Proofs.StandardLibrary.Names

/-! # Compiling what was written for a graph

The text of a compiled graph can be compiled again. The slots come in the same order, and are the
same ones except for the numbers of statements: these count statements in the order of the text,
which is that of the graph, while in the graph they count them in the order of the program. So the
graph comes back just if both orders agree.

* **`areNumberable_of_linkSlots`** — the slots of a graph can be numbered anew.
* **`parse_write_compiles`** — what comes of compiling the text of a graph.
* **`parse_write_renumbers`** — a graph that does not come back.
-/

namespace RuleGraph

open Source Slot StandardLibrary

variable {package : Option String} {limit rounds : Nat} {program : Program} {graph : Graph}

/-- Names that are read hold no numbers. -/
theorem not_hasNumber_of_isIdentifier {name : String} (isIdentifier : IsIdentifier name) :
    ¬HasNumber name := by
  obtain ⟨first, others, same, start, inside⟩ := isIdentifier
  rw [HasNumber, same]
  intro member
  rcases List.mem_cons.1 member with rfl | later
  · exact absurd start (by decide)
  · exact absurd (inside _ later) (by decide)

/-- What a written expression refers to are features with proper names. -/
theorem SlotExpr.isFeatureName_of_mem_features {body : SlotExpr} (writable : body.toExpr.IsWritable)
    {name : String} (member : name ∈ body.features) : IsFeatureName name := by
  induction body with
  | const => cases member
  | feature =>
    cases writable with
    | feature proper => exact List.mem_singleton.1 member ▸ proper
  | list items ih =>
    cases writable with
    | list each =>
      obtain ⟨item, listed, here⟩ := mem_featuresOfAll.1 member
      refine ih item listed (each _ ?_) here
      rw [toExprs_eq_map]
      exact List.mem_map_of_mem listed
  | call function args ih =>
    cases writable with
    | call _ each =>
      obtain ⟨arg, listed, here⟩ := mem_featuresOfAll.1 member
      refine ih arg listed (each _ ?_) here
      rw [toExprs_eq_map]
      exact List.mem_map_of_mem listed

namespace Slot

variable {slot : Slot}

/-- The expressions of a slot that can be written can be written. -/
theorem IsWritable.expressions (writable : slot.IsWritable) :
    ∀ body ∈ slot.expressions, body.toExpr.IsWritable := by
  intro body member
  unfold Slot.expressions at member
  have defined : ∀ item, slot.definition? = some item → item.IsWritable := writable
  unfold definition? at defined
  split at member
  · cases member
  · rename_i kind
    rw [kind] at defined
    cases defined _ rfl with
    | feature _ writable => exact List.mem_singleton.1 member ▸ writable
  · rename_i kind
    rw [kind] at defined
    cases defined _ rfl with
    | rule holds _ each =>
      rcases List.mem_append.1 member with held | called
      · exact holds _ (Option.mem_map_of_mem _ (Option.mem_toList.1 held))
      · exact List.mem_singleton.1 called ▸ each _ (List.mem_singleton_self _)
  · cases member

/-- A slot that can be written depends on features with proper names. -/
theorem IsWritable.isFeatureName (writable : slot.IsWritable) (constructed : slot.IsConstructed)
    (other : slot.isGroup = false) {dep : String} (member : dep ∈ slot.deps) :
    IsFeatureName dep := by
  obtain ⟨body, inside, here⟩ := Graph.exists_mem_features_of_mem_deps constructed other member
  exact SlotExpr.isFeatureName_of_mem_features (writable.expressions body inside) here

/-- A feature that can be written has a proper name. -/
theorem IsWritable.isIdentifier (writable : slot.IsWritable) (other : slot.isGroup = false)
    (other' : slot.isSingleStatement = false) : IsIdentifier slot.name := by
  have defined : ∀ item, slot.definition? = some item → item.IsWritable := writable
  unfold definition? at defined
  cases kind : slot.kind with
  | input =>
    rw [kind] at defined
    cases defined _ rfl with
    | feature named => exact named
  | feature body =>
    rw [kind] at defined
    cases defined _ rfl with
    | feature named => exact named
  | statement =>
    rw [isSingleStatement, kind] at other'
    cases other'
  | group =>
    rw [isGroup, kind] at other
    cases other

end Slot

section Linked

variable {lowered : Lowered}

/-- Linking neither adds nor drops statements. -/
theorem countStatements_of_linkSlots
    (linked : linkSlots (lowered.slots ++ lowered.groups.slots) = .ok graph) :
    countStatements graph.slots = countStatements lowered.slots := by
  have none : lowered.groups.slots.countP isSingleStatement = 0 := by
    rw [List.countP_eq_length_filter, Groups.filter_isSingleStatement_slots]
    rfl
  rw [countStatements, (perm_of_linkSlots linked).countP_eq, List.countP_append, none]
  rfl

/-- Linking keeps the only statement feature. -/
theorem filter_isGroup_of_linkSlots {feature : String} {count : Nat}
    (ungrouped : ∀ slot ∈ lowered.slots, slot.isGroup = false)
    (groups : lowered.groups = .counted feature count)
    (linked : linkSlots (lowered.slots ++ lowered.groups.slots) = .ok graph) :
    graph.slots.filter isGroup = lowered.groups.slots := by
  have others : lowered.slots.filter isGroup = [] := by
    refine List.filter_eq_nil_iff.2 fun slot member => ?_
    rw [ungrouped slot member]
    exact Bool.false_ne_true
  have among := (perm_of_linkSlots linked).filter isGroup
  rw [List.filter_append, others, Groups.filter_isGroup_slots, List.nil_append, groups] at among
  rw [groups]
  cases count with
  | zero => exact List.perm_nil.1 among
  | succ => exact List.perm_singleton.1 among

/-- **The slots of a compiled graph can be numbered anew**, if they can be written. -/
theorem areNumberable_of_linkSlots (numbered : lowered.IsNumbered)
    (ungrouped : ∀ slot ∈ lowered.slots, slot.isGroup = false)
    (writable : ∀ slot ∈ lowered.slots, slot.IsWritable)
    (linked : linkSlots (lowered.slots ++ lowered.groups.slots) = .ok graph)
    (areLowered : ∀ slot ∈ graph.slots, slot.IsLowered ⟨.standard, package⟩)
    (constructed : ∀ slot ∈ graph.slots, slot.IsConstructed) :
    AreNumberable logStatements graph.slots ∧
      lowered.groups.slots = graph.slots.filter isGroup := by
  have perm := perm_of_linkSlots linked
  have statements : AreStatementsOf logStatements graph.slots := fun slot member _ _ _ =>
    feature_of_isLowered_standard (areLowered slot member)
  have only : AreStatementsOf logStatements lowered.slots := fun slot member =>
    statements slot (perm.mem_iff.2 (List.mem_append_left _ member))
  have groups := numbered.groups_eq only
  have whole := filter_isGroup_of_linkSlots ungrouped groups linked
  have slots : ∀ slot ∈ graph.slots, slot.isGroup = false → slot ∈ lowered.slots := by
    intro slot member other
    rcases List.mem_append.1 (perm.mem_iff.1 member) with here | there
    · exact here
    · rw [← whole] at there
      rw [(List.mem_filter.1 there).2] at other
      cases other
  have named : AreNamed graph.slots := by
    intro slot member
    cases single : slot.isSingleStatement with
    | true =>
      obtain ⟨feature, condition, call, kind⟩ := exists_kind_of_isSingleStatement single
      have own : slot.isStatementOf feature = true := by
        rw [isStatementOf, kind]
        exact decide_eq_true rfl
      have here := slots slot member (isGroup_of_isSingleStatement single)
      exact ⟨fun _ => rfl, fun _ => hasNumber_of_isNumbered numbered here own⟩
    | false =>
      refine ⟨fun has => absurd has ?_, fun isSingle => absurd isSingle Bool.false_ne_true⟩
      cases group : slot.isGroup with
      | false =>
        exact not_hasNumber_of_isIdentifier
          ((writable slot (slots slot member group)).isIdentifier group single)
      | true =>
        have listed : slot ∈ lowered.groups.slots := whole ▸ List.mem_filter.2 ⟨member, group⟩
        rw [groups, Groups.counted] at listed
        split at listed
        · cases listed
        · rw [List.mem_singleton.1 listed]
          show '#' ∉ logStatements.toList
          decide
  refine ⟨⟨statements, named, fun slot member other dep inside => ?_, ?_⟩, whole.symm⟩
  · have proper := (writable slot (slots slot member other)).isFeatureName
      (constructed slot member) other inside
    exact not_hasNumber_of_isIdentifier proper.1.1
  · rw [whole, groups, countStatements_of_linkSlots linked]

end Linked

/-- **What is written for a compiled graph can be compiled again**: it is read as a program, the
program compiles, and the slots come in the same order. They are the same ones, except that their
statements are numbered in this order. So the graph comes back if and only if the statements stand
in it in the order in which their statement feature lists them. -/
theorem parse_write_compiles (plain : ∀ definition ∈ program, definition.IsPlain)
    (compiled : compile? ⟨.standard, package⟩ limit rounds program = .ok (some graph)) :
    ∃ program' graph', parse graph.write = .ok program' ∧
      compile? ⟨.standard, package⟩ limit rounds program' = .ok (some graph') ∧
      graph'.slots = Slot.renumber 0 graph.slots ∧
      (graph' = graph ↔ (graph.slots.filter isSingleStatement).map Slot.name =
        (graph.slots.filter isGroup).flatMap Slot.deps) := by
  obtain ⟨lowered, numbered, ungrouped, writable, linked⟩ := exists_lowered_of_isPlain
    Scope.isTame_standard Scope.hasProperNames_standard plain compiled
  have areLowered := isLowered_of_compile? compiled
  have isCompiled := isCompiled_of_compile? compiled
  obtain ⟨numberable, groups⟩ := areNumberable_of_linkSlots numbered ungrouped writable linked
    areLowered isCompiled.slots.1
  have perm := perm_of_linkSlots linked
  rw [groups] at linked
  obtain ⟨graph', linked', slots⟩ := linkSlots_renumber linked ungrouped numberable
  have written := @Graph.parse_write graph fun slot member item defined => by
    have listed := perm.mem_iff.1 member
    rcases List.mem_append.1 listed with here | there
    · exact writable slot here item defined
    · obtain ⟨group, -, rfl⟩ := List.mem_map.1 there
      cases defined
  have put : graph.slots.foldl Lowered.put {} =
      ⟨Slot.renumber 0 (graph.slots.filter fun slot => !slot.isGroup),
        .counted logStatements (countStatements graph.slots)⟩ := by
    have all := @Lowered.foldl_put logStatements graph.slots [] numberable.statements 0
    rwa [List.nil_append, Nat.zero_add] at all
  have compiled' : compile? ⟨.standard, package⟩ limit rounds
      (graph.slots.filterMap Slot.definition?) = .ok (some graph') :=
    compile?_filterMap_definition? Catalog.hasPlainPackages_standard Scope.isIdle_input_standard
      areLowered rounds put (numberable.groups ▸ linked')
  refine ⟨_, graph', written, compiled', slots, ?_⟩
  have same : graph' = graph ↔ Slot.renumber 0 graph.slots = graph.slots := by
    refine ⟨fun same => ?_, fun same => ?_⟩
    · rw [← slots, same]
    · exact isCompiled.built.ext (isBuilt_of_linkSlots linked').1 (slots.trans same)
  rw [same, renumber_eq_self_iff numberable.statements, ← List.range_eq_range',
    numberable.flatMap_deps]

/-! ## Two statements -/

/-- Two statements, of which only the first one waits for a feature. -/
def Program.twoLogs : Program :=
  [.rule none [.call "log" [.const (.text "a"), .feature "A"]],
    .rule none [.call "log" [.const (.text "b")]],
    .input "A"]

/-- The graph of two statements with numbers: the one that waits comes last. -/
def Graph.twoLogs (numberA numberB : Nat) (members : List Nat) : Graph where
  slots := [
    .statement (CompileState.numbered logStatements numberB) logStatements none
      (.call "log" [.const (.text "b")]),
    .input "A",
    .statement (CompileState.numbered logStatements numberA) logStatements none
      (.call "log" [.const (.text "a"), .feature "A"]),
    .group logStatements [CompileState.numbered logStatements 0,
      CompileState.numbered logStatements 1]]
  edges := [[], [], [1], members]
  cycles := [none, none, none, none]

/-- The text of a graph need not compile to the graph: here the statements change their numbers, and
so the order in which their statement feature lists them. -/
theorem parse_write_renumbers :
    parse "EXECUTE log(\"a\", A); EXECUTE log(\"b\"); LET A := input();" = .ok .twoLogs ∧
    compile? ⟨.standard, none⟩ 1 1 .twoLogs = .ok (some (.twoLogs 0 1 [2, 0])) ∧
    (∃ program, parse (Graph.twoLogs 0 1 [2, 0]).write = .ok program ∧
      compile? ⟨.standard, none⟩ 1 1 program = .ok (some (.twoLogs 1 0 [0, 2]))) ∧
    (Graph.twoLogs 1 0 [0, 2]).slots ≠ (Graph.twoLogs 0 1 [2, 0]).slots := by
  refine ⟨by decide +kernel, by decide +kernel, ⟨?_, ?_, ?_⟩, by decide +kernel⟩
  · exact (Graph.twoLogs 0 1 [2, 0]).slots.filterMap Slot.definition?
  · decide +kernel
  · decide +kernel

/-- The program is plain. -/
theorem Program.isPlain_twoLogs : ∀ definition ∈ Program.twoLogs, definition.IsPlain := by
  have text : ∀ value, (Expr.const (.text value)).IsPlain := fun value => .const (.text value)
  have feature : (Expr.feature "A").IsPlain := .feature (by decide)
  have named : IsIdentifier "A" := by decide
  intro definition member
  simp only [Program.twoLogs, List.mem_cons, List.not_mem_nil, or_false] at member
  rcases member with rfl | rfl | rfl
  · refine .rule (by simp) ?_
    rw [List.forall_mem_singleton]
    exact .call (by simp [text, feature])
  · refine .rule (by simp) ?_
    rw [List.forall_mem_singleton]
    exact .call (by simp [text])
  · exact .feature named (.call (by simp))

/-- The text of the graph of two statements compiles. -/
theorem parse_write_compiles_of_twoLogs :
    compile? ⟨.standard, none⟩ 1 1 .twoLogs = .ok (some (.twoLogs 0 1 [2, 0])) ∧
    ∃ program graph, parse (Graph.twoLogs 0 1 [2, 0]).write = .ok program ∧
      compile? ⟨.standard, none⟩ 1 1 program = .ok (some graph) ∧
      graph.slots = Slot.renumber 0 (Graph.twoLogs 0 1 [2, 0]).slots := by
  have compiled : compile? ⟨.standard, none⟩ 1 1 .twoLogs = .ok (some (.twoLogs 0 1 [2, 0])) := by
    decide +kernel
  obtain ⟨program, graph, parsed, again, slots, -⟩ :=
    parse_write_compiles Program.isPlain_twoLogs compiled
  exact ⟨compiled, program, graph, parsed, again, slots⟩

end RuleGraph
