import RuleGraph.Proofs.Compile.CallSites
import RuleGraph.Proofs.Compile.Rearranged
import RuleGraph.Proofs.Graph.Rearranged
import RuleGraph.Proofs.Relocation.Host

/-! # Features in any order

Where no hook takes raw text, it does not matter in which order a program defines its features. Only
rules have an order that tells, since their statements are numbered and run in it.

* **`compile?_rearranged`** — a rearranged program is compiled to the same slots.
* **`features_in_any_order`** — and whatever a host asks of its executions, it is told the same.
-/

namespace RuleGraph

variable {scope : Scope} {limit rounds : Nat} {program other : Program} {graph : Graph}

/-- **A rearranged program is compiled to the same slots**, with the statement features in the same
order. -/
theorem compile?_rearranged (unhooked : scope.catalog.HasNoCustomHooks)
    (rearranged : program.Rearranged other) {found : Option Graph}
    (compiled : compile? scope limit rounds program = .ok found) :
    ∃ graph graph', found = some graph ∧ compile? scope limit rounds other = .ok (some graph') ∧
      graph'.slots.Perm graph.slots ∧
      graph'.slots.filter Slot.isGroup = graph.slots.filter Slot.isGroup := by
  obtain ⟨slots?, lowered, rest⟩ := bind_eq_ok_iff.1 compiled
  obtain ⟨slots, slots', groups, rfl, lowered', perm, ungrouped⟩ :=
    lowerProgram?_rearranged unhooked rearranged lowered
  obtain ⟨graph, linked, same⟩ := bind_eq_ok_iff.1 rest
  cases same
  have grouped : ∀ slot ∈ groups.slots, slot.isGroup = true := fun slot member =>
    List.of_mem_filter (groups.filter_isGroup_slots.symm ▸ member)
  obtain ⟨graph', linked', perm', order⟩ := linkSlots_rearranged ungrouped grouped perm linked
  refine ⟨graph, graph', rfl, ?_, perm', order⟩
  exact bind_eq_ok_iff.2 ⟨_, lowered', bind_eq_ok_iff.2 ⟨graph', linked', rfl⟩⟩

/-- A compiled graph has no cycle. -/
theorem isAcyclic_of_compile? (compiled : compile? scope limit rounds program = .ok (some graph)) :
    graph.isAcyclic = true :=
  (Graph.isAcyclic_iff_grounded (isCompiled_of_compile? compiled).built.linked).2
    fun _ => grounded_of_compile? compiled

/-- **Features may be defined in any order.** If two programs have the same definitions, and the
rules among them in the same order, the one compiles if and only if the other does, as long as no
hook takes raw text. Their graphs have the same slots, each with the same definition and the same
dependencies under its name, in another order. Whatever a host asks of their executions, one call
after the other, it is told the same: the outcomes of slots, what running the statements comes to,
and what becomes of the event and of the manipulator meanwhile. -/
theorem features_in_any_order (scope : Scope) (limit rounds : Nat) {program other : Program}
    (unhooked : scope.catalog.HasNoCustomHooks) (rearranged : program.Rearranged other) :
    compile? scope limit rounds program ≠ .ok none ∧
    ((∃ graph, compile? scope limit rounds program = .ok (some graph)) ↔
      ∃ graph, compile? scope limit rounds other = .ok (some graph)) ∧
    ∀ graph graph', compile? scope limit rounds program = .ok (some graph) →
      compile? scope limit rounds other = .ok (some graph') →
      graph'.slots.Perm graph.slots ∧ (graph.slots.map Slot.name).Nodup ∧
      (∀ name, graph'.get? name = graph.get? name) ∧
      ∀ config options history calls,
        (Executable.ofGraph graph' scope config).answers options history calls =
          (Executable.ofGraph graph scope config).answers options history calls := by
  refine ⟨fun none => ?_, ⟨fun ⟨graph, compiled⟩ => ?_, fun ⟨graph, compiled⟩ => ?_⟩,
    fun graph graph' compiled compiled' => ?_⟩
  · obtain ⟨graph, graph', same, -⟩ := compile?_rearranged unhooked rearranged none
    cases same
  · obtain ⟨-, graph', -, compiled', -⟩ := compile?_rearranged unhooked rearranged compiled
    exact ⟨graph', compiled'⟩
  · obtain ⟨-, graph', -, compiled', -⟩ := compile?_rearranged unhooked rearranged.symm compiled
    exact ⟨graph', compiled'⟩
  · obtain ⟨_, _, same, same', perm, groups⟩ := compile?_rearranged unhooked rearranged compiled
    cases same
    rw [compiled'] at same'
    cases same'
    have linked := (isCompiled_of_compile? compiled).built.linked
    have linked' := (isCompiled_of_compile? compiled').built.linked
    have acyclic := isAcyclic_of_compile? compiled
    have acyclic' := isAcyclic_of_compile? compiled'
    exact ⟨perm, linked.nodup, (Graph.relocated_move linked linked' perm acyclic acyclic').get?,
      fun _ => Executable.answers_eq_of_perm linked linked' acyclic acyclic' perm groups⟩

/-! ## A program in two orders -/

/-- Features, one of which waits for statements, before the features that they name. -/
def Program.mixed : Program :=
  [.feature "B" (.call "size" [.call "first" [.feature "A"]]), .input "A", .input "D",
    .rule (some (.feature "B")) [.call "note" [.const (.int 1)]],
    .feature "C" (.list [.feature "B", .feature "Notes"]),
    .rule none [.call "note" [.const (.int 2)]]]

/-- The same features backwards, around the same rules. -/
def Program.backwards : Program :=
  [.feature "C" (.list [.feature "B", .feature "Notes"]), .input "D",
    .rule (some (.feature "B")) [.call "note" [.const (.int 1)]],
    .rule none [.call "note" [.const (.int 2)]],
    .input "A", .feature "B" (.call "size" [.call "first" [.feature "A"]])]

/-- The graph of the first order. -/
def Graph.mixed : Graph where
  slots := [.input "A", .feature "B" (.call "size" [.feature "A"]), .input "D",
    .statement "Notes#0" "Notes" (some (.feature "B")) (.call "note" [.const (.int 1)]),
    .statement "Notes#1" "Notes" none (.call "note" [.const (.int 2)]),
    .group "Notes" ["Notes#0", "Notes#1"], .feature "C" (.list [.feature "B", .feature "Notes"])]
  edges := [[], [0], [], [1], [], [3, 4], [1, 5]]
  cycles := List.replicate 7 none

/-- The graph of the other. -/
def Graph.backwards : Graph where
  slots := [.input "D", .statement "Notes#1" "Notes" none (.call "note" [.const (.int 2)]),
    .input "A", .feature "B" (.call "size" [.feature "A"]),
    .statement "Notes#0" "Notes" (some (.feature "B")) (.call "note" [.const (.int 1)]),
    .group "Notes" ["Notes#0", "Notes#1"], .feature "C" (.list [.feature "B", .feature "Notes"])]
  edges := [[], [], [], [2], [3], [4, 1], [3, 5]]
  cycles := List.replicate 7 none

/-- No hook of the catalog takes raw text. -/
theorem Scope.choosy_hasNoCustomHooks : Scope.choosy.catalog.HasNoCustomHooks := by
  intro entry member hook custom
  simp only [Scope.choosy, List.mem_cons, List.not_mem_nil, or_false] at member
  rcases member with rfl | rfl | rfl <;> cases custom

/-- Both orders compile, and the features of the second have the values that those of the first
have. -/
theorem features_in_any_order_of_mixed :
    compile? .choosy 10 1 .mixed = .ok (some .mixed) ∧
    compile? .choosy 10 1 .backwards = .ok (some .backwards) ∧
    Graph.backwards.slots.Perm Graph.mixed.slots ∧
    ((Executable.ofGraph .backwards .choosy {}).answers
        { inputs := [("A", .bool true), ("D", .int 4)], manipulator := some {} } {}
        [.fetchAll 9 ["D", "C"], .runStatements 9]).map Prod.fst =
      .ok [.values (some (.ok [.int 4, .list [.bool true, .null]])),
        .completed (some (.ok ()))] := by
  have forth : compile? .choosy 10 1 .mixed = .ok (some .mixed) := by decide +kernel
  have back : compile? .choosy 10 1 .backwards = .ok (some .backwards) := by decide +kernel
  have rearranged : Program.mixed.Rearranged .backwards := ⟨by decide, rfl⟩
  obtain ⟨-, -, alike⟩ := features_in_any_order .choosy 10 1 Scope.choosy_hasNoCustomHooks
    rearranged
  obtain ⟨perm, -, -, same⟩ := alike .mixed .backwards forth back
  exact ⟨forth, back, perm, (congrArg (Except.map Prod.fst) (same ..)).trans (by decide +kernel)⟩

end RuleGraph
