import RuleGraph.Proofs.Compile.Definitions

/-! # Compiled graphs have no cycles

Compilation refuses cycles before it puts the slots in order and links them again. Edges are found
by names, so the graph that comes of it has no cycles either.

* **`Graph.getElem?_of_mem`** — a slot stands at the place of its name.
* **`Graph.grounded_of_firstCycle?`** — without a first cycle there is none.
* **`Graph.grounded_of_subset`** — nor is there one among the same slots in another order.
* **`Graph.isAcyclic_iff`** — a graph is acyclic if no name comes back to itself along dependencies.
* **`grounded_of_compile?`** — following the dependencies of a compiled graph comes to an end.
-/

namespace RuleGraph

open Relation

namespace Graph

variable {graph graph' : Graph} {index : Nat}

/-- A slot stands at the place of its name. -/
theorem getElem?_of_mem (linked : graph.Linked) {slot : Slot} (member : slot ∈ graph.slots)
    (place : graph.indexOf? slot.name = some index) : graph.slots[index]? = some slot := by
  obtain ⟨home, found⟩ := List.mem_iff_getElem?.1 member
  have named : graph.name home = slot.name := by simp [Graph.name, nameAt, found]
  -- Names are distinct, so there is no other place.
  have only := indexOf?_name linked (List.getElem?_eq_some_iff.1 found).1
  rw [named, place, Option.some_inj] at only
  rw [only, found]

/-- If no slot knows a cycle, following dependencies comes to an end. -/
theorem grounded_of_firstCycle? (linked : graph.Linked) (none : graph.firstCycle? = none)
    (bound : index < graph.size) : Grounded graph.edges index := by
  apply (cycleFrom?_eq_none_iff linked bound).1
  rw [cycleFrom?]
  cases known : graph.cycles[index]? with
  | none => rfl
  | some cycle => exact List.findSome?_eq_none_iff.1 none cycle (List.mem_of_getElem? known)

/-- Following dependencies among some of the slots comes to an end if it does among all. -/
theorem grounded_of_subset (linked : graph.Linked) (linked' : graph'.Linked)
    (same : ∀ slot ∈ graph'.slots, slot ∈ graph.slots) {slot : Slot} {index' : Nat}
    (grounded : Grounded graph.edges index) (here : graph.slots[index]? = some slot)
    (here' : graph'.slots[index']? = some slot) : Grounded graph'.edges index' := by
  induction grounded generalizing slot index' with
  | intro index _ ih =>
    refine .intro fun target edge => ?_
    -- An edge is the name of a dependency, for which there is an edge in the other graph too.
    obtain ⟨other, found, dep, member, place⟩ := (mem_dependencies linked').1 edge
    rw [here'] at found
    cases found
    obtain ⟨target', place', edge'⟩ := exists_indexOf?_of_mem_deps linked here member
    obtain ⟨next, there, rfl⟩ := getElem?_of_indexOf? place
    exact ih target' edge'
      (getElem?_of_mem linked (same next (List.mem_of_getElem? there)) place') there

/-- A slot of one name depends on another name. -/
def DependsOn (slots : List Slot) (name dep : String) : Prop :=
  ∃ slot ∈ slots, slot.name = name ∧ dep ∈ slot.deps

/-- Edges are dependencies by name. -/
theorem dependsOn_of_leads (linked : graph.Linked) {target : Nat}
    (edge : Leads graph.edges index target) :
    DependsOn graph.slots (graph.name index) (graph.name target) := by
  obtain ⟨slot, found, dep, member, place⟩ := (mem_dependencies linked).1 edge
  have named : graph.name index = slot.name := by simp [Graph.name, nameAt, found]
  rw [named, name_of_indexOf? place]
  exact ⟨slot, List.mem_of_getElem? found, rfl, member⟩

/-- Dependencies by name go along edges. -/
theorem leads_of_dependsOn (linked : graph.Linked) {name dep : String}
    (depends : DependsOn graph.slots name dep) (place : graph.indexOf? name = some index) :
    ∃ target, graph.indexOf? dep = some target ∧ Leads graph.edges index target := by
  obtain ⟨slot, member, rfl, inside⟩ := depends
  exact exists_indexOf?_of_mem_deps linked (getElem?_of_mem linked member place) inside

/-- Ways along dependencies by name are ways along edges, between slots of these names. -/
theorem exists_reflTransGen_leads (linked : graph.Linked) {name dep : String}
    (way : ReflTransGen (DependsOn graph.slots) name dep)
    (place : graph.indexOf? name = some index) :
    ∃ target, graph.indexOf? dep = some target ∧ ReflTransGen (Leads graph.edges) index target := by
  induction way with
  | refl => exact ⟨index, place, .refl⟩
  | tail _ step ih =>
    obtain ⟨between, here, edges⟩ := ih
    obtain ⟨target, there, edge⟩ := leads_of_dependsOn linked step here
    exact ⟨target, there, edges.tail edge⟩

/-- So it is with ways of at least one step. -/
theorem exists_transGen_leads (linked : graph.Linked) {name dep : String}
    (way : TransGen (DependsOn graph.slots) name dep) (place : graph.indexOf? name = some index) :
    ∃ target, graph.indexOf? dep = some target ∧ TransGen (Leads graph.edges) index target := by
  obtain ⟨between, way, step⟩ := TransGen.tail'_iff.1 way
  obtain ⟨middle, here, edges⟩ := exists_reflTransGen_leads linked way place
  obtain ⟨target, there, edge⟩ := leads_of_dependsOn linked step here
  exact ⟨target, there, .tail' edges edge⟩

/-- In an acyclic graph following dependencies comes to an end, and only in such a graph. -/
theorem isAcyclic_iff_grounded (linked : graph.Linked) :
    graph.isAcyclic = true ↔ ∀ index < graph.size, Grounded graph.edges index := by
  have length : graph.cycles.length = graph.size := by
    rw [linked.cycles, List.length_map, length_findCycles linked.lt_length_edges,
      linked.length_edges]
  have none : ∀ index (bound : index < graph.cycles.length),
      graph.cycles[index].isNone = true ↔ graph.cycleFrom? index = .none := by
    intro index bound
    rw [cycleFrom?, List.getElem?_eq_getElem bound, Option.isNone_iff_eq_none]
    rfl
  rw [isAcyclic, List.all_eq_true]
  constructor
  · intro each index bound
    have inside := length.symm ▸ bound
    exact (cycleFrom?_eq_none_iff linked bound).1
      ((none index inside).1 (each _ (List.getElem_mem inside)))
  · intro grounded cycle member
    obtain ⟨index, inside, rfl⟩ := List.getElem_of_mem member
    have bound := length ▸ inside
    exact (none index inside).2 ((cycleFrom?_eq_none_iff linked bound).2 (grounded index bound))

/-- **A graph is acyclic if and only if no name comes back to itself along dependencies.** -/
theorem isAcyclic_iff (linked : graph.Linked) :
    graph.isAcyclic = true ↔ ∀ name, ¬TransGen (DependsOn graph.slots) name name := by
  rw [isAcyclic_iff_grounded linked]
  constructor
  · intro grounded name around
    obtain ⟨dep, ⟨slot, member, rfl, -⟩, -⟩ := TransGen.head'_iff.1 around
    obtain ⟨index, bound, rfl⟩ := List.getElem_of_mem member
    have place := indexOf?_name linked bound
    have named : graph.name index = graph.slots[index].name := by simp [Graph.name, nameAt, bound]
    rw [named] at place
    obtain ⟨target, same, edges⟩ := exists_transGen_leads linked around place
    rw [place, Option.some_inj] at same
    subst same
    exact (grounded index bound).not_transGen edges
  · intro none index bound
    obtain ⟨found, here, verdict⟩ :=
      findCycles_spec linked.lt_length_edges (linked.length_edges ▸ bound)
    cases found with
    | none => exact verdict
    | some cycle =>
      obtain ⟨turn, -, around⟩ := verdict.exists_cycle
      exact absurd (around.lift graph.name fun a b => dependsOn_of_leads linked) (none _)

end Graph

variable {scope : Scope} {limit rounds : Nat} {program : Program} {graph : Graph} {index : Nat}

/-- **Following the dependencies of a compiled graph comes to an end.** -/
theorem grounded_of_compile? (compiled : compile? scope limit rounds program = .ok (some graph))
    (bound : index < graph.size) : Grounded graph.edges index := by
  have linked := (isCompiled_of_compile? compiled).built.linked
  obtain ⟨lowered, state, run, whole⟩ := exists_lowered_of_compile? compiled
  obtain ⟨unordered, made, ordered⟩ := bind_eq_ok_iff.1 whole
  have linked' := (Graph.linked_of_ofSlots made).2
  split at ordered
  · cases ordered
  · rename_i acyclic
    -- The slots that are linked again are those of the graph in which no cycle was found.
    have same : ∀ slot ∈ graph.slots, slot ∈ unordered.slots := by
      intro slot member
      rw [(Graph.linked_of_ofSlots ordered).1] at member
      obtain ⟨place, -, found⟩ := List.mem_filterMap.1 member
      exact List.mem_of_getElem? found
    have here := List.getElem?_eq_getElem (l := graph.slots) bound
    obtain ⟨place, there⟩ := List.mem_iff_getElem?.1 (same _ (List.getElem_mem bound))
    have inside := (List.getElem?_eq_some_iff.1 there).1
    exact Graph.grounded_of_subset linked' linked same
      (Graph.grounded_of_firstCycle? linked' acyclic inside) there here

/-- No slot of a compiled graph knows a cycle. -/
theorem cycleFrom?_of_compile? (compiled : compile? scope limit rounds program = .ok (some graph))
    (bound : index < graph.size) : graph.cycleFrom? index = none :=
  (Graph.cycleFrom?_eq_none_iff (isCompiled_of_compile? compiled).built.linked bound).2
    (grounded_of_compile? compiled bound)

end RuleGraph
