import RuleGraph.Proofs.Graph.Recorded
import RuleGraph.Proofs.Sequence.Places

/-! # Graphs with the same slots at other places

Two graphs with the same slots differ in the places of the slots only. Edges lead to where the slots
have moved.

* **`Moved`** — the members of a list stand at other places in another one.
* **`Graph.Relocated`** — the slots of a graph stand at other places in another one.
* **`Graph.move`** — where a slot of one graph stands in another one.
* **`Graph.relocated_move`** — acyclic graphs with the same slots are relocated.
* **`Graph.Relocated.groupPlaces`** — so are their statement features, in the same order if the
  graphs have them in the same order.
-/

namespace RuleGraph

/-! ## Members at other places -/

/-- The members of a list stand at other places in another list, and are seen in another way
there. -/
structure Moved {α : Type} (move : Nat → Nat) (view : α → α) (items items' : List α) : Prop where
  /-- There are as many. -/
  length : items'.length = items.length
  /-- Each stands where it has moved. -/
  getElem? : ∀ index, items'[move index]? = items[index]?.map view

namespace Moved

variable {α : Type} {move : Nat → Nat} {view : α → α} {items items' : List α}

/-- A place is one of the list if and only if it has moved to one. -/
theorem lt_iff (moved : Moved move view items items') (index : Nat) :
    move index < items'.length ↔ index < items.length := by
  have same := moved.getElem? index
  rw [← not_iff_not, Nat.not_lt, Nat.not_lt, ← List.getElem?_eq_none_iff,
    ← List.getElem?_eq_none_iff, same, Option.map_eq_none_iff]

/-- A member may be replaced in both lists. -/
theorem set (injective : Function.Injective move) (moved : Moved move view items items')
    (index : Nat) (item : α) :
    Moved move view (items.set index item) (items'.set (move index) (view item)) where
  length := by rw [List.length_set, List.length_set, moved.length]
  getElem? other := by
    by_cases same : index = other
    · subst same
      simp only [List.getElem?_set, ↓reduceIte, moved.lt_iff]
      split <;> rfl
    · rw [List.getElem?_set_ne same, List.getElem?_set_ne (injective.ne same), moved.getElem?]

end Moved

/-! ## Graphs -/

/-- The slots of a graph stand at other places in another graph. -/
structure Graph.Relocated (move : Nat → Nat) (graph graph' : Graph) : Prop where
  /-- No two of them stand at the same place. -/
  injective : Function.Injective move
  /-- The slots are the same. -/
  slots : Moved move id graph.slots graph'.slots
  /-- They are found there under their names. -/
  indexOf? : ∀ name, graph'.indexOf? name = (graph.indexOf? name).map move
  /-- Their dependencies have moved. -/
  dependencies : ∀ index, graph'.dependencies (move index) = (graph.dependencies index).map move
  /-- They know the same cycles. -/
  cycleFrom? : ∀ index, graph'.cycleFrom? (move index) = graph.cycleFrom? index

/-- Where the slot at a place of a graph stands in another graph. Other places stay. -/
def Graph.move (graph graph' : Graph) (index : Nat) : Nat :=
  if index < graph.size then (graph'.indexOf? (graph.name index)).getD index else index

namespace Graph

variable {graph graph' : Graph} {index : Nat}

/-- A place is that of a name if and only if the slot there has it. -/
theorem indexOf?_eq_some_iff (linked : graph.Linked) {name : String} :
    graph.indexOf? name = some index ↔
      ∃ slot, graph.slots[index]? = some slot ∧ slot.name = name := by
  refine ⟨getElem?_of_indexOf?, ?_⟩
  rintro ⟨slot, found, rfl⟩
  have named : graph.name index = slot.name := by simp [Graph.name, nameAt, found]
  rw [← named]
  exact indexOf?_name linked (List.getElem?_eq_some_iff.1 found).1

/-- Slots are found again under their names. -/
theorem filterMap_indexOf?_name (linked : graph.Linked) {places : List Nat}
    (inside : ∀ place ∈ places, place < graph.size) :
    (places.map graph.name).filterMap graph.indexOf? = places := by
  rw [List.filterMap_map]
  calc places.filterMap (graph.indexOf? ∘ graph.name)
      = places.filterMap some :=
        List.filterMap_congr fun place member => indexOf?_name linked (inside place member)
    _ = places := List.filterMap_some

/-- Dependencies are found under the names that a slot lists. -/
theorem dependencies_eq_filterMap (linked : graph.Linked) {slot : Slot}
    (found : graph.slots[index]? = some slot) :
    graph.dependencies index = slot.deps.filterMap graph.indexOf? := by
  rw [← map_name_dependencies linked found]
  exact (filterMap_indexOf?_name linked fun target => lt_size_of_mem_dependencies linked).symm

/-- Beyond the slots of a graph there are no dependencies. -/
theorem dependencies_of_eq_none (linked : graph.Linked) (none : graph.slots[index]? = none) :
    graph.dependencies index = [] := by
  have beyond : graph.edges.length ≤ index :=
    linked.length_edges ▸ List.getElem?_eq_none_iff.1 none
  rw [dependencies, List.getElem?_eq_none beyond]
  rfl

/-- The statement features are found under their names, in order. -/
theorem groupPlaces_eq_filterMap (linked : graph.Linked) :
    graph.groupPlaces =
      ((graph.slots.filter Slot.isGroup).map Slot.name).filterMap graph.indexOf? := by
  have names : graph.groupPlaces.map graph.name =
      (graph.slots.filter Slot.isGroup).map Slot.name := by
    rw [← filterMap_groupPlaces, List.map_filterMap, ← List.filterMap_eq_map]
    refine List.filterMap_congr fun place member => ?_
    obtain ⟨slot, found, -⟩ := mem_groupPlaces.1 member
    simp [Graph.name, nameAt, found]
  rw [← names]
  exact (filterMap_indexOf?_name linked fun place member =>
    List.mem_range.1 (List.mem_filter.1 member).1).symm

/-- No slot of an acyclic graph knows a cycle. -/
theorem cycleFrom?_of_isAcyclic (linked : graph.Linked) (acyclic : graph.isAcyclic = true)
    (index : Nat) : graph.cycleFrom? index = none := by
  by_cases bound : index < graph.size
  · exact (cycleFrom?_eq_none_iff linked bound).2
      ((isAcyclic_iff_grounded linked).1 acyclic index bound)
  · rw [cycleFrom?, List.getElem?_eq_none (by rw [linked.length_cycles]; omega)]
    rfl

/-- Relocated graphs have as many slots. -/
theorem Relocated.size {move : Nat → Nat} (relocated : graph.Relocated move graph') :
    graph'.size = graph.size :=
  relocated.slots.length

/-- A slot stands where it has moved. -/
theorem Relocated.getElem? {move : Nat → Nat} (relocated : graph.Relocated move graph')
    (index : Nat) : graph'.slots[move index]? = graph.slots[index]? := by
  rw [relocated.slots.getElem?, Option.map_id_apply]

/-- Slots that have moved keep their names. -/
theorem Relocated.name {move : Nat → Nat} (relocated : graph.Relocated move graph') (index : Nat) :
    graph'.name (move index) = graph.name index := by
  rw [Graph.name, nameAt, relocated.getElem?]
  rfl

/-- The slot of a name is the same. -/
theorem Relocated.get? {move : Nat → Nat} (relocated : graph.Relocated move graph')
    (name : String) : graph'.get? name = graph.get? name := by
  have found : ∀ graph : Graph, graph.get? name =
      (graph.indexOf? name).bind fun index => graph.slots[index]? :=
    fun graph => List.find?_eq_bind_findIdx?_getElem?
  rw [found, found, relocated.indexOf?, Option.bind_map]
  exact congrArg (Option.bind _) (funext relocated.getElem?)

section

variable (linked : graph.Linked) (linked' : graph'.Linked)
  (perm : graph'.slots.Perm graph.slots)
include linked' perm

/-- Slots stand where they have moved. -/
theorem getElem?_move (index : Nat) :
    graph'.slots[graph.move graph' index]? = graph.slots[index]? := by
  have size : graph'.slots.length = graph.slots.length := perm.length_eq
  rw [move]
  split
  · rename_i bound
    have member := perm.mem_iff.2 (List.getElem_mem bound)
    obtain ⟨target, there⟩ := List.mem_iff_getElem?.1 member
    have named : graph.name index = graph.slots[index].name := by
      simp [Graph.name, nameAt, List.getElem?_eq_getElem (l := graph.slots) bound]
    have place := (indexOf?_eq_some_iff linked').2 ⟨_, there, rfl⟩
    rw [named, place, Option.getD_some, there, List.getElem?_eq_getElem bound]
  · rename_i beyond
    rw [List.getElem?_eq_none (size ▸ Nat.not_lt.1 beyond),
      List.getElem?_eq_none (Nat.not_lt.1 beyond)]

include linked

/-- They are found there under their names. -/
theorem indexOf?_move (name : String) :
    graph'.indexOf? name = (graph.indexOf? name).map (graph.move graph') := by
  cases found : graph.indexOf? name with
  | some index =>
    rw [Option.map_some, indexOf?_eq_some_iff linked', getElem?_move linked' perm]
    exact getElem?_of_indexOf? found
  | none =>
    refine Option.eq_none_iff_forall_ne_some.2 fun target there => ?_
    obtain ⟨slot, here, same⟩ := getElem?_of_indexOf? there
    obtain ⟨index, place⟩ :=
      List.mem_iff_getElem?.1 (perm.mem_iff.1 (List.mem_of_getElem? here))
    rw [(indexOf?_eq_some_iff linked).2 ⟨slot, place, same⟩] at found
    cases found

/-- No two slots have moved to the same place. -/
theorem injective_move : Function.Injective (graph.move graph') := by
  have size : graph'.slots.length = graph.slots.length := perm.length_eq
  have slots := getElem?_move linked' perm
  intro index other same
  by_cases bound : index < graph.size
  · have here := List.getElem?_eq_getElem (l := graph.slots) bound
    have there := slots other
    rw [← same, slots index, here] at there
    have place := (indexOf?_eq_some_iff linked).2 ⟨_, here, rfl⟩
    rw [(indexOf?_eq_some_iff linked).2 ⟨_, there.symm, rfl⟩] at place
    exact (Option.some.inj place).symm
  · -- What is no place of a slot stays, and stays apart from all of them.
    have beyond := slots index
    rw [same, slots other, List.getElem?_eq_none (Nat.not_lt.1 bound), List.getElem?_eq_none_iff]
      at beyond
    have bound' : ¬other < graph.size := Nat.not_lt.2 beyond
    rwa [move, if_neg bound, move, if_neg bound'] at same

/-- **Acyclic graphs with the same slots** differ in the places of the slots only. -/
theorem relocated_move (acyclic : graph.isAcyclic = true) (acyclic' : graph'.isAcyclic = true) :
    graph.Relocated (graph.move graph') graph' where
  injective := injective_move linked linked' perm
  slots := ⟨perm.length_eq, fun index => by
    rw [getElem?_move linked' perm, Option.map_id_apply]⟩
  indexOf? := indexOf?_move linked linked' perm
  dependencies index := by
    have here := getElem?_move linked' perm index
    have names := funext (indexOf?_move linked linked' perm)
    cases found : graph.slots[index]? with
    | none =>
      rw [dependencies_of_eq_none linked found, dependencies_of_eq_none linked' (here.trans found)]
      rfl
    | some slot =>
      rw [dependencies_eq_filterMap linked found,
        dependencies_eq_filterMap linked' (here.trans found), List.map_filterMap, names]
  cycleFrom? index := by
    rw [cycleFrom?_of_isAcyclic linked acyclic, cycleFrom?_of_isAcyclic linked' acyclic']

end

/-- Statement features that come in the same order have moved in that order. -/
theorem Relocated.groupPlaces {move : Nat → Nat} (relocated : graph.Relocated move graph')
    (linked : graph.Linked) (linked' : graph'.Linked)
    (groups : graph'.slots.filter Slot.isGroup = graph.slots.filter Slot.isGroup) :
    graph'.groupPlaces = graph.groupPlaces.map move := by
  rw [groupPlaces_eq_filterMap linked, groupPlaces_eq_filterMap linked', groups,
    List.map_filterMap, funext relocated.indexOf?]

end Graph

end RuleGraph
