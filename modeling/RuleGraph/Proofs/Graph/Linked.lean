import RuleGraph.Graph
import Mathlib.Data.List.Forall2
import Mathlib.Data.List.Nodup

/-! # Linked graphs

What can be relied on once `Graph.ofSlots` has accepted a list of slots: names are distinct, and
the edges are the places of the dependencies.

* **`Graph.Linked`** — what `Graph.ofSlots` makes sure of.
* **`Graph.linked_of_ofSlots`** — it does.
* **`Graph.indexOf?_name`** — a slot is found under its name.
* **`Graph.mem_dependencies`** — edges are dependencies by name.
-/

namespace RuleGraph.Graph

/-- What `Graph.ofSlots` makes sure of: names are distinct, every slot has the edges that its
dependencies name, and the cycles are those that a search along the edges finds. -/
structure Linked (graph : Graph) : Prop where
  /-- No name is taken twice. -/
  nodup : (graph.slots.map Slot.name).Nodup
  /-- Every dependency is an edge to the slot of that name. -/
  edges : List.Forall₂
    (List.Forall₂ fun dep index => placeOf? graph.slots dep = some index)
    (graph.slots.map Slot.deps) graph.edges
  /-- Cycles are found along the edges. -/
  cycles : graph.cycles = (findCycles graph.edges).map fun cycle =>
    cycle.map fun path => path.map (nameAt graph.slots)

/-- Without a first duplicate, names are distinct and different from those seen before. -/
theorem nodup_of_firstDuplicate? {seen names : List String}
    (h : firstDuplicate? seen names = none) : names.Nodup ∧ ∀ name ∈ names, name ∉ seen := by
  induction names generalizing seen with
  | nil => simp
  | cons name rest ih =>
    rw [firstDuplicate?] at h
    split at h
    · cases h
    · rename_i fresh
      obtain ⟨nodup, apart⟩ := ih h
      refine ⟨List.nodup_cons.2 ⟨fun again => apart name again List.mem_cons_self, nodup⟩, ?_⟩
      intro other member
      rcases List.mem_cons.1 member with rfl | later
      · exact fresh
      · exact fun old => apart other later (List.mem_cons_of_mem _ old)

/-- When all members of a list can be mapped, each one is. -/
theorem forall₂_of_mapM {ε α β : Type} {f : α → Except ε β} {as : List α} {bs : List β}
    (h : as.mapM f = .ok bs) : List.Forall₂ (fun a b => f a = .ok b) as bs := by
  induction as generalizing bs with
  | nil =>
    rw [List.mapM_nil] at h
    cases h
    exact .nil
  | cons a rest ih =>
    rw [List.mapM_cons] at h
    cases ha : f a with
    | error error =>
      rw [ha] at h
      cases h
    | ok b =>
      cases hr : rest.mapM f with
      | error error =>
        rw [ha, hr] at h
        cases h
      | ok later =>
        rw [ha, hr] at h
        cases h
        exact .cons ha (ih hr)

/-- The edges of a slot are the places of its dependencies. -/
theorem forall₂_of_edgesOf {slots : List Slot} {slot : Slot} {targets : List Nat}
    (h : edgesOf slots slot = .ok targets) :
    List.Forall₂ (fun dep index => placeOf? slots dep = some index) slot.deps targets := by
  refine (forall₂_of_mapM h).imp fun dep index found => ?_
  split at found
  · cases found
    assumption
  · cases found

/-- **Accepted slots are linked**, and the graph has them in the given order. -/
theorem linked_of_ofSlots {slots : List Slot} {graph : Graph} (h : ofSlots slots = .ok graph) :
    graph.slots = slots ∧ graph.Linked := by
  unfold ofSlots at h
  cases duplicate : firstDuplicate? [] (slots.map Slot.name) with
  | some name =>
    rw [duplicate] at h
    cases h
  | none =>
    cases linked : slots.mapM (edgesOf slots) with
    | error error =>
      rw [duplicate, linked] at h
      cases h
    | ok edges =>
      rw [duplicate, linked] at h
      cases h
      refine ⟨rfl, (nodup_of_firstDuplicate? duplicate).1, ?_, rfl⟩
      rw [List.forall₂_map_left_iff]
      exact (forall₂_of_mapM linked).imp fun _ _ => forall₂_of_edgesOf

variable {graph : Graph} {name : String} {index target : Nat}

/-- The place of a name holds a slot of that name. -/
theorem getElem?_of_indexOf? (h : graph.indexOf? name = some index) :
    ∃ slot, graph.slots[index]? = some slot ∧ slot.name = name := by
  obtain ⟨bound, same, -⟩ := List.findIdx?_eq_some_iff_getElem.1 h
  exact ⟨graph.slots[index], List.getElem?_eq_getElem bound, of_decide_eq_true same⟩

/-- The place of a name is one of the graph. -/
theorem lt_size_of_indexOf? (h : graph.indexOf? name = some index) : index < graph.size := by
  obtain ⟨slot, found, -⟩ := getElem?_of_indexOf? h
  exact (List.getElem?_eq_some_iff.1 found).1

/-- The name at the place of a name. -/
theorem name_of_indexOf? (h : graph.indexOf? name = some index) : graph.name index = name := by
  obtain ⟨slot, found, same⟩ := getElem?_of_indexOf? h
  simp [Graph.name, nameAt, found, same]

/-- A slot is found under its name. -/
theorem indexOf?_name (linked : graph.Linked) (bound : index < graph.size) :
    graph.indexOf? (graph.name index) = some index := by
  have inside : index < graph.slots.length := bound
  have named : graph.name index = graph.slots[index].name := by
    simp [Graph.name, nameAt, inside]
  refine List.findIdx?_eq_some_iff_getElem.2 ⟨inside, decide_eq_true named.symm, ?_⟩
  intro other earlier same
  -- An earlier slot of the same name would be this one, since names are distinct.
  have equal := of_decide_eq_true same
  rw [named] at equal
  have before : other < graph.slots.length := Nat.lt_trans earlier inside
  have first : other < (graph.slots.map Slot.name).length := by simpa using before
  have second : index < (graph.slots.map Slot.name).length := by simpa using inside
  have names : (graph.slots.map Slot.name)[other] = (graph.slots.map Slot.name)[index] := by
    simpa using equal
  have place := linked.nodup.getElem_inj_iff.1 names
  omega

/-- The edges of a slot are the places of its dependencies. -/
theorem mem_dependencies (linked : graph.Linked) :
    target ∈ graph.dependencies index ↔
      ∃ slot, graph.slots[index]? = some slot ∧
        ∃ dep ∈ slot.deps, graph.indexOf? dep = some target := by
  have edges := List.forall₂_map_left_iff.1 linked.edges
  cases found : graph.slots[index]? with
  | none =>
    have short : graph.edges[index]? = none := by
      rw [List.getElem?_eq_none_iff] at found ⊢
      rw [← edges.length_eq]
      exact found
    simp [dependencies, short]
  | some slot =>
    have bound := (List.getElem?_eq_some_iff.1 found).1
    have bound' : index < graph.edges.length := edges.length_eq ▸ bound
    -- Dependencies and edges stand at the same places, in the lists of one slot too.
    have here := edges.get bound bound'
    simp only [List.get_eq_getElem, (List.getElem?_eq_some_iff.1 found).2] at here
    simp only [dependencies, List.getElem?_eq_getElem bound', Option.getD_some, Option.some.injEq,
      exists_eq_left', indexOf?]
    constructor
    · intro member
      obtain ⟨place, inside, rfl⟩ := List.getElem_of_mem member
      have inside' : place < slot.deps.length := here.length_eq ▸ inside
      exact ⟨slot.deps[place], List.getElem_mem inside', by simpa using here.get inside' inside⟩
    · rintro ⟨dep, member, found⟩
      obtain ⟨place, inside, rfl⟩ := List.getElem_of_mem member
      have inside' : place < graph.edges[index].length := here.length_eq ▸ inside
      have same := here.get inside inside'
      simp only [List.get_eq_getElem, found, Option.some.injEq] at same
      exact same ▸ List.getElem_mem inside'

/-- Every dependency is the name of a slot that there is an edge to. -/
theorem exists_indexOf?_of_mem_deps (linked : graph.Linked) {slot : Slot} {dep : String}
    (found : graph.slots[index]? = some slot) (member : dep ∈ slot.deps) :
    ∃ target, graph.indexOf? dep = some target ∧ target ∈ graph.dependencies index := by
  obtain ⟨bound, rfl⟩ := List.getElem?_eq_some_iff.1 found
  have edges := List.forall₂_map_left_iff.1 linked.edges
  have here := edges.get bound (edges.length_eq ▸ bound)
  obtain ⟨place, inside, rfl⟩ := List.getElem_of_mem member
  have there := here.get inside (here.length_eq ▸ inside)
  exact ⟨_, there, (mem_dependencies linked).2 ⟨_, found, _, member, there⟩⟩

/-- The slot of a name stands at the place of that name. -/
theorem get?_eq_some_iff :
    graph.get? name = some slot ↔
      ∃ index, graph.indexOf? name = some index ∧ graph.slots[index]? = some slot := by
  rw [get?, List.find?_eq_bind_findIdx?_getElem?, Option.bind_eq_some_iff]
  rfl

/-- Edges lead to slots of the graph. -/
theorem lt_size_of_mem_dependencies (linked : graph.Linked)
    (h : target ∈ graph.dependencies index) : target < graph.size := by
  obtain ⟨_, _, _, _, found⟩ := (mem_dependencies linked).1 h
  exact lt_size_of_indexOf? found

end RuleGraph.Graph
