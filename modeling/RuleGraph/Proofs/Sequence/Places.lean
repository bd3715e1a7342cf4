import RuleGraph.Proofs.Compile.Groups
import RuleGraph.Proofs.Reference.Evaluate
import RuleGraph.Proofs.Sequence.Reference

/-! # Where statements stand

The statements of a graph by their places, and graphs in which expressions name values only.

* **`Graph.groupPlaces`** — the places of the statement features.
* **`Graph.statements_eq`** — the statements stand where edges of the statement features lead to.
* **`Graph.listsCalls_of_compile?`** — they lead to calls, and to every call from one of them only.
* **`Graph.ReadsValues`** — no expression names a statement or a statement feature.
* **`Graph.ReadsValues.isPlain`** — then all slots but statements are plain.
-/

namespace RuleGraph

open Relation

namespace Graph

variable {graph : Graph} {index target : Nat} {slot other : Slot}

/-! ## Places -/

/-- The places of the statement features. -/
def groupPlaces (graph : Graph) : List Nat :=
  (List.range graph.size).filter fun index => (graph.slots[index]?.map Slot.isGroup).getD false

/-- The members of a list at all its places. -/
theorem filterMap_range_getElem? {α : Type} (items : List α) :
    (List.range items.length).filterMap (fun place => items[place]?) = items := by
  induction items with
  | nil => rfl
  | cons item rest ih =>
    rw [List.length_cons, List.range_succ_eq_map, List.filterMap_cons_some List.getElem?_cons_zero,
      List.filterMap_map]
    exact congrArg (item :: ·) ih

/-- A place is that of a statement feature. -/
theorem mem_groupPlaces :
    index ∈ graph.groupPlaces ↔ ∃ slot, graph.slots[index]? = some slot ∧ slot.isGroup = true := by
  rw [groupPlaces, List.mem_filter, List.mem_range]
  constructor
  · rintro ⟨bound, isGroup⟩
    have found := List.getElem?_eq_getElem (l := graph.slots) bound
    rw [found] at isGroup
    exact ⟨_, found, isGroup⟩
  · rintro ⟨slot, found, isGroup⟩
    rw [found]
    exact ⟨(List.getElem?_eq_some_iff.1 found).1, isGroup⟩

/-- The statement features stand at their places. -/
theorem filterMap_groupPlaces :
    graph.groupPlaces.filterMap (fun index => graph.slots[index]?) =
      graph.slots.filter Slot.isGroup := by
  conv => rhs; rw [← filterMap_range_getElem? graph.slots]
  rw [groupPlaces, List.filterMap_filter, List.filter_filterMap]
  refine List.filterMap_congr fun index _ => ?_
  cases graph.slots[index]? with
  | none => rfl
  | some slot => rfl

/-- What a slot depends on stands where its edges lead to. -/
theorem map_name_dependencies (linked : graph.Linked) (found : graph.slots[index]? = some slot) :
    (graph.dependencies index).map graph.name = slot.deps := by
  obtain ⟨bound, rfl⟩ := List.getElem?_eq_some_iff.1 found
  have edges := List.forall₂_map_left_iff.1 linked.edges
  have here := edges.get bound (edges.length_eq ▸ bound)
  rw [List.get_eq_getElem] at here
  rw [dependencies, List.getElem?_eq_getElem (edges.length_eq ▸ bound), Option.getD_some,
    ← List.forall₂_eq_eq_eq, List.forall₂_map_left_iff]
  exact here.flip.imp fun place dep named => name_of_indexOf? named

/-- The statements of a graph stand at the places that the statement features lead to. -/
theorem statements_eq (linked : graph.Linked) : graph.statements =
    (graph.groupPlaces.flatMap graph.dependencies).filterMap fun index => graph.slots[index]? := by
  have byName : ∀ place < graph.size, graph.get? (graph.name place) = graph.slots[place]? := by
    intro place bound
    have found := List.getElem?_eq_getElem (l := graph.slots) bound
    rw [found]
    exact get?_eq_some_iff.2 ⟨place, indexOf?_name linked bound, found⟩
  rw [statements, ← filterMap_groupPlaces, List.filterMap_eq_flatMap_toList, List.flatMap_assoc,
    List.filterMap_flatMap]
  refine List.flatMap_congr fun group member => ?_
  obtain ⟨slot, found, -⟩ := mem_groupPlaces.1 member
  rw [found, Option.toList_some, List.flatMap_singleton, ← map_name_dependencies linked found,
    List.filterMap_map]
  exact List.filterMap_congr fun place listed =>
    byName place (lt_size_of_mem_dependencies linked listed)

/-- The slot at a place is a statement that is a call. -/
def IsCallAt (graph : Graph) (index : Nat) : Prop :=
  ∃ (slot : Slot) (feature function : String) (condition : Option SlotExpr) (args : List SlotExpr),
    graph.slots[index]? = some slot ∧ slot.kind = .statement feature condition (.call function args)

/-- A statement is not plain. -/
theorem not_isPlain_of_isStatement (found : graph.slots[index]? = some slot)
    (statement : slot.isStatement = true) : ¬graph.IsPlain index := by
  intro plain
  rcases plain.kinds index slot .refl found with kind | ⟨body, kind⟩ <;>
    simp [Slot.isStatement, Slot.isSingleStatement, Slot.isGroup, kind] at statement

/-- A statement feature is a slot of the graph, and not plain. -/
theorem of_mem_groupPlaces (member : index ∈ graph.groupPlaces) :
    index < graph.size ∧ ¬graph.IsPlain index := by
  obtain ⟨slot, found, isGroup⟩ := mem_groupPlaces.1 member
  refine ⟨(List.getElem?_eq_some_iff.1 found).1, not_isPlain_of_isStatement found ?_⟩
  rw [Slot.isStatement, isGroup, Bool.or_true]

/-- A call is a slot of the graph. -/
theorem IsCallAt.lt_size (call : graph.IsCallAt index) : index < graph.size := by
  obtain ⟨slot, feature, function, condition, args, found, kind⟩ := call
  exact (List.getElem?_eq_some_iff.1 found).1

/-- A statement is not a statement feature. -/
theorem IsCallAt.not_mem_groupPlaces (call : graph.IsCallAt index) : index ∉ graph.groupPlaces := by
  intro member
  obtain ⟨slot, feature, function, condition, args, found, kind⟩ := call
  obtain ⟨group, found', isGroup⟩ := mem_groupPlaces.1 member
  rw [found, Option.some_inj] at found'
  subst found'
  simp [Slot.isGroup, kind] at isGroup

/-- A statement that is a call is not plain. -/
theorem IsCallAt.not_isPlain (call : graph.IsCallAt index) : ¬graph.IsPlain index := by
  obtain ⟨slot, feature, function, condition, args, found, kind⟩ := call
  refine not_isPlain_of_isStatement found ?_
  rw [Slot.isStatement, Slot.isSingleStatement, kind, Bool.true_or]

/-- Statement features lead to calls, and there is one way only to each of them. -/
structure ListsCalls (graph : Graph) : Prop where
  /-- What statement features lead to is a call. -/
  calls : ∀ group ∈ graph.groupPlaces, ∀ index ∈ graph.dependencies group, graph.IsCallAt index
  /-- No call is led to twice. -/
  nodup : (graph.groupPlaces.flatMap graph.dependencies).Nodup

/-- The names of the slots that statement features lead to. -/
theorem map_name_flatMap_dependencies (linked : graph.Linked) :
    (graph.groupPlaces.flatMap graph.dependencies).map graph.name =
      (graph.slots.filter Slot.isGroup).flatMap Slot.deps := by
  rw [← filterMap_groupPlaces, List.filterMap_eq_flatMap_toList, List.flatMap_assoc,
    List.map_flatMap]
  refine List.flatMap_congr fun group member => ?_
  obtain ⟨slot, found, -⟩ := mem_groupPlaces.1 member
  rw [found, Option.toList_some, List.flatMap_singleton, map_name_dependencies linked found]

/-- The statement features of a compiled graph lead to calls, one way only to each of them. -/
theorem listsCalls_of_compile? {scope : Scope} {limit rounds : Nat} {program : Program}
    (compiled : compile? scope limit rounds program = .ok (some graph)) : graph.ListsCalls := by
  obtain ⟨built, -, calls⟩ := isCompiled_of_compile? compiled
  have linked := built.linked
  have names := map_name_flatMap_dependencies linked
  refine ⟨fun group member index edge => ?_, List.Nodup.of_map graph.name ?_⟩
  · -- The name of the slot is that of a statement, so it is this statement.
    have listed : graph.name index ∈ (graph.slots.filter Slot.isSingleStatement).map Slot.name := by
      refine (perm_statements_of_compile? compiled).mem_iff.1 (names ▸ ?_)
      exact List.mem_map_of_mem (List.mem_flatMap.2 ⟨group, member, edge⟩)
    obtain ⟨slot, single, named⟩ := List.mem_map.1 listed
    obtain ⟨inside, single⟩ := List.mem_filter.1 single
    have bound := lt_size_of_mem_dependencies linked edge
    have there := List.getElem?_eq_getElem (l := graph.slots) bound
    have same : slot = graph.slots[index] := by
      refine List.inj_on_of_nodup_map linked.nodup inside (List.getElem_mem bound) ?_
      rw [named, name, nameAt, there]
      rfl
    rw [← same] at there
    cases kind : slot.kind with
    | statement feature condition call =>
      obtain ⟨⟨function, args, rfl⟩, -⟩ := calls slot inside feature condition call kind
      exact ⟨slot, feature, function, condition, args, there, kind⟩
    | input | feature | group => simp [Slot.isSingleStatement, kind] at single
  · exact names ▸ nodup_members_of_compile? compiled

/-! ## Reading values only -/

/-- No expression names a statement or a statement feature. -/
def ReadsValues (graph : Graph) : Prop :=
  ∀ slot ∈ graph.slots, ∀ body ∈ slot.expressions, ∀ name ∈ body.features, ∀ other,
    graph.get? name = some other → other.isStatement = false

/-- A slot that is no statement feature depends on what its expressions name. -/
theorem exists_mem_features_of_mem_deps (constructed : slot.IsConstructed)
    (ungrouped : slot.isGroup = false) {dep : String} (member : dep ∈ slot.deps) :
    ∃ body ∈ slot.expressions, dep ∈ body.features := by
  cases constructed with
  | input => cases member
  | feature name body => exact ⟨body, List.mem_singleton_self _, SlotExpr.mem_references.1 member⟩
  | statement name feature condition call =>
    rcases List.mem_append.1 (SlotExpr.mem_distinct.1 member) with held | called
    · cases condition with
      | none => cases held
      | some body => exact ⟨body, List.mem_cons_self, held⟩
    · exact ⟨call, List.mem_append_right _ (List.mem_singleton_self _), called⟩
  | group => cases ungrouped

variable (linked : graph.Linked) (constructed : ∀ slot ∈ graph.slots, slot.IsConstructed)
  (reads : graph.ReadsValues)
include linked constructed reads

/-- Then slots but for statement features depend on values only. -/
theorem ReadsValues.isStatement_eq_false (found : graph.slots[index]? = some slot)
    (ungrouped : slot.isGroup = false) (edge : Leads graph.edges index target)
    (there : graph.slots[target]? = some other) : other.isStatement = false := by
  obtain ⟨slot', found', dep, member, place⟩ := (mem_dependencies linked).1 edge
  rw [found] at found'
  cases found'
  have listed := List.mem_of_getElem? found
  obtain ⟨body, inside, named⟩ :=
    exists_mem_features_of_mem_deps (constructed slot listed) ungrouped member
  exact reads slot listed body inside dep named other (get?_eq_some_iff.2 ⟨target, place, there⟩)

/-- Slots that are no statements are plain. -/
theorem ReadsValues.isPlain (grounded : ∀ index < graph.size, Grounded graph.edges index)
    (found : graph.slots[index]? = some slot) (value : slot.isStatement = false) :
    graph.IsPlain index := by
  have bound := (List.getElem?_eq_some_iff.1 found).1
  have values : ∀ target, ReflTransGen (Leads graph.edges) index target →
      ∃ other, graph.slots[target]? = some other ∧ other.isStatement = false := by
    intro target reaches
    induction reaches with
    | refl => exact ⟨slot, found, value⟩
    | tail _ edge ih =>
      obtain ⟨between, here, value⟩ := ih
      have inside := lt_size_of_mem_dependencies linked edge
      have there := List.getElem?_eq_getElem (l := graph.slots) inside
      have ungrouped : between.isGroup = false := (Bool.or_eq_false_iff.1 value).2
      exact ⟨_, there, reads.isStatement_eq_false linked constructed here ungrouped edge there⟩
  refine ⟨bound, fun target other reaches there => ?_, fun target reaches => ?_⟩
  · obtain ⟨other', there', value⟩ := values target reaches
    rw [there] at there'
    cases there'
    cases kind : other.kind with
    | input => exact .inl rfl
    | feature body => exact .inr ⟨body, rfl⟩
    | statement | group =>
      simp [Slot.isStatement, Slot.isSingleStatement, Slot.isGroup, kind] at value
  · obtain ⟨other, there, -⟩ := values target reaches
    exact (grounded target (List.getElem?_eq_some_iff.1 there).1).not_transGen

end Graph

end RuleGraph
