import RuleGraph.Proofs.Compile.Definitions

/-! # Statement features

The statement features of a compiled graph list every statement of the graph once.

* **`Lowered.ListsStatements`** — so it is while a program is lowered.
* **`perm_of_linkSlots`** — linking puts slots in another order.
* **`perm_statements_of_compile?`** — so it is in a compiled graph.
* **`nodup_members_of_compile?`** — no statement comes twice.
-/

namespace RuleGraph

/-- A statement that is added is listed once more. -/
theorem Groups.perm_add (groups : Groups) (feature member : String) :
    ((groups.add feature member).flatMap Prod.snd).Perm (groups.flatMap Prod.snd ++ [member]) := by
  induction groups with
  | nil => exact .refl _
  | cons group rest ih =>
    obtain ⟨name, names⟩ := group
    rw [add]
    split
    · rw [List.flatMap_cons, List.flatMap_cons, List.append_assoc, List.append_assoc]
      exact List.perm_append_comm.append_left names
    · rw [List.flatMap_cons, List.flatMap_cons, List.append_assoc]
      exact ih.append_left names

/-- The slots of statement features are statement features. -/
theorem Groups.filter_isGroup_slots (groups : Groups) :
    groups.slots.filter Slot.isGroup = groups.slots := by
  refine List.filter_eq_self.2 fun slot member => ?_
  obtain ⟨group, -, rfl⟩ := List.mem_map.1 member
  rfl

/-- They are no single statements. -/
theorem Groups.filter_isSingleStatement_slots (groups : Groups) :
    groups.slots.filter Slot.isSingleStatement = [] := by
  refine List.filter_eq_nil_iff.2 fun slot member => ?_
  obtain ⟨group, -, rfl⟩ := List.mem_map.1 member
  exact Bool.false_ne_true

/-- A lowered statement is numbered within its statement feature and added to it. -/
theorem groups_eq_of_lowerStatement {groups groups' : Groups} {scope : Scope}
    {condition : Option SlotExpr} {call : Expr} {slot : Slot}
    (made : groups.lowerStatement scope condition call = .ok (slot, groups')) :
    ∃ feature call', slot.kind = .statement feature condition call' ∧
      slot.name = CompileState.numbered feature (groups.members feature).length ∧
      groups' = groups.add feature slot.name := by
  unfold Groups.lowerStatement at made
  split at made
  · obtain ⟨entry, -, made⟩ := bind_eq_ok_iff.1 made
    split at made
    · obtain ⟨_, -, made⟩ := bind_eq_ok_iff.1 made
      obtain ⟨args, -, made⟩ := bind_eq_ok_iff.1 made
      cases made
      exact ⟨_, _, rfl, rfl, rfl⟩
    · cases made
  · cases made

namespace Lowered

/-- What is lowered so far are no statement features, and these list every statement once. -/
structure ListsStatements (lowered : Lowered) : Prop where
  /-- No slot is a statement feature. -/
  ungrouped : ∀ slot ∈ lowered.slots, slot.isGroup = false
  /-- Every statement is listed once. -/
  names : (lowered.groups.flatMap Prod.snd).Perm
    ((lowered.slots.filter Slot.isSingleStatement).map Slot.name)

/-- Every further slot keeps this. -/
theorem keeps_listsStatements {scope : Scope} : Keeps scope ListsStatements := by
  have concat : ∀ {slots : List Slot} {slot : Slot}, (∀ other ∈ slots, other.isGroup = false) →
      slot.isGroup = false → ∀ other ∈ slots ++ [slot], other.isGroup = false := by
    intro slots slot all new other member
    rcases List.mem_append.1 member with old | last
    · exact all other old
    · exact List.mem_singleton.1 last ▸ new
  refine ⟨⟨fun slot none => ?_, .refl _⟩, fun lists made => ?_, fun lists holds made => ?_⟩
  · cases none
  · rename_i slot
    obtain ⟨no, feature⟩ : slot.isGroup = false ∧ slot.isSingleStatement = false := by
      rcases lowerFeature_eq_ok made with ⟨-, rfl⟩ | ⟨value, -, rfl⟩ <;> exact ⟨rfl, rfl⟩
    refine ⟨concat lists.ungrouped no, ?_⟩
    rw [List.filter_append, List.filter_singleton, feature, Bool.cond_false, List.append_nil]
    exact lists.names
  · rename_i lowered condition call slot groups
    obtain ⟨feature, call', kind, named, rfl⟩ := groups_eq_of_lowerStatement made
    have single : slot.isSingleStatement = true := by rw [Slot.isSingleStatement, kind]
    have no : slot.isGroup = false := by rw [Slot.isGroup, kind]; rfl
    refine ⟨concat lists.ungrouped no, (Groups.perm_add _ _ _).trans ?_⟩
    rw [List.filter_append, List.filter_singleton, single, Bool.cond_true, List.map_append,
      List.map_singleton]
    exact lists.names.append_right [slot.name]

end Lowered

variable {scope : Scope} {limit rounds : Nat} {program : Program} {graph : Graph}

/-- Linking puts slots in another order. -/
theorem perm_of_linkSlots {slots : List Slot} (linked : linkSlots slots = .ok graph) :
    graph.slots.Perm slots := by
  obtain ⟨built, same⟩ := isBuilt_of_linkSlots linked
  obtain ⟨unordered, made, -⟩ := bind_eq_ok_iff.1 linked
  obtain ⟨given, linked'⟩ := Graph.linked_of_ofSlots made
  -- Both lists have distinct names, so it is enough that they have the same slots.
  refine (List.perm_ext_iff_of_nodup ?_ ?_).2 same
  · exact List.Nodup.of_map _ built.linked.nodup
  · exact given ▸ List.Nodup.of_map _ linked'.nodup

/-- **The statement features of a compiled graph list every statement once.** -/
theorem perm_statements_of_compile?
    (compiled : compile? scope limit rounds program = .ok (some graph)) :
    ((graph.slots.filter Slot.isGroup).flatMap Slot.deps).Perm
      ((graph.slots.filter Slot.isSingleStatement).map Slot.name) := by
  obtain ⟨lowered, state, run, linked⟩ := exists_lowered_of_compile? compiled
  have lists := Lowered.keeps_listsStatements.of_run run
  have perm := perm_of_linkSlots linked
  have others : lowered.slots.filter Slot.isGroup = [] := by
    refine List.filter_eq_nil_iff.2 fun slot member => ?_
    rw [lists.ungrouped slot member]
    exact Bool.false_ne_true
  have deps : lowered.groups.slots.flatMap Slot.deps = lowered.groups.flatMap Prod.snd := by
    rw [Groups.slots, List.flatMap_map]
    rfl
  refine ((perm.filter _).flatMap_right _).trans (.trans ?_ ((perm.filter _).map _).symm)
  rw [List.filter_append, others, Groups.filter_isGroup_slots, List.nil_append, deps,
    List.filter_append, Groups.filter_isSingleStatement_slots, List.append_nil]
  exact lists.names

/-- Every statement of a compiled graph comes once among the statements of its statement
features. -/
theorem nodup_members_of_compile?
    (compiled : compile? scope limit rounds program = .ok (some graph)) :
    ((graph.slots.filter Slot.isGroup).flatMap Slot.deps).Nodup := by
  have linked := (isCompiled_of_compile? compiled).built.linked
  refine (perm_statements_of_compile? compiled).nodup_iff.2 ?_
  exact linked.nodup.sublist (List.filter_sublist.map _)

end RuleGraph
