import RuleGraph.Proofs.Graph.Order

/-! # Slots linked from another order

The slots of a graph are linked in whatever order they come, and the statement features stand in the
same order in the graph if only the other slots have changed places.

* **`exists_linkSlots_of_perm`** — slots in another order are linked, too.
* **`IsGreedyOrder.subset_before`** — what stands in front of a statement feature depends on the
  statement features among it only.
* **`linkSlots_rearranged`** — a graph with the same slots, the same statement features in order.
-/

namespace RuleGraph

/-- Slots in another order are linked, too. -/
theorem exists_linkSlots_of_perm {slots slots' : List Slot} {graph : Graph}
    (perm : slots'.Perm slots) (linked : linkSlots slots = .ok graph) :
    ∃ graph', linkSlots slots' = .ok graph' := by
  have greedy := isGreedyOrder_of_linkSlots linked
  have isLinked := (isBuilt_of_linkSlots linked).1.linked
  have nodup : (slots.map Slot.name).Nodup := (greedy.perm.map _).nodup_iff.1 isLinked.nodup
  have depends : ∀ {name dep}, Graph.DependsOn slots' name dep → Graph.DependsOn slots name dep :=
    fun ⟨slot, member, named, inside⟩ => ⟨slot, perm.mem_iff.1 member, named, inside⟩
  refine exists_linkSlots_of_not_transGen ((perm.map _).nodup_iff.2 nodup) ?_ ?_
  · intro slot member dep inside
    refine ((greedy.perm.trans perm.symm).map _).mem_iff.1 ?_
    exact isLinked.namesSlots slot (greedy.perm.mem_iff.2 (perm.mem_iff.1 member)) dep inside
  · exact fun name around => greedy.not_transGen nodup name
      (Relation.TransGen.mono (fun _ _ => depends) _ _ around)

/-- Slots that are chosen from a list come from places of it. -/
theorem exists_append_of_filter_eq {α : Type} {test : α → Bool} {as front rest : List α} {a : α}
    (chosen : as.filter test = front ++ a :: rest) :
    ∃ before after, as = before ++ a :: after ∧ before.filter test = front ∧ test a = true := by
  obtain ⟨before, others, rfl, first, chosen⟩ := List.filter_eq_append_iff.1 chosen
  obtain ⟨passed, after, rfl, none, here, -⟩ := List.filter_eq_cons_iff.1 chosen
  refine ⟨before ++ passed, after, (List.append_assoc _ _ _).symm, ?_, here⟩
  rw [List.filter_append, first, List.filter_eq_nil_iff.2 none, List.append_nil]

/-- Whether a slot is ready depends on the names that are placed, not on their order. -/
theorem Slot.isReady_congr {placed placed' : List String}
    (same : ∀ name, name ∈ placed ↔ name ∈ placed') :
    Slot.isReady placed = Slot.isReady placed' := by
  funext slot
  rw [Bool.eq_iff_iff, isReady_iff, isReady_iff]
  simp only [same]

namespace IsGreedyOrder

variable {others others' groups ordered ordered' before before' after after' : List Slot}
  {group group' : Slot}
  (ungrouped : ∀ slot ∈ others, slot.isGroup = false)
  (grouped : ∀ slot ∈ groups, slot.isGroup = true) (perm : others'.Perm others)
  (greedy : IsGreedyOrder (others ++ groups) ordered)
  (greedy' : IsGreedyOrder (others' ++ groups) ordered') (nodup : (ordered.map Slot.name).Nodup)

include ungrouped grouped perm greedy greedy' nodup

/-- Before a statement feature comes next, all slots have their turn that wait for no further
statement feature: they stand in front of it whatever order they come from. -/
theorem subset_before (split : ordered = before ++ group :: after) (isGroup : group.isGroup = true)
    (split' : ordered' = before' ++ after')
    (placed : ∀ slot ∈ before', slot.isGroup = true → slot ∈ before) :
    ∀ slot ∈ before', slot ∈ before := by
  induction before' using List.reverseRecOn generalizing after' with
  | nil => exact fun slot none => absurd none List.not_mem_nil
  | append_singleton front last ih =>
    rw [List.append_assoc, List.singleton_append] at split'
    obtain ⟨onFront, onLast⟩ := List.forall_mem_append.1 placed
    have earlier := ih split' onFront
    refine List.forall_mem_append.2 ⟨earlier, List.forall_mem_singleton.2 ?_⟩
    cases kind : last.isGroup with
    | true => exact onLast last (List.mem_singleton_self _) kind
    | false =>
      have among : last ∈ others' ++ groups :=
        greedy'.perm.mem_iff.1 (split' ▸ List.mem_append_right _ List.mem_cons_self)
      have other : last ∈ others := by
        rcases List.mem_append.1 among with here | there
        · exact perm.mem_iff.1 here
        · rw [grouped last there] at kind
          cases kind
      -- All that it depends on is placed, so it would have come before the statement feature.
      obtain ⟨none, -⟩ := greedy.find?_of_group ungrouped split isGroup
      have deps : ∀ dep ∈ last.deps, dep ∈ before.map Slot.name := fun dep inside => by
        obtain ⟨slot, there, same⟩ := List.mem_map.1 (greedy'.mem_before split' dep inside)
        exact List.mem_map.2 ⟨slot, earlier slot there, same⟩
      have named : last.name ∈ before.map Slot.name := by
        by_contra fresh
        exact List.find?_eq_none.1 none last other (Slot.isReady_iff.2 ⟨fresh, deps⟩)
      obtain ⟨slot, here, same⟩ := List.mem_map.1 named
      have inside : slot ∈ ordered := split ▸ List.mem_append_left _ here
      have inside' : last ∈ ordered :=
        greedy.perm.mem_iff.2 (List.mem_append_left _ other)
      exact List.inj_on_of_nodup_map nodup inside inside' same ▸ here

/-- Behind the same statement features the same one comes next. -/
theorem group_eq (split : ordered = before ++ group :: after) (isGroup : group.isGroup = true)
    (split' : ordered' = before' ++ group' :: after')
    (isGroup' : group'.isGroup = true)
    (same : before'.filter Slot.isGroup = before.filter Slot.isGroup) : group' = group := by
  have nodup' : (ordered'.map Slot.name).Nodup :=
    ((greedy'.perm.trans (perm.append_right groups)).trans greedy.perm.symm |>.map _).nodup_iff.2
      nodup
  have ungrouped' : ∀ slot ∈ others', slot.isGroup = false := fun slot member =>
    ungrouped slot (perm.mem_iff.1 member)
  have members : ∀ slot, slot ∈ before' ↔ slot ∈ before := fun slot =>
    ⟨subset_before ungrouped grouped perm greedy greedy' nodup split isGroup split'
        (fun slot here kind =>
          List.mem_of_mem_filter (same ▸ List.mem_filter.2 ⟨here, kind⟩)) slot,
      subset_before ungrouped' grouped perm.symm greedy' greedy nodup' split' isGroup' split
        (fun slot here kind =>
          List.mem_of_mem_filter (same ▸ List.mem_filter.2 ⟨here, kind⟩)) slot⟩
  have placed : Slot.isReady (before'.map Slot.name) = Slot.isReady (before.map Slot.name) :=
    Slot.isReady_congr fun name => by simp only [List.mem_map, members]
  have next := (greedy.find?_of_group ungrouped split isGroup).2
  have next' := (greedy'.find?_of_group ungrouped' split' isGroup').2
  rw [placed, next] at next'
  exact (Option.some.inj next').symm

/-- **Statement features come in the same order**, whatever order the other slots come from. -/
theorem filter_isGroup_eq :
    ordered'.filter Slot.isGroup = ordered.filter Slot.isGroup := by
  have perm' : ordered'.Perm ordered :=
    (greedy'.perm.trans (perm.append_right groups)).trans greedy.perm.symm
  have length := (perm'.filter Slot.isGroup).length_eq
  -- The statement features that one order begins with, the other one begins with.
  have front : ∀ front rest, ordered.filter Slot.isGroup = front ++ rest →
      ∃ rest', ordered'.filter Slot.isGroup = front ++ rest' := by
    intro front
    induction front using List.reverseRecOn with
    | nil => exact fun _ _ => ⟨_, rfl⟩
    | append_singleton front group ih =>
      intro rest chosen
      rw [List.append_assoc, List.singleton_append] at chosen
      obtain ⟨rest', chosen'⟩ := ih _ chosen
      cases rest' with
      | nil =>
        rw [chosen, chosen', List.length_append, List.length_append] at length
        cases Nat.add_left_cancel length
      | cons group' rest' =>
        obtain ⟨before, after, split, first, isGroup⟩ := exists_append_of_filter_eq chosen
        obtain ⟨before', after', split', first', isGroup'⟩ := exists_append_of_filter_eq chosen'
        obtain rfl := group_eq ungrouped grouped perm greedy greedy' nodup split isGroup split'
          isGroup' (first'.trans first.symm)
        exact ⟨rest', by rw [chosen', List.append_assoc, List.singleton_append]⟩
  obtain ⟨rest, whole⟩ := front _ [] (List.append_nil _).symm
  rw [whole, List.length_append, Nat.add_eq_left, List.length_eq_zero_iff] at length
  rw [whole, length, List.append_nil]

end IsGreedyOrder

/-- **Slots that come in another order are linked to the same slots**, with the statement features
in the same order if they come in the same one. -/
theorem linkSlots_rearranged {others others' groups : List Slot} {graph : Graph}
    (ungrouped : ∀ slot ∈ others, slot.isGroup = false)
    (grouped : ∀ slot ∈ groups, slot.isGroup = true) (perm : others'.Perm others)
    (linked : linkSlots (others ++ groups) = .ok graph) :
    ∃ graph', linkSlots (others' ++ groups) = .ok graph' ∧ graph'.slots.Perm graph.slots ∧
      graph'.slots.filter Slot.isGroup = graph.slots.filter Slot.isGroup := by
  obtain ⟨graph', linked'⟩ := exists_linkSlots_of_perm (perm.append_right groups) linked
  have greedy := isGreedyOrder_of_linkSlots linked
  have greedy' := isGreedyOrder_of_linkSlots linked'
  exact ⟨graph', linked', (greedy'.perm.trans (perm.append_right groups)).trans greedy.perm.symm,
    IsGreedyOrder.filter_isGroup_eq ungrouped grouped perm greedy greedy'
      (isBuilt_of_linkSlots linked).1.linked.nodup⟩

end RuleGraph
