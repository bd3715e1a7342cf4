import RuleGraph.Proofs.Compile.Groups
import RuleGraph.Proofs.Graph.Grounded

/-! # The order of linked slots

Linking takes slots one after the other, always the first one in the given order whose dependencies
are there. There is one such order, and slots have it if and only if they can be linked.

* **`Graph.exists_ofSlots`** — slots of distinct names that name each other make a graph.
* **`Slot.isReady`**, **`IsGreedyOrder`** — slots in such an order.
* **`IsGreedyOrder.unique`** — there is at most one.
* **`isGreedyOrder_of_linkSlots`** — linked slots are in it.
* **`exists_linkSlots_of_isGreedyOrder`** — slots that have it are linked in it.
-/

namespace RuleGraph

/-! ## Slots that make a graph -/

namespace Graph

/-- Distinct names that are different from those seen before have no first duplicate. -/
theorem firstDuplicate?_eq_none {seen names : List String} (nodup : names.Nodup)
    (apart : ∀ name ∈ names, name ∉ seen) : firstDuplicate? seen names = none := by
  induction names generalizing seen with
  | nil => rfl
  | cons name rest ih =>
    obtain ⟨fresh, nodup⟩ := List.nodup_cons.1 nodup
    rw [firstDuplicate?, if_neg (apart name List.mem_cons_self)]
    refine ih nodup fun other member again => ?_
    rcases List.mem_cons.1 again with rfl | old
    · exact fresh member
    · exact apart other (List.mem_cons_of_mem _ member) old

/-- When each member of a list can be mapped, all of them can. -/
theorem exists_mapM {ε α β : Type} {f : α → Except ε β} {as : List α}
    (each : ∀ a ∈ as, ∃ b, f a = .ok b) : ∃ bs, as.mapM f = .ok bs := by
  induction as with
  | nil => exact ⟨[], rfl⟩
  | cons a rest ih =>
    obtain ⟨⟨b, first⟩, others⟩ := List.forall_mem_cons.1 each
    obtain ⟨bs, later⟩ := ih others
    refine ⟨b :: bs, ?_⟩
    rw [List.mapM_cons, first, later]
    rfl

/-- Every slot depends on slots. -/
def NamesSlots (slots : List Slot) : Prop :=
  ∀ slot ∈ slots, ∀ dep ∈ slot.deps, dep ∈ slots.map Slot.name

/-- Slots of distinct names that name each other make a graph. -/
theorem exists_ofSlots {slots : List Slot} (nodup : (slots.map Slot.name).Nodup)
    (names : NamesSlots slots) : ∃ graph, ofSlots slots = .ok graph := by
  have unique : firstDuplicate? [] (slots.map Slot.name) = none :=
    firstDuplicate?_eq_none nodup fun _ _ => List.not_mem_nil
  obtain ⟨edges, found⟩ : ∃ edges, slots.mapM (edgesOf slots) = .ok edges := by
    refine exists_mapM fun slot member => exists_mapM fun dep inside => ?_
    obtain ⟨other, there, same⟩ := List.mem_map.1 (names slot member dep inside)
    have some : (placeOf? slots dep).isSome = true :=
      List.findIdx?_isSome.trans (List.any_eq_true.2 ⟨other, there, decide_eq_true same⟩)
    obtain ⟨index, place⟩ := Option.isSome_iff_exists.1 some
    exact ⟨index, by rw [place]⟩
  cases made : ofSlots slots with
  | ok graph => exact ⟨graph, rfl⟩
  | error error =>
    rw [ofSlots, unique, found] at made
    cases made

/-- So it is with the slots of a graph. -/
theorem Linked.namesSlots {graph : Graph} (linked : graph.Linked) : NamesSlots graph.slots := by
  intro slot member dep inside
  obtain ⟨index, found⟩ := List.mem_iff_getElem?.1 member
  obtain ⟨target, place, -⟩ := exists_indexOf?_of_mem_deps linked found inside
  obtain ⟨other, there, same⟩ := getElem?_of_indexOf? place
  exact List.mem_map.2 ⟨other, List.mem_of_getElem? there, same⟩

end Graph

/-! ## The order -/

/-- Whether a slot is not placed yet and depends on placed slots only. -/
def Slot.isReady (placed : List String) (slot : Slot) : Bool :=
  slot.name ∉ placed && slot.deps.all fun dep => dep ∈ placed

/-- A slot is ready if it is not placed yet and all it depends on is. -/
theorem Slot.isReady_iff {placed : List String} {slot : Slot} :
    slot.isReady placed = true ↔ slot.name ∉ placed ∧ ∀ dep ∈ slot.deps, dep ∈ placed := by
  simp [isReady]

/-- Slots in an order in which always the first one comes next that is ready. -/
structure IsGreedyOrder (slots ordered : List Slot) : Prop where
  /-- They are the same slots. -/
  perm : ordered.Perm slots
  /-- The first slot that is ready comes next. -/
  next : ∀ (before : List Slot) slot after, ordered = before ++ slot :: after →
    slots.find? (Slot.isReady (before.map Slot.name)) = some slot

namespace IsGreedyOrder

variable {slots ordered ordered' : List Slot}

/-- What two such orders have in common goes on. -/
theorem eq_of_append (greedy : IsGreedyOrder slots ordered)
    (greedy' : IsGreedyOrder slots ordered') {before rest rest' : List Slot}
    (split : ordered = before ++ rest) (split' : ordered' = before ++ rest') : rest = rest' := by
  have lengths : rest.length = rest'.length := by
    have same := greedy.perm.length_eq.trans greedy'.perm.length_eq.symm
    rw [split, split', List.length_append, List.length_append] at same
    omega
  induction rest generalizing before rest' with
  | nil => exact (List.length_eq_zero_iff.1 lengths.symm).symm
  | cons slot rest ih =>
    cases rest' with
    | nil => cases lengths
    | cons slot' rest' =>
      have same := greedy.next before slot rest split
      rw [greedy'.next before slot' rest' split', Option.some_inj] at same
      subst same
      rw [ih (split.trans (List.append_cons before _ rest))
        (split'.trans (List.append_cons before _ rest')) (Nat.succ.inj lengths)]

/-- **There is at most one such order.** -/
theorem unique (greedy : IsGreedyOrder slots ordered) (greedy' : IsGreedyOrder slots ordered') :
    ordered = ordered' :=
  @eq_of_append _ _ _ greedy greedy' [] _ _ rfl rfl

/-- Every slot stands behind those that it depends on. -/
theorem mem_before (greedy : IsGreedyOrder slots ordered) {before after : List Slot} {slot : Slot}
    (split : ordered = before ++ slot :: after) :
    ∀ dep ∈ slot.deps, dep ∈ before.map Slot.name :=
  (Slot.isReady_iff.1 (List.find?_some (greedy.next before slot after split))).2

/-- A statement feature that comes next is the first one that is ready, and of the slots in front of
the statement features none is. -/
theorem find?_of_group {others groups : List Slot}
    (greedy : IsGreedyOrder (others ++ groups) ordered)
    (ungrouped : ∀ slot ∈ others, slot.isGroup = false) {before after : List Slot} {slot : Slot}
    (split : ordered = before ++ slot :: after) (group : slot.isGroup = true) :
    others.find? (Slot.isReady (before.map Slot.name)) = none ∧
      groups.find? (Slot.isReady (before.map Slot.name)) = some slot := by
  have next := greedy.next before slot after split
  rw [List.find?_append] at next
  cases found : others.find? (Slot.isReady (before.map Slot.name)) with
  | none =>
    rw [found, Option.none_or] at next
    exact ⟨rfl, next⟩
  | some first =>
    rw [found, Option.some_or, Option.some_inj] at next
    have no := ungrouped first (List.mem_of_find?_eq_some found)
    rw [next, group] at no
    cases no

end IsGreedyOrder

/-! ## Linking -/

namespace Graph

/-- What is placed stays placed in front. -/
theorem prefix_orderFrom (edges : List (List Nat)) (steps : Nat) (placed : List Nat) :
    placed <+: orderFrom edges steps placed := by
  induction steps generalizing placed with
  | zero => exact List.prefix_rfl
  | succ steps ih =>
    rw [orderFrom]
    split
    · exact (List.prefix_append _ _).trans (ih _)
    · exact List.prefix_rfl

/-- What comes next in an order is the first slot that is ready. -/
theorem nextReady?_of_orderFrom {edges : List (List Nat)} {steps index : Nat}
    {placed before after : List Nat}
    (split : orderFrom edges steps placed = placed ++ (before ++ index :: after)) :
    nextReady? edges (placed ++ before) = some index := by
  induction steps generalizing placed before with
  | zero =>
    rw [orderFrom, List.self_eq_append_right] at split
    exact absurd split (by simp)
  | succ steps ih =>
    rw [orderFrom] at split
    cases ready : nextReady? edges placed with
    | none =>
      rw [ready] at split
      exact absurd (List.self_eq_append_right.1 split) (by simp)
    | some first =>
      rw [ready] at split
      dsimp only at split
      obtain ⟨more, whole⟩ := prefix_orderFrom edges steps (placed ++ [first])
      have rest : first :: more = before ++ index :: after := by
        rw [← whole, List.append_assoc] at split
        exact List.append_cancel_left split
      cases before with
      | nil =>
        cases rest
        rw [List.append_nil, ready]
      | cons first' before =>
        cases rest
        have next := ih whole.symm
        rwa [List.append_assoc] at next

/-- A slot is ready by name just as it is by place. -/
theorem isReady_eq {graph : Graph} (linked : graph.Linked) {placed : List Nat}
    (within : ∀ place ∈ placed, place < graph.size) {index : Nat} {slot : Slot}
    (here : graph.slots[index]? = some slot) :
    slot.isReady (placed.map graph.name) =
      (index ∉ placed && (graph.edges[index]?.getD []).all fun dep => dep ∈ placed) := by
  have named : slot.name = graph.name index := by simp [Graph.name, nameAt, here]
  have bound : index < graph.size := (List.getElem?_eq_some_iff.1 here).1
  -- Names are distinct, so a name stands among others just where its place does.
  have among : ∀ place < graph.size, graph.name place ∈ placed.map graph.name ↔ place ∈ placed := by
    intro place inside
    refine ⟨fun member => ?_, List.mem_map_of_mem⟩
    obtain ⟨other, there, same⟩ := List.mem_map.1 member
    have first := indexOf?_name linked inside
    rw [← same, indexOf?_name linked (within other there), Option.some_inj] at first
    exact first ▸ there
  rw [Bool.eq_iff_iff, Slot.isReady_iff, named, among index bound]
  simp only [decide_not, Bool.and_eq_true, Bool.not_eq_eq_eq_not, Bool.not_true,
    decide_eq_false_iff_not, List.all_eq_true, decide_eq_true_eq]
  refine and_congr_right fun _ => ⟨fun all target edge => ?_, fun all dep member => ?_⟩
  · obtain ⟨other, found, dep, member, place⟩ := (mem_dependencies linked).1 edge
    rw [here, Option.some_inj] at found
    subst found
    refine (among target (lt_size_of_indexOf? place)).1 ?_
    rw [name_of_indexOf? place]
    exact all dep member
  · obtain ⟨target, place, edge⟩ := exists_indexOf?_of_mem_deps linked here member
    rw [← name_of_indexOf? place]
    exact (among target (lt_size_of_indexOf? place)).2 (all target edge)

/-- Only slots of the graph are put in order. -/
theorem lt_size_of_mem_order {graph : Graph} (linked : graph.Linked) {index : Nat}
    (member : index ∈ graph.order) : index < graph.size := by
  obtain ⟨before, after, split⟩ := List.append_of_mem member
  rw [order_eq] at split
  have next : nextReady? graph.edges ([] ++ before) = some index := nextReady?_of_orderFrom split
  exact linked.length_edges ▸ List.mem_range.1 (List.mem_of_find?_eq_some next)

/-- The names of slots are those at their places. -/
theorem map_name_filterMap {graph : Graph} {places : List Nat}
    (within : ∀ place ∈ places, place < graph.size) :
    (places.filterMap fun place => graph.slots[place]?).map Slot.name = places.map graph.name := by
  induction places with
  | nil => rfl
  | cons place rest ih =>
    obtain ⟨bound, others⟩ := List.forall_mem_cons.1 within
    have here : graph.slots[place]? = some graph.slots[place] := List.getElem?_eq_getElem bound
    have named : graph.name place = graph.slots[place].name := by simp [Graph.name, nameAt, here]
    rw [List.filterMap_cons_some here, List.map_cons, List.map_cons, ih others, named]

/-- **Ordering slots takes the first one that is ready**, again and again. -/
theorem find?_isReady_of_orderedSlots {graph : Graph} (linked : graph.Linked)
    {before after : List Slot} {slot : Slot}
    (split : graph.orderedSlots = before ++ slot :: after) :
    graph.slots.find? (Slot.isReady (before.map Slot.name)) = some slot := by
  obtain ⟨placed, rest, same, rfl, later⟩ := List.filterMap_eq_append_iff.1 split
  obtain ⟨skipped, index, others, rfl, absent, here, -⟩ := List.filterMap_eq_cons_iff.1 later
  have within : ∀ place ∈ placed ++ (skipped ++ index :: others), place < graph.size :=
    fun place member => lt_size_of_mem_order linked (same ▸ member)
  -- All places of the order are those of slots, so none is skipped.
  have none : skipped = [] := by
    refine List.eq_nil_iff_forall_not_mem.2 fun place member => ?_
    have bound := within place (List.mem_append_right _ (List.mem_append_left _ member))
    have missing := absent place member
    rw [List.getElem?_eq_getElem bound] at missing
    cases missing
  subst none
  rw [order_eq] at same
  have next : nextReady? graph.edges ([] ++ placed) = some index := nextReady?_of_orderFrom same
  obtain ⟨ready, inside, first⟩ := List.find?_range_eq_some.1 next
  have inPlaced : ∀ place ∈ placed, place < graph.size :=
    fun place member => within place (List.mem_append_left _ member)
  rw [map_name_filterMap inPlaced, List.find?_eq_some_iff_getElem]
  obtain ⟨bound, value⟩ := List.getElem?_eq_some_iff.1 here
  refine ⟨(isReady_eq linked inPlaced here).trans ready, index, bound, value, ?_⟩
  intro other earlier
  have there := List.getElem?_eq_getElem (Nat.lt_trans earlier bound)
  rw [isReady_eq linked inPlaced there]
  exact first other earlier

/-- No slot is put in order twice. -/
theorem nodup_orderedSlots {graph : Graph} (linked : graph.Linked) :
    (graph.orderedSlots.map Slot.name).Nodup := by
  suffices each : ∀ front rest : List Slot, graph.orderedSlots = front ++ rest →
      (front.map Slot.name).Nodup by
    exact each _ [] (List.append_nil _).symm
  intro front
  induction front using List.reverseRecOn with
  | nil => exact fun _ _ => .nil
  | append_singleton before slot ih =>
    intro rest split
    rw [List.append_assoc, List.singleton_append] at split
    have ready := Slot.isReady_iff.1 (List.find?_some (find?_isReady_of_orderedSlots linked split))
    rw [List.map_append, List.map_singleton, List.nodup_append]
    refine ⟨ih _ split, List.nodup_singleton _, ?_⟩
    rintro name here other single rfl
    exact ready.1 (List.mem_singleton.1 single ▸ here)

/-- Without cycles all slots are put in order. -/
theorem perm_orderedSlots {graph : Graph} (linked : graph.Linked)
    (none : graph.firstCycle? = none) : graph.orderedSlots.Perm graph.slots := by
  refine (List.perm_ext_iff_of_nodup ?_ ?_).2 fun slot =>
    ⟨fun member => ?_, mem_orderedSlots linked none⟩
  · exact List.Nodup.of_map _ (nodup_orderedSlots linked)
  · exact List.Nodup.of_map _ linked.nodup
  · obtain ⟨index, -, found⟩ := List.mem_filterMap.1 member
    exact List.mem_of_getElem? found

end Graph

/-- **Linked slots are in the order** in which always the first one comes next that is ready. -/
theorem isGreedyOrder_of_linkSlots {slots : List Slot} {graph : Graph}
    (linked : linkSlots slots = .ok graph) : IsGreedyOrder slots graph.slots := by
  refine ⟨perm_of_linkSlots linked, fun before slot after parts => ?_⟩
  obtain ⟨unordered, made, ordered⟩ := bind_eq_ok_iff.1 linked
  obtain ⟨rfl, isLinked⟩ := Graph.linked_of_ofSlots made
  split at ordered
  · cases ordered
  · rw [(Graph.linked_of_ofSlots ordered).1] at parts
    exact Graph.find?_isReady_of_orderedSlots isLinked parts

/-- Slots in such an order have no cycles. -/
theorem IsGreedyOrder.not_transGen {slots ordered : List Slot}
    (greedy : IsGreedyOrder slots ordered) (nodup : (slots.map Slot.name).Nodup) (name : String) :
    ¬Relation.TransGen (Graph.DependsOn slots) name name := by
  have nodup' : (ordered.map Slot.name).Nodup := (greedy.perm.map _).nodup_iff.2 nodup
  -- A dependency stands before the slot, so places get smaller along the way.
  have smaller : ∀ {name dep}, Graph.DependsOn slots name dep →
      (ordered.map Slot.name).idxOf dep < (ordered.map Slot.name).idxOf name := by
    rintro name dep ⟨slot, member, rfl, inside⟩
    obtain ⟨before, after, split⟩ := List.append_of_mem (greedy.perm.mem_iff.2 member)
    have earlier := greedy.mem_before split dep inside
    rw [split, List.map_append, List.map_cons] at nodup' ⊢
    have apart : slot.name ∉ before.map Slot.name := fun here =>
      (List.nodup_append.1 nodup').2.2 _ here _ List.mem_cons_self rfl
    rw [List.idxOf_append_of_mem earlier, List.idxOf_append_of_notMem apart]
    exact Nat.lt_of_lt_of_le (List.idxOf_lt_length_of_mem earlier) (Nat.le_add_right _ _)
  have decreasing : ∀ {name dep}, Relation.TransGen (Graph.DependsOn slots) name dep →
      (ordered.map Slot.name).idxOf dep < (ordered.map Slot.name).idxOf name := by
    intro name dep way
    induction way with
    | single step => exact smaller step
    | tail _ step ih => exact Nat.lt_trans (smaller step) ih
  exact fun around => Nat.lt_irrefl _ (decreasing around)

/-- Slots whose graph has no first cycle are linked. -/
theorem exists_linkSlots_of_firstCycle? {slots : List Slot} {unordered : Graph}
    (made : Graph.ofSlots slots = .ok unordered) (none : unordered.firstCycle? = none) :
    ∃ graph, linkSlots slots = .ok graph := by
  obtain ⟨rfl, linked⟩ := Graph.linked_of_ofSlots made
  have perm := Graph.perm_orderedSlots linked none
  obtain ⟨graph, ordered⟩ := Graph.exists_ofSlots (Graph.nodup_orderedSlots linked)
    fun slot member dep inside => (perm.map _).mem_iff.2
      (linked.namesSlots slot (perm.mem_iff.1 member) dep inside)
  refine ⟨graph, bind_eq_ok_iff.2 ⟨unordered, made, ?_⟩⟩
  rw [none]
  exact ordered

/-- Slots without cycles are linked. -/
theorem exists_linkSlots_of_not_transGen {slots : List Slot} (nodup : (slots.map Slot.name).Nodup)
    (names : Graph.NamesSlots slots)
    (acyclic : ∀ name, ¬Relation.TransGen (Graph.DependsOn slots) name name) :
    ∃ graph, linkSlots slots = .ok graph := by
  obtain ⟨unordered, made⟩ := Graph.exists_ofSlots nodup names
  obtain ⟨rfl, linked⟩ := Graph.linked_of_ofSlots made
  have none : unordered.firstCycle? = none := by
    refine List.findSome?_eq_none_iff.2 fun cycle member => ?_
    exact Option.isNone_iff_eq_none.1
      (List.all_eq_true.1 ((Graph.isAcyclic_iff linked).2 acyclic) cycle member)
  exact exists_linkSlots_of_firstCycle? made none

/-- **Slots that have such an order are linked in it.** -/
theorem exists_linkSlots_of_isGreedyOrder {slots ordered : List Slot}
    (greedy : IsGreedyOrder slots ordered) (nodup : (slots.map Slot.name).Nodup)
    (names : Graph.NamesSlots slots) :
    ∃ graph, linkSlots slots = .ok graph ∧ graph.slots = ordered := by
  obtain ⟨graph, linked⟩ := exists_linkSlots_of_not_transGen nodup names (greedy.not_transGen nodup)
  exact ⟨graph, linked, (isGreedyOrder_of_linkSlots linked).unique greedy⟩

end RuleGraph
