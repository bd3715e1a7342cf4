import RuleGraph.Proofs.Compile.Added
import RuleGraph.Proofs.Graph.Recorded

/-! # The order of a compiled graph

Among all orders of the lowered slots in which every slot stands behind its dependencies, the slots
of a compiled graph are in the one that comes first when orders are compared by the places that
their slots were lowered at.

* **`IsDependencyOrder`** — every slot stands behind its dependencies.
* **`IsGreedyOrder.lex_placesIn`** — always taking the first ready slot gives the first order.
* **`IsDependencyOrder.linkSlots_self`** — a graph in such an order stays as it is.
* **`compile?_canonical`** — the order of a compiled graph.
-/

namespace RuleGraph

variable {slots ordered other : List Slot}

/-- Every slot stands behind the slots that it depends on. -/
def IsDependencyOrder (ordered : List Slot) : Prop :=
  ∀ before slot after, ordered = before ++ slot :: after →
    ∀ dep ∈ slot.deps, dep ∈ before.map Slot.name

/-- The places that slots have among given ones. -/
def placesIn (slots ordered : List Slot) : List Nat :=
  ordered.map fun slot => slots.idxOf slot

/-- Always taking the first slot that is ready puts every slot behind its dependencies. -/
theorem IsGreedyOrder.isDependencyOrder (greedy : IsGreedyOrder slots ordered) :
    IsDependencyOrder ordered :=
  fun _ _ _ split => greedy.mem_before split

/-- In a dependency order every slot is ready when its turn comes. -/
theorem IsDependencyOrder.isReady (dependency : IsDependencyOrder ordered)
    (nodup : (ordered.map Slot.name).Nodup) {before after : List Slot} {slot : Slot}
    (split : ordered = before ++ slot :: after) :
    slot.isReady (before.map Slot.name) = true := by
  refine Slot.isReady_iff.2 ⟨fun again => ?_, dependency before slot after split⟩
  rw [split, List.map_append, List.map_cons, List.nodup_append] at nodup
  exact nodup.2.2 _ again _ List.mem_cons_self rfl

/-- The first slot that is ready has the least place of all slots that are. -/
theorem idxOf_le_of_find?_eq_some (nodup : slots.Nodup) {ready : Slot → Bool} {slot other : Slot}
    (first : slots.find? ready = some slot) (here : ready other = true) :
    slots.idxOf slot ≤ slots.idxOf other := by
  obtain ⟨-, index, bound, rfl, earlier⟩ := List.find?_eq_some_iff_getElem.1 first
  rw [nodup.idxOf_getElem index bound]
  refine Nat.le_of_not_lt fun less => ?_
  have missed := earlier (slots.idxOf other) less
  rw [List.getElem_idxOf, here] at missed
  cases missed

/-- **Always taking the first slot that is ready gives the first order** of all in which every slot
stands behind its dependencies, compared by places. -/
theorem IsGreedyOrder.lex_placesIn (greedy : IsGreedyOrder slots ordered)
    (nodup : (slots.map Slot.name).Nodup) (perm : other.Perm slots)
    (dependency : IsDependencyOrder other) :
    other = ordered ∨ List.Lex (· < ·) (placesIn slots ordered) (placesIn slots other) := by
  have apart : slots.Nodup := .of_map _ nodup
  suffices each : ∀ {before rest rest' : List Slot}, ordered = before ++ rest →
      other = before ++ rest' →
      rest' = rest ∨ List.Lex (· < ·) (placesIn slots rest) (placesIn slots rest') by
    exact @each [] _ _ rfl rfl
  intro before rest rest' split split'
  -- Both orders have all slots, so neither ends before the other.
  have lengths : rest.length = rest'.length := by
    have same := greedy.perm.length_eq.trans perm.length_eq.symm
    rw [split, split', List.length_append, List.length_append] at same
    omega
  induction rest generalizing before rest' with
  | nil => exact .inl (List.length_eq_zero_iff.1 lengths.symm)
  | cons slot rest ih =>
    cases rest' with
    | nil => cases lengths
    | cons slot' rest' =>
      have first := greedy.next before slot rest split
      have ready := dependency.isReady ((perm.map _).nodup_iff.2 nodup) split'
      rcases Nat.lt_or_eq_of_le (idxOf_le_of_find?_eq_some apart first ready) with less | same
      · exact .inr (.rel less)
      · -- The slots are the same, and the orders go on from there.
        obtain rfl := (List.idxOf_inj (List.mem_of_find?_eq_some first)).1 same
        have later := ih (split.trans (List.append_cons before _ rest))
          (split'.trans (List.append_cons before _ rest')) (Nat.succ.inj lengths)
        exact later.imp (congrArg _) .cons

/-- Slots in a dependency order are in the order in which always the first one comes next that is
ready. -/
theorem IsDependencyOrder.isGreedyOrder_self (dependency : IsDependencyOrder slots)
    (nodup : (slots.map Slot.name).Nodup) : IsGreedyOrder slots slots := by
  refine ⟨.refl _, fun before slot after split => ?_⟩
  have ready := dependency.isReady nodup split
  have passed : before.find? (Slot.isReady (before.map Slot.name)) = none := by
    refine List.find?_eq_none.2 fun other member => ?_
    rw [Slot.isReady_iff]
    exact fun fresh => fresh.1 (List.mem_map_of_mem member)
  conv_lhs => rw [split]
  rw [List.find?_append, passed, Option.none_or, List.find?_cons_of_pos ready]

/-- **A graph in a dependency order stays as it is** when it is put in order. -/
theorem IsDependencyOrder.linkSlots_self {graph : Graph} (built : graph.IsBuilt)
    (dependency : IsDependencyOrder graph.slots) :
    graph.orderedSlots = graph.slots ∧ linkSlots graph.slots = .ok graph := by
  have greedy := dependency.isGreedyOrder_self built.linked.nodup
  obtain ⟨graph', linked, same⟩ := exists_linkSlots_of_isGreedyOrder greedy built.linked.nodup
    built.linked.namesSlots
  obtain rfl := built.ext (isBuilt_of_linkSlots linked).1 same
  refine ⟨?_, linked⟩
  obtain ⟨slots, made⟩ := built
  obtain ⟨rfl, isLinked⟩ := Graph.linked_of_ofSlots made
  have none := Graph.isAcyclic_iff_firstCycle?.1 ((exists_linkSlots_iff made).1 ⟨_, linked⟩)
  have again : IsGreedyOrder graph'.slots graph'.orderedSlots :=
    ⟨Graph.perm_orderedSlots isLinked none,
      fun _ _ _ split => Graph.find?_isReady_of_orderedSlots isLinked split⟩
  exact again.unique greedy

variable {scope : Scope} {limit rounds : Nat} {program : Program} {graph : Graph}

/-- **A compiled graph is in canonical order.** Its slots are those that its program is lowered to:
first those of its definitions, then those of the features that hooks have added, then the statement
features. In the graph every slot stands behind those that it depends on, and of all such orders of
these slots it is the first one, compared by the places at which slots were lowered. To put it in
order again changes nothing. -/
theorem compile?_canonical (compiled : compile? scope limit rounds program = .ok (some graph)) :
    ∃ slots, lowerProgram? scope limit rounds program = .ok (some slots) ∧
      (∃ defined added groups, slots = defined.flatten ++ added ++ groups ∧
        program.LowersTo scope limit rounds defined added groups) ∧
      (slots.map Slot.name).Nodup ∧ graph.slots.Perm slots ∧ IsDependencyOrder graph.slots ∧
      (∀ other, other.Perm slots → IsDependencyOrder other →
        other = graph.slots ∨
          List.Lex (· < ·) (placesIn slots graph.slots) (placesIn slots other)) ∧
      graph.orderedSlots = graph.slots ∧ linkSlots graph.slots = .ok graph := by
  obtain ⟨found, lowered, rest⟩ := bind_eq_ok_iff.1 compiled
  cases found with
  | none => cases rest
  | some slots =>
    obtain ⟨graph', linked, same⟩ := bind_eq_ok_iff.1 rest
    cases same
    have greedy := isGreedyOrder_of_linkSlots linked
    have built := (isBuilt_of_linkSlots linked).1
    have nodup := (greedy.perm.map Slot.name).nodup_iff.1 built.linked.nodup
    exact ⟨slots, lowered, lowersTo_of_lowerProgram? lowered, nodup, greedy.perm,
      greedy.isDependencyOrder,
      fun other perm dependency => greedy.lex_placesIn nodup perm dependency,
      greedy.isDependencyOrder.linkSlots_self built⟩

/-! ## A feature that a hook adds -/

/-- A hook that adds an input and stands for it, and a statement. -/
def Scope.extra : Scope where
  catalog := { entries := [
    .ofRegistration none {
      name := "extra"
      kind := .custom fun _ => .define "Extra" (.call "input" []) fun _ =>
        .finish (.ok (.feature "Extra")) },
    .ofRegistration none {
      name := "note", kind := .statement "Notes" fun _ _ => .finish (.ok ()) }] }

/-- A feature that waits for what the hook adds, one that waits for an input further on, and a
statement. -/
def Program.extra : Program :=
  [.feature "B" (.custom "extra" ""), .feature "C" (.feature "A"), .input "A",
    .rule none [.call "note" [.feature "C"]]]

/-- The slots in the order in which they are lowered. -/
def Slot.extra : List Slot :=
  [.feature "B" (.feature "Extra"), .feature "C" (.feature "A"), .input "A",
    .statement "Notes#0" "Notes" none (.call "note" [.feature "C"]), .input "Extra",
    .group "Notes" ["Notes#0"]]

/-- Their graph: the first two slots have to wait. -/
def Graph.extra : Graph where
  slots := [.input "A", .feature "C" (.feature "A"),
    .statement "Notes#0" "Notes" none (.call "note" [.feature "C"]), .input "Extra",
    .feature "B" (.feature "Extra"), .group "Notes" ["Notes#0"]]
  edges := [[], [0], [1], [], [3], [2]]
  cycles := [none, none, none, none, none, none]

/-- The first order in which every slot stands behind its dependencies. -/
theorem compile?_canonical_of_extra :
    compile? .extra 10 2 .extra = .ok (some .extra) ∧
      lowerProgram? .extra 10 2 .extra = .ok (some Slot.extra) ∧
      Graph.extra.slots.Perm Slot.extra ∧ IsDependencyOrder Graph.extra.slots ∧
      placesIn Slot.extra Graph.extra.slots = [2, 1, 3, 4, 0, 5] ∧
      linkSlots Graph.extra.slots = .ok .extra := by
  have compiled : compile? .extra 10 2 .extra = .ok (some .extra) := by decide +kernel
  have lowered : lowerProgram? .extra 10 2 .extra = .ok (some Slot.extra) := by decide +kernel
  obtain ⟨slots, lowered', -, -, perm, dependency, -, -, again⟩ := compile?_canonical compiled
  rw [lowered] at lowered'
  cases lowered'
  exact ⟨compiled, lowered, perm, dependency, by decide +kernel, again⟩

end RuleGraph
