import RuleGraph.Proofs.Graph.Order

/-! # Cycles by name

What a slot knows of cycles is told by names. It knows one if and only if following dependencies
from it leads around a cycle, and the one that it knows is such a cycle, told once around.

* **`Graph.ReachesCycle`** — following dependencies from a name leads around a cycle.
* **`Graph.IsCycleFrom`** — names once around a cycle that can be reached from a name.
* **`Graph.exists_cycleFrom?_iff`** — a slot knows a cycle if and only if it reaches one.
* **`Graph.isCycleFrom_of_cycleFrom?`** — what it knows is such a cycle.
* **`Graph.firstCycle?_eq_some_iff`** — which of the cycles is told for a graph.
* **`linkSlots_eq_error_iff`**, **`exists_linkSlots_iff`** — cycles are what linking refuses.
-/

namespace RuleGraph

open Relation

namespace Graph

variable {slots : List Slot} {graph : Graph} {index target : Nat} {path : List String}

/-- Following dependencies from a name leads around a cycle of them. -/
def ReachesCycle (slots : List Slot) (start : String) : Prop :=
  ∃ turn, ReflTransGen (DependsOn slots) start turn ∧ TransGen (DependsOn slots) turn turn

/-- Names once around a cycle of dependencies that can be reached from a name. -/
structure IsCycleFrom (slots : List Slot) (start : String) (path : List String) : Prop where
  /-- At least one dependency is followed. -/
  long : 2 ≤ path.length
  /-- The first name is the last one again. -/
  closed : path.head? = path.getLast?
  /-- No other name stands twice. -/
  simple : path.dropLast.Nodup
  /-- Each name is followed by one of its dependencies. -/
  links : path.IsChain (DependsOn slots)
  /-- All of them can be reached. -/
  reached : ∀ name ∈ path, ReflTransGen (DependsOn slots) start name

/-- What is reached from a slot of the graph is a slot of the graph. -/
theorem lt_size_of_reflTransGen (linked : graph.Linked) (bound : index < graph.size)
    (reaches : ReflTransGen (Leads graph.edges) index target) : target < graph.size := by
  cases reaches with
  | refl => exact bound
  | tail _ edge => exact lt_size_of_mem_dependencies linked edge

/-- Slots of the same name are the same. -/
theorem eq_of_name_eq (linked : graph.Linked) (bound : index < graph.size)
    (bound' : target < graph.size) (same : graph.name index = graph.name target) :
    index = target := by
  have place := indexOf?_name linked bound
  rwa [same, indexOf?_name linked bound', Option.some_inj, eq_comm] at place

/-- A slot is not grounded if and only if following edges from it leads around a cycle. -/
theorem not_grounded_iff (linked : graph.Linked) (bound : index < graph.size) :
    ¬Grounded graph.edges index ↔
      ∃ turn, ReflTransGen (Leads graph.edges) index turn ∧
        TransGen (Leads graph.edges) turn turn := by
  constructor
  · intro endless
    obtain ⟨found, -, verdict⟩ :=
      findCycles_spec linked.lt_length_edges (linked.length_edges ▸ bound)
    cases found with
    | none => exact absurd verdict endless
    | some cycle => exact verdict.exists_cycle
  · rintro ⟨turn, reaches, around⟩ grounded
    exact (grounded.of_reaches reaches).not_transGen around

/-- **A slot knows a cycle if and only if following dependencies from it leads around one.** -/
theorem exists_cycleFrom?_iff (linked : graph.Linked) (bound : index < graph.size) :
    (∃ path, graph.cycleFrom? index = some path) ↔
      ReachesCycle graph.slots (graph.name index) := by
  rw [← Option.ne_none_iff_exists', ne_eq, cycleFrom?_eq_none_iff linked bound,
    not_grounded_iff linked bound]
  constructor
  · rintro ⟨turn, reaches, around⟩
    have byName := fun a b => @dependsOn_of_leads _ a linked b
    exact ⟨graph.name turn, reaches.lift graph.name byName, around.lift graph.name byName⟩
  · rintro ⟨turn, reaches, around⟩
    obtain ⟨place, found, edges⟩ :=
      exists_reflTransGen_leads linked reaches (indexOf?_name linked bound)
    obtain ⟨again, same, back⟩ := exists_transGen_leads linked around found
    rw [found, Option.some_inj] at same
    exact ⟨place, edges, same ▸ back⟩

/-- Slots once around a cycle have names once around it. -/
theorem isCycleFrom_of_closesFrom (linked : graph.Linked) (bound : index < graph.size)
    {cycle : List Nat} (closes : ClosesFrom graph.edges index cycle) :
    IsCycleFrom graph.slots (graph.name index) (cycle.map graph.name) where
  long := by rw [List.length_map]; exact closes.long
  closed := by rw [List.head?_map, List.getLast?_map, closes.closed]
  simple := by
    rw [← List.map_dropLast]
    refine (List.nodup_map_iff_inj_on closes.simple).2 fun a member b member' same => ?_
    -- All slots of the cycle are slots of the graph, whose names are distinct.
    have inside : ∀ slot ∈ cycle.dropLast, slot < graph.size := fun slot member =>
      lt_size_of_reflTransGen linked bound
        (closes.reaches_of_mem (List.dropLast_subset cycle member))
    exact eq_of_name_eq linked (inside a member) (inside b member') same
  links := (List.isChain_map graph.name).2
    (closes.links.imp fun a b => dependsOn_of_leads linked)
  reached := by
    intro name member
    obtain ⟨slot, inside, rfl⟩ := List.mem_map.1 member
    exact (closes.reaches_of_mem inside).lift graph.name fun a b => dependsOn_of_leads linked

/-- **What a slot knows is a cycle that can be reached from it**, told once around. -/
theorem isCycleFrom_of_cycleFrom? (linked : graph.Linked) (bound : index < graph.size)
    (known : graph.cycleFrom? index = some path) :
    IsCycleFrom graph.slots (graph.name index) path := by
  obtain ⟨found, here, verdict⟩ :=
    findCycles_spec linked.lt_length_edges (linked.length_edges ▸ bound)
  rw [cycleFrom?, linked.cycles, List.getElem?_map, here] at known
  cases found with
  | none => cases known
  | some cycle =>
    cases known
    exact isCycleFrom_of_closesFrom linked bound verdict

/-- Every slot has a place among the cycles. -/
theorem Linked.length_cycles (linked : graph.Linked) : graph.cycles.length = graph.size := by
  rw [linked.cycles, List.length_map, length_findCycles linked.lt_length_edges,
    linked.length_edges]

/-- The first cycle of a graph is that of the first slot that knows one. -/
theorem firstCycle?_eq_some_iff :
    graph.firstCycle? = some path ↔
      ∃ index, graph.cycleFrom? index = some path ∧
        ∀ earlier < index, graph.cycleFrom? earlier = none := by
  rw [firstCycle?, List.findSome?_eq_some_iff]
  constructor
  · rintro ⟨before, cycle, after, split, rfl, none⟩
    refine ⟨before.length, ?_, fun earlier less => ?_⟩
    · rw [cycleFrom?, split]
      simp
    · have here := List.getElem?_eq_getElem less
      rw [cycleFrom?, split, List.getElem?_append_left less, here]
      exact none _ (List.getElem_mem less)
  · rintro ⟨index, known, none⟩
    rw [cycleFrom?, Option.join_eq_some_iff] at known
    obtain ⟨bound, here⟩ := List.getElem?_eq_some_iff.1 known
    refine ⟨graph.cycles.take index, some path, graph.cycles.drop (index + 1), ?_, rfl, ?_⟩
    · rw [← here, ← List.drop_eq_getElem_cons bound, List.take_append_drop]
    · intro cycle member
      obtain ⟨earlier, less, rfl⟩ := List.mem_take_iff_getElem.1 member
      have missing := none earlier (by omega)
      rwa [cycleFrom?, List.getElem?_eq_getElem (by omega)] at missing

/-- Without a first cycle a graph is acyclic, and only then. -/
theorem isAcyclic_iff_firstCycle? : graph.isAcyclic = true ↔ graph.firstCycle? = none := by
  rw [isAcyclic, List.all_eq_true, firstCycle?, List.findSome?_eq_none_iff]
  exact forall₂_congr fun cycle _ => Option.isNone_iff_eq_none

end Graph

/-! ## Linking -/

variable {slots : List Slot} {graph : Graph} {path : List String}

/-- **Linking refuses slots for a cycle if and only if it is the first one of their graph.** -/
theorem linkSlots_eq_error_iff (made : Graph.ofSlots slots = .ok graph) :
    linkSlots slots = .error (.cyclicDependency path) ↔ graph.firstCycle? = some path := by
  rw [linkSlots, made]
  cases first : graph.firstCycle? with
  | some cycle =>
    simp only [bind, Except.bind, throw, throwThe, MonadExceptOf.throw, Except.error.injEq,
      CompileError.cyclicDependency.injEq, Option.some_inj, first]
  | none =>
    obtain ⟨linked, done⟩ := exists_linkSlots_of_firstCycle? made first
    rw [linkSlots, made] at done
    rw [done]
    simp

/-- **Slots that make a graph are linked if and only if it is acyclic.** -/
theorem exists_linkSlots_iff (made : Graph.ofSlots slots = .ok graph) :
    (∃ linked, linkSlots slots = .ok linked) ↔ graph.isAcyclic = true := by
  rw [Graph.isAcyclic_iff_firstCycle?]
  constructor
  · rintro ⟨linked, done⟩
    cases first : graph.firstCycle? with
    | none => rfl
    | some cycle => rw [(linkSlots_eq_error_iff made).2 first] at done; cases done
  · exact exists_linkSlots_of_firstCycle? made

end RuleGraph
