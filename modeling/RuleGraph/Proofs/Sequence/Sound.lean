import RuleGraph.Proofs.Sequence.Heading
import RuleGraph.Proofs.Waits.Acyclic

/-! # Sound states

While slots wait along dependencies only, and these lead around no cycle, no request along a
dependency is refused.

* **`Graph.IsWay`** — slots in a row, each of which depends on the next one.
* **`State.IsSound`** — slots wait along dependencies, and plain ones have come to what the
  reference evaluator says.
* **`State.IsSound.request`** — then requests are granted, or have to wait.
-/

namespace RuleGraph

open Relation

/-! ## Ways -/

/-- Slots of the graph in a row, each of which depends on the next one. -/
structure Graph.IsWay (graph : Graph) (path : List Nat) : Prop extends graph.IsPath path where
  /-- Each depends on the next one. -/
  links : path.IsChain (Leads graph.edges)

namespace Graph.IsWay

variable {graph : Graph} {path : List Nat} {index : Nat}

/-- The way of the host. -/
theorem nil : graph.IsWay [] := ⟨.nil, .nil⟩

/-- What the last slot of a way depends on is reached from all of its slots. -/
theorem transGen (way : graph.IsWay path)
    (edge : ∀ slot ∈ path.getLast?, Leads graph.edges slot index) {slot : Nat}
    (member : slot ∈ path) : TransGen (Leads graph.edges) slot index := by
  have last := List.getLast?_eq_some_getLast (List.ne_nil_of_mem member)
  exact .tail' (reflTransGen_of_mem_of_isChain way.links member last) (edge _ last)

/-- A way goes on along dependencies, if there is no cycle ahead. -/
theorem concat (way : graph.IsWay path) (bound : index < graph.size)
    (grounded : Grounded graph.edges index)
    (edge : ∀ slot ∈ path.getLast?, Leads graph.edges slot index) :
    graph.IsWay (path ++ [index]) := by
  have fresh : index ∉ path := fun member => grounded.not_transGen (way.transGen edge member)
  refine ⟨way.toIsPath.concat bound fresh, List.isChain_append.2 ⟨way.links, .singleton _, ?_⟩⟩
  intro slot last target first
  rw [List.head?_cons, Option.mem_some_iff] at first
  exact first ▸ edge slot last

/-- A way that goes on is shorter than there are slots. -/
theorem length_lt (way : graph.IsWay (path ++ [index])) : path.length < graph.size := by
  have longer := way.toIsPath.length_le
  rwa [List.length_append, List.length_singleton] at longer

end Graph.IsWay

/-! ## Sound states -/

namespace State

/-- While the slots of a path are computed: slots wait along dependencies only, besides the slots of
the path only such are computed that may have to wait, and plain slots have come to what the
reference evaluator says. -/
structure IsSound (state : State) (setting : Setting) (results : Results) (path : List Nat) :
    Prop where
  /-- Every slot has a cell. -/
  length : state.cells.length = setting.graph.size
  /-- Slots wait for what they depend on. -/
  waits : ∀ slot target, state.waits.Edge slot target →
    TransGen (Leads setting.graph.edges) slot target
  /-- Only what may have to wait is computed besides. -/
  busy : ∀ index, state.cell index = .computing → index ∈ path ∨ setting.MayWait index
  /-- Plain slots have come to what the reference evaluator says. -/
  agrees : ∀ index outcome, setting.graph.IsPlain index → state.outcome? index = some outcome →
    outcome = setting.known results (setting.graph.name index)

namespace IsSound

variable {setting : Setting} {results : Results} {state state' : State} {path : List Nat}
  {index : Nat} {outcome : Outcome}

section

variable (sound : state.IsSound setting results path)
include sound

/-- Nothing but cells and waits matters. -/
theorem congr (cells : state'.cells = state.cells) (waits : state'.waits = state.waits) :
    state'.IsSound setting results path := by
  refine ⟨cells ▸ sound.length, waits ▸ sound.waits, fun index busy => ?_,
    fun index outcome plain kept => ?_⟩
  · exact sound.busy index ((cell_congr cells).symm.trans busy)
  · rw [outcome?, cell_congr cells] at kept
    exact sound.agrees index outcome plain kept

/-- Deeds do not matter. -/
theorem actAll (deeds : List Deed) : (state.actAll setting deeds).IsSound setting results path :=
  sound.congr (cells_actAll deeds).1 (cells_actAll deeds).2.1

/-- The computation of a further slot begins. -/
theorem begin (bound : index < setting.graph.size) :
    (state.begin index).IsSound setting results (path ++ [index]) := by
  have inside : index < state.cells.length := sound.length ▸ bound
  refine ⟨by simpa using sound.length, sound.waits, fun other busy => ?_,
    fun other outcome plain kept => ?_⟩
  · by_cases same : other = index
    · exact .inl (List.mem_append_right _ (List.mem_singleton.2 same))
    · rw [State.begin, cell_setCell_ne same] at busy
      exact (sound.busy other busy).imp_left (List.mem_append_left _)
  · by_cases same : other = index
    · rw [same, outcome?, cell_begin_self inside] at kept
      cases kept
    · rw [outcome?, State.begin, cell_setCell_ne same] at kept
      exact sound.agrees other outcome plain kept

/-- A further slot of the path may be computed or not. -/
theorem deeper (index : Nat) : state.IsSound setting results (path ++ [index]) :=
  ⟨sound.length, sound.waits,
    fun other busy => (sound.busy other busy).imp_left (List.mem_append_left _), sound.agrees⟩

/-- Where waits lead, dependencies lead. -/
theorem reaches {slot target : Nat} (way : ReflTransGen state.waits.Edge slot target) :
    ReflTransGen (Leads setting.graph.edges) slot target :=
  way.lift' id fun _ _ wait => (sound.waits _ _ wait).to_reflTransGen

/-- A wait along a dependency is noted. -/
theorem addWait (edge : ∀ slot ∈ path.getLast?, Leads setting.graph.edges slot index) :
    (state.addWait path index).IsSound setting results path := by
  refine ⟨by simpa using sound.length, fun slot target wait => ?_, fun other busy => ?_,
    fun other outcome plain kept => ?_⟩
  · rw [State.addWait] at wait
    cases last : path.getLast? with
    | none =>
      rw [last] at wait
      exact sound.waits slot target wait
    | some waiter =>
      rw [last] at wait
      -- Waits lead along dependencies, with or without the further one.
      rcases Waits.transGen_add (.single wait) with old | ⟨before, behind⟩
      · exact old.lift' id sound.waits
      · exact (TransGen.tail' (sound.reaches before) (edge waiter last)).trans_left
          (sound.reaches behind)
  · exact sound.busy other ((cell_congr cells_addWait).symm.trans busy)
  · rw [outcome?, cell_congr cells_addWait] at kept
    exact sound.agrees other outcome plain kept

/-- A wait is over. -/
theorem removeWait : (state.removeWait path index).IsSound setting results path := by
  refine ⟨by simpa using sound.length, fun slot target wait => ?_, fun other busy => ?_,
    fun other outcome plain kept => ?_⟩
  · rw [Waits.edge_iff_times_pos, times_removeWait] at wait
    exact sound.waits slot target
      (Waits.edge_iff_times_pos.2 (Nat.lt_of_lt_of_le wait (Nat.sub_le _ _)))
  · exact sound.busy other ((cell_congr cells_removeWait).symm.trans busy)
  · rw [outcome?, cell_congr cells_removeWait] at kept
    exact sound.agrees other outcome plain kept

/-- **A request along a dependency is not refused.** -/
theorem request (way : setting.graph.IsWay path) (grounded : Grounded setting.graph.edges index)
    (acyclic : setting.graph.cycleFrom? index = none)
    (edge : ∀ slot ∈ path.getLast?, Leads setting.graph.edges slot index)
    (unknown : state.outcome? index = none) :
    state.request setting path index =
      (if state.cell index matches .computing then .delayed else .granted,
        state.addWait path index) := by
  have fresh : index ∉ path := fun member => grounded.not_transGen (way.transGen edge member)
  have chain : state.waits.chain? index path = none := by
    refine Waits.chain?_eq_none_iff.2 fun slot member reaches => grounded.not_transGen ?_
    -- Waits lead along dependencies, and so does the path.
    exact .trans_right (sound.reaches reaches) (way.transGen edge member)
  have cycle : state.cycleOf? setting path index = none := by
    rw [cycleOf?, acyclic]
    simp only [if_neg fresh, chain, Option.map_none, ite_self]
  rw [State.request, unknown]
  simp only [cycle]
  cases state.cell index <;> rfl

end

/-- A slot that may have to wait may be computed beside the path. -/
theorem beside (sound : state.IsSound setting results (path ++ [index]))
    (waits : setting.MayWait index) : state.IsSound setting results path := by
  refine ⟨sound.length, sound.waits, fun other busy => ?_, sound.agrees⟩
  rcases sound.busy other busy with member | slow
  · rcases List.mem_append.1 member with early | last
    · exact .inl early
    · exact .inr (List.mem_singleton.1 last ▸ waits)
  · exact .inr slow

/-- The slot that was computed last is done. -/
theorem answer (sound : state.IsSound setting results (path ++ [index]))
    (bound : index < setting.graph.size) (settles : setting.graph.IsPlain index →
      outcome = setting.known results (setting.graph.name index)) :
    (state.answer path index outcome).IsSound setting results path := by
  have inside : index < state.cells.length := sound.length ▸ bound
  have settled : (state.settle index outcome).IsSound setting results path := by
    have cells : ∀ other, (state.settle index outcome).cell other =
        (state.setCell index (.settled outcome state.mark)).cell other := fun _ => rfl
    refine ⟨?_, sound.waits, fun other busy => ?_, fun other outcome' plain kept => ?_⟩
    · exact List.length_set.trans sound.length
    · by_cases same : other = index
      · rw [cells, same, cell_setCell_self inside] at busy
        cases busy
      · rw [cells, cell_setCell_ne same] at busy
        refine (sound.busy other busy).imp_left fun member => ?_
        exact (List.mem_append.1 member).resolve_right fun last => same (List.mem_singleton.1 last)
    · by_cases same : other = index
      · rw [outcome?, cells, same, cell_setCell_self inside] at kept
        cases kept
        exact same ▸ settles (same ▸ plain)
      · rw [outcome?, cells, cell_setCell_ne same] at kept
        exact sound.agrees other outcome' plain kept
  exact settled.removeWait

end IsSound

end State

end RuleGraph
