import RuleGraph.Proofs.Interleaving.Holdings
import RuleGraph.Proofs.Waits.Chain
import Mathlib.Data.Fintype.Card
import Mathlib.Data.Set.Finite.Basic
import Mathlib.Order.WellFounded

/-! # No deadlocks

A request is refused if the slot requested waits for its own path, however long the way. That is
enough to keep all waits, whoever they belong to, free of cycles.

* **`Waits.IsAcyclic`** — no slot waits for itself.
* **`Thread.Step.isAcyclic`** — a step closes no cycle of waits.
* **`Execution.Reaches.waits_exact`** — in every session the waits on record are those of the
  computations, they form no cycle, and none is left when all requests are answered.
-/

namespace RuleGraph

open Relation

namespace Waits

variable {waits waits' : Waits} {slot target : Nat}

/-- No slot waits for itself, however long the way. -/
def IsAcyclic (waits : Waits) : Prop := ∀ slot, ¬TransGen waits.Edge slot slot

/-- A wait is one that is on record at least once. -/
theorem edge_iff_times_pos : waits.Edge slot target ↔ 0 < waits.times (slot, target) :=
  (@times_pos waits (slot, target)).symm

/-- Fewer waits close no cycle. -/
theorem IsAcyclic.mono (acyclic : waits.IsAcyclic)
    (fewer : ∀ wait, waits'.times wait ≤ waits.times wait) : waits'.IsAcyclic := by
  intro slot cycle
  refine acyclic slot (TransGen.mono (fun first last edge => ?_) slot slot cycle)
  rw [edge_iff_times_pos] at edge ⊢
  exact Nat.lt_of_lt_of_le edge (fewer _)

/-- A further wait leads along the waits there were, or along them to the slot and on from the
target. -/
theorem transGen_add {first last : Nat} (way : TransGen (waits.add slot target).Edge first last) :
    TransGen waits.Edge first last ∨
      ReflTransGen waits.Edge first slot ∧ ReflTransGen waits.Edge target last := by
  -- An edge is one of the waits there were, or the new one.
  have cases_edge : ∀ {a b}, (waits.add slot target).Edge a b →
      waits.Edge a b ∨ a = slot ∧ b = target := by
    intro a b edge
    rw [Edge, targets, add, List.getElem?_set] at edge
    split at edge
    · rename_i same
      split at edge
      · rcases List.mem_append.1 edge with old | new
        · exact .inl (same ▸ old)
        · exact .inr ⟨same.symm, List.mem_singleton.1 new⟩
      · simp at edge
    · exact .inl edge
  induction way with
  | single edge =>
    rcases cases_edge edge with old | ⟨rfl, rfl⟩
    · exact .inl (.single old)
    · exact .inr ⟨.refl, .refl⟩
  | tail _ edge ih =>
    rcases cases_edge edge with old | ⟨rfl, rfl⟩
    · rcases ih with way | ⟨before, behind⟩
      · exact .inl (way.tail old)
      · exact .inr ⟨before, behind.tail old⟩
    · rcases ih with way | ⟨before, -⟩
      · exact .inr ⟨way.to_reflTransGen, .refl⟩
      · exact .inr ⟨before, .refl⟩

/-- **A wait for a slot from which no wait leads back closes no cycle.** -/
theorem IsAcyclic.add (acyclic : waits.IsAcyclic) (free : ¬ReflTransGen waits.Edge target slot) :
    (waits.add slot target).IsAcyclic := by
  intro around cycle
  rcases transGen_add cycle with old | ⟨before, behind⟩
  · exact acyclic around old
  · exact free (behind.trans before)

end Waits

/-- From a slot whose request is not refused, no wait leads to the path. -/
theorem State.not_reaches_of_cycleOf? {state : State} {setting : Setting} {path : List Nat}
    {index : Nat} (free : state.cycleOf? setting path index = none) :
    ∀ slot ∈ path, ¬ReflTransGen state.waits.Edge index slot := by
  intro slot member
  rw [State.cycleOf?] at free
  split at free
  · cases free
  · rw [if_neg] at free
    · rw [if_neg (by simpa using List.ne_nil_of_mem member), Option.map_eq_none_iff] at free
      exact Waits.chain?_eq_none_iff.1 free slot member
    · intro onPath
      rw [if_pos onPath] at free
      cases free

/-- **A step closes no cycle of waits.** -/
theorem Thread.Step.isAcyclic {setting : Setting} {path : List Nat} {thread thread' : Thread}
    {state state' : State} {trace : Trace}
    (step : Step setting path thread state trace thread' state')
    (acyclic : state.waits.IsAcyclic) : state'.waits.IsAcyclic := by
  induction step with
  | finish | invoke | pause | sleep | wake | reuse | refuse | compute | limit | conclude | join
  | gather => exact acyclic
  | perform => rwa [State.waits_perform]
  | @await path _ _ index _ state _ free =>
    rw [State.addWait]
    split
    · rename_i slot last
      -- The request was not refused, so no wait leads from the target back to the slot.
      exact acyclic.add (State.not_reaches_of_cycleOf? free slot (List.mem_of_getLast? last))
    · exact acyclic
  | hear =>
    refine acyclic.mono fun wait => ?_
    rw [State.times_removeWait]
    exact Nat.sub_le _ _
  | giveUp | answer | complete =>
    refine acyclic.mono fun wait => ?_
    rw [State.waits_answer, State.times_removeWait]
    exact Nat.sub_le _ _
  | expire =>
    refine acyclic.mono fun wait => ?_
    rw [State.waits_answer, State.times_removeWait, State.waits_timeOut, Thread.times_cancel]
    omega
  | drop =>
    refine acyclic.mono fun wait => ?_
    rw [Thread.times_cancel]
    exact Nat.sub_le _ _
  | inside _ ih | beneath _ ih | side _ ih => exact ih acyclic

namespace Execution

variable {execution : Execution} {trace : Trace} {session : Session}

/-- **In every session, waits form no cycle.** -/
theorem Reaches.isAcyclic (started : execution.Started)
    (reaches : execution.Reaches trace session) : session.state.waits.IsAcyclic := by
  induction reaches with
  | start =>
    intro slot cycle
    obtain ⟨target, edge, -⟩ := TransGen.head'_iff.1 cycle
    rw [Waits.Edge, started.targets_eq] at edge
    cases edge
  | step _ last ih =>
    cases last with
    | call => exact ih
    | go step =>
      obtain ⟨step⟩ := step
      exact step.isAcyclic ih
    | meanwhile other => rwa [other.waits]

/-- The waits on record are those of the computations. -/
theorem Reaches.edge_iff (started : execution.Started)
    (reaches : execution.Reaches trace session) {slot target : Nat} :
    session.state.waits.Edge slot target ↔ (slot, target) ∈ session.awaits := by
  rw [Waits.edge_iff_times_pos, (reaches.isBalanced started).awaits, List.count_pos_iff]

/-- Slots that wait for each other are slots of the graph. -/
theorem Reaches.lt_size_of_edge (started : execution.Started)
    (reaches : execution.Reaches trace session) {slot target : Nat}
    (edge : session.state.waits.Edge slot target) : slot < execution.setting.graph.size := by
  rw [← (reaches.isBalanced started).waits]
  by_contra beyond
  rw [Waits.Edge, Waits.targets_of_length_le (Nat.le_of_not_lt beyond)] at edge
  cases edge

/-- Among slots that wait for each other there is always one that waits for none of them. -/
theorem Reaches.exists_free (started : execution.Started)
    (reaches : execution.Reaches trace session) {slots : Set Nat} (nonempty : slots.Nonempty) :
    ∃ slot ∈ slots, ∀ other ∈ slots, ¬session.state.waits.Edge slot other := by
  by_cases beyond : ∃ slot ∈ slots, execution.setting.graph.size ≤ slot
  · obtain ⟨slot, member, beyond⟩ := beyond
    refine ⟨slot, member, fun other _ edge => ?_⟩
    exact absurd (reaches.lt_size_of_edge started edge) (Nat.not_lt.2 beyond)
  · -- All of them are slots of the graph, so there are finitely many, and following waits ends.
    have finite : slots.Finite := (Set.finite_lt_nat execution.setting.graph.size).subset
      fun slot member => Nat.lt_of_not_le fun late => beyond ⟨slot, member, late⟩
    have := finite.to_subtype
    let behind : slots → slots → Prop := fun a b =>
      TransGen session.state.waits.Edge b.1 a.1
    have : IsTrans slots behind := ⟨fun _ _ _ first second => second.trans first⟩
    have : Std.Irrefl behind := ⟨fun slot cycle => reaches.isAcyclic started slot.1 cycle⟩
    obtain ⟨slot, -, last⟩ := (Finite.wellFounded_of_trans_of_irrefl behind).has_min Set.univ
      ⟨⟨nonempty.some, nonempty.some_mem⟩, trivial⟩
    exact ⟨slot.1, slot.2, fun other member edge => last ⟨other, member⟩ trivial (.single edge)⟩

/-- In a session all of whose requests are answered, nothing waits. -/
theorem Reaches.targets_of_isQuiet (started : execution.Started)
    (reaches : execution.Reaches trace session) (quiet : session.IsQuiet) (slot : Nat) :
    session.state.waits.targets slot = [] := by
  obtain ⟨outcomes, answered⟩ := quiet
  refine List.eq_nil_iff_forall_not_mem.2 fun target edge => ?_
  have held := (reaches.edge_iff started).1 edge
  rw [Session.awaits, (Thread.holdings_of_outcomes? answered).1] at held
  cases held

/-- **Waits are exact and form no cycle.** In every session, whatever the graph and the functions:
a wait is on record as many times as a computation of the one slot waits for the other; no slot
waits for itself, however long the way; among any slots there is one that waits for none of them;
and nothing waits once all requests are answered, nor after requests that the host has made side by
side from then on. -/
theorem waits_exact {executable : Executable} {options : ExecuteOptions} {history : History}
    (built : executable.graph.IsBuilt)
    (begun : executable.execute options history = .ok execution)
    (reaches : execution.Reaches trace session) :
    (∀ slot target, (session.state.waits.targets slot).count target =
      session.awaits.count (slot, target)) ∧
    (∀ slot, ¬TransGen (fun slot target => (slot, target) ∈ session.awaits) slot slot) ∧
    (∀ slots : Set Nat, slots.Nonempty →
      ∃ slot ∈ slots, ∀ other ∈ slots, (slot, other) ∉ session.awaits) ∧
    (session.IsQuiet → ∀ slot, session.state.waits.targets slot = []) ∧
    (session.IsQuiet → ∀ passes breadth (names : List String) outcomes execution',
      { execution with state := session.state }.runSide passes breadth
        (names.map execution.setting.fetchNamed) = (some outcomes, execution') →
      ∀ slot, execution'.state.waits.targets slot = []) := by
  have started := started_of_execute built begun
  refine ⟨fun slot target => (reaches.isBalanced started).awaits (slot, target), ?_, ?_,
    reaches.targets_of_isQuiet started, ?_⟩
  · intro slot cycle
    refine reaches.isAcyclic started slot (TransGen.mono (fun a b edge => ?_) slot slot cycle)
    exact (reaches.edge_iff started).2 edge
  · intro slots nonempty
    obtain ⟨slot, member, free⟩ := reaches.exists_free started nonempty
    exact ⟨slot, member, fun other listed edge =>
      free other listed ((reaches.edge_iff started).2 edge)⟩
  · intro ⟨before, quiet⟩ passes breadth names outcomes execution' run
    obtain ⟨_, threads, later, same⟩ :=
      reaches_of_runSide started.linked reaches passes breadth names
    rw [run] at later same
    -- All requests are answered afterwards, the earlier ones and those made side by side.
    refine later.targets_of_isQuiet started ⟨before ++ outcomes, ?_⟩
    change Thread.outcomes? session.threads = some before at quiet
    rw [Thread.outcomes?_append, quiet, ← same]
    rfl

/-- While the feature waits for the event, that wait is on record, and it closes no cycle. -/
theorem waits_exact_of_feature :
    ∃ trace session, Reaches sample trace session ∧ session.awaits = [(1, 0)] ∧
      (session.state.waits.targets 1).count 0 = session.awaits.count (1, 0) ∧
      ¬TransGen (fun slot target => (slot, target) ∈ session.awaits) 1 1 := by
  have runs : Runs (Thread.Step sample.setting []) (.resting 0 (.fetch 1 .done))
      sample.state _ _ _ :=
    .step (@Thread.Step.await _ _ 0 0 _ _ _ rfl rfl) <|
    .step (@Thread.Step.compute _ _ 0 0 0 _ _ _ _ rfl rfl nofun) <|
    .step (.inside (@Thread.Step.join _ _ 0 0 _ _ _ _)) <|
    .step (.inside (@Thread.Step.side _ _ _ [] _ _ _ _ _ _ _
      (@Thread.Step.await _ _ 0 0 _ _ _ rfl rfl))) <|
    .refl _ _
  have reaches := (Reaches.start.step (.call "User" 0)).runs
    (@Thread.runs_head _ _ _ _ [] _ _ _ _ runs)
  have all := waits_exact isBuilt_sample execute_sample reaches
  exact ⟨_, _, reaches, rfl, all.1 1 0, all.2.1 1⟩

end Execution

end RuleGraph
