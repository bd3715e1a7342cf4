import RuleGraph.Proofs.Interleaving.Outcomes
import RuleGraph.Proofs.Interleaving.Request
import RuleGraph.Proofs.Reference.Agreement
import RuleGraph.Proofs.Routine.Within
import RuleGraph.Proofs.Sequence.Places

/-! # What is kept with a slot

A slot waits for everything that it fetches ahead, also when some of it fails. So if functions fetch
nothing, what a kept feature depends on is kept as well, and so is what the condition of a kept
statement names.

* **`State.Keeps`** — the outcome of a slot is kept.
* **`Execution.IsSilent`** — functions fetch nothing, and nothing is late.
* **`Execution.IsSilent.not_refuses`** — then no request is refused.
* **`Execution.Reaches.keeps_of_reaches`** — whatever a kept feature depends on is kept.
* **`Execution.Reaches.keeps_of_condition`** — what the condition of a kept statement names is kept.
-/

namespace RuleGraph

open Relation

/-- The outcome of a slot is kept. -/
def State.Keeps (state : State) (index : Nat) : Prop :=
  ∃ outcome, state.outcome? index = some outcome

/-- Slots that were fetched ahead have been answered, whatever the answers were. -/
theorem Setting.exists_reply_of_does_prefetch {setting : Setting} {reply : Nat → Outcome → Prop}
    {names : List String} {next : Routine} {deeds : Multiset Deed} {outcome : Outcome}
    (does : (setting.prefetch names next).Does reply deeds (some outcome)) {name : String}
    (member : name ∈ names) {index : Nat} (found : setting.graph.indexOf? name = some index) :
    ∃ answer, reply index answer := by
  obtain ⟨outcomes, before, after, each, -, -⟩ := Routine.of_does_allValues does
  obtain ⟨answer, -, own, does⟩ :=
    exists_mem_of_forall₂ (Routine.forall₂_of_doesAll each).flip (List.mem_map_of_mem member)
  rw [fetchNamed, found] at does
  exact ⟨answer, Routine.reply_of_does_fetch does⟩

namespace Execution

/-- An execution of a graph without a cycle, with functions that fetch nothing, and without a
deadline. -/
structure IsSilent (execution : Execution) : Prop where
  /-- Nothing is requested yet. -/
  started : execution.Started
  /-- All slots are as they are constructed. -/
  constructed : ∀ slot ∈ execution.setting.graph.slots, slot.IsConstructed
  /-- Following dependencies comes to an end. -/
  grounded : ∀ index < execution.setting.graph.size, Grounded execution.setting.graph.edges index
  /-- No expression names a statement or a statement feature. -/
  reads : execution.setting.graph.ReadsValues
  /-- No function fetches a slot. -/
  silent : execution.setting.executable.IsSilent
  /-- There is no deadline. -/
  timeless : execution.setting.featureTimeout = none

variable {execution : Execution} {trace : Trace} {session : Session} {index target : Nat}
  {slot : Slot} {outcome : Outcome}

namespace IsSilent

variable (silent : execution.IsSilent)
include silent

/-- What may be fetched from a slot, however long the way, it depends on. -/
theorem reflTransGen_leads (reaches : ReflTransGen execution.setting.MayFetch index target) :
    ReflTransGen (Leads execution.setting.graph.edges) index target :=
  reaches.lift id fun _ _ => Setting.leads_of_mayFetch_of_silent silent.started.linked
    silent.silent silent.constructed

/-- No slot knows a cycle. -/
theorem cycleFrom?_eq_none (bound : index < execution.setting.graph.size) :
    execution.setting.graph.cycleFrom? index = none :=
  (Graph.cycleFrom?_eq_none_iff silent.started.linked bound).2 (silent.grounded index bound)

/-- **No request for a dependency is refused.** -/
theorem not_refuses {requester : Option Nat} (bound : index < execution.setting.graph.size)
    (edge : ∀ slot ∈ requester, Leads execution.setting.graph.edges slot index) :
    ¬execution.setting.Refuses requester index outcome := by
  rintro ⟨names, -, cycle | ⟨slot, requested, back⟩⟩
  · rw [silent.cycleFrom?_eq_none bound] at cycle
    cases cycle
  -- The way back would close a cycle of dependencies.
  · exact (silent.grounded index bound).not_transGen
      (TransGen.tail' (silent.reflTransGen_leads back) (edge slot requested))

/-- Features and inputs are plain. -/
theorem isPlain (found : execution.setting.graph.slots[index]? = some slot)
    (value : slot.isStatement = false) : execution.setting.graph.IsPlain index :=
  silent.reads.isPlain silent.started.linked silent.constructed silent.grounded found value

/-- The computation of a plain slot keeps to its dependencies, and does what functions do that
compute values. -/
theorem keepsTo_of_isPlain (plain : execution.setting.graph.IsPlain index) {region : Nat → Prop}
    (closed : ∀ target, Leads execution.setting.graph.edges index target → region target) :
    (execution.setting.slotRoutine index).KeepsTo region execution.setting.IsValueDeed := by
  have found := List.getElem?_eq_getElem (l := execution.setting.graph.slots) plain.bound
  refine Setting.keepsTo_slotRoutine silent.silent found
    (silent.constructed _ (List.getElem_mem plain.bound)) (plain.kinds index _ .refl found)
    fun name listed target place => closed target ?_
  exact (Graph.mem_dependencies silent.started.linked).2 ⟨_, found, name, listed, place⟩

end IsSilent

/-- A slot that has come to its outcome in time has come to it by its routine. -/
theorem Reaches.tells_of_keeps (silent : execution.IsSilent)
    (reaches : execution.Reaches trace session) (keeps : session.state.Keeps index) :
    ∃ outcome, session.Tells execution.setting trace index (some outcome) := by
  obtain ⟨outcome, kept⟩ := keeps
  rcases reaches.tells_of_kept silent.started kept with told | ⟨-, late⟩
  · exact ⟨outcome, told⟩
  · simp [State.isOverdue_eq_false silent.timeless] at late

/-- What was fetched ahead for a slot that has come to its outcome is kept. -/
theorem IsSilent.keeps_of_prefetch (silent : execution.IsSilent) {names : List String}
    {next : Routine} {deeds : Multiset Deed}
    (told : (execution.setting.prefetch names next).Does
      (session.state.Replies execution.setting (some index)) deeds (some outcome))
    {name : String} (member : name ∈ names)
    (found : execution.setting.graph.indexOf? name = some target)
    (edge : Leads execution.setting.graph.edges index target) : session.state.Keeps target := by
  obtain ⟨answer, kept | refused⟩ := Setting.exists_reply_of_does_prefetch told member found
  · exact ⟨answer, kept⟩
  · refine absurd refused (silent.not_refuses (Graph.lt_size_of_indexOf? found) ?_)
    intro slot same
    cases same
    exact edge

/-- What a kept feature depends on is kept. -/
theorem Reaches.keeps_of_leads (silent : execution.IsSilent)
    (reaches : execution.Reaches trace session) (plain : execution.setting.graph.IsPlain index)
    (keeps : session.state.Keeps index)
    (edge : Leads execution.setting.graph.edges index target) : session.state.Keeps target := by
  obtain ⟨slot, found, name, listed, place⟩ := (Graph.mem_dependencies silent.started.linked).1 edge
  rcases plain.kinds index slot .refl found with kind | ⟨body, kind⟩
  · cases silent.constructed slot (List.mem_of_getElem? found) with
    | input => cases listed
    | feature | statement | group => cases kind
  · obtain ⟨outcome, told⟩ := reaches.tells_of_keeps silent keeps
    simp only [Session.Tells, Setting.slotRoutine, found, kind] at told
    exact silent.keeps_of_prefetch told listed place edge

/-- **Whatever a kept feature depends on is kept**, however long the way. -/
theorem Reaches.keeps_of_reaches (silent : execution.IsSilent)
    (reaches : execution.Reaches trace session) (plain : execution.setting.graph.IsPlain index)
    (keeps : session.state.Keeps index)
    (way : ReflTransGen (Leads execution.setting.graph.edges) index target) :
    session.state.Keeps target := by
  induction way using ReflTransGen.head_induction_on with
  | refl => exact keeps
  | head edge _ ih =>
    exact ih (plain.of_leads silent.started.linked edge)
      (reaches.keeps_of_leads silent plain keeps edge)

/-- What the condition of a kept statement names is kept. -/
theorem Reaches.keeps_of_condition (silent : execution.IsSilent)
    (reaches : execution.Reaches trace session) (given : execution.setting.hasManipulator = true)
    (found : execution.setting.graph.slots[index]? = some slot) {feature : String}
    {condition call : SlotExpr} (kind : slot.kind = .statement feature (some condition) call)
    (keeps : session.state.Keeps index) {name : String} (named : name ∈ condition.references)
    (place : execution.setting.graph.indexOf? name = some target) : session.state.Keeps target := by
  obtain ⟨outcome, told⟩ := reaches.tells_of_keeps silent keeps
  simp only [Session.Tells, Setting.slotRoutine, found, kind, Setting.statementRoutine, given]
    at told
  refine silent.keeps_of_prefetch told named place ?_
  have own : condition ∈ slot.expressions := by simp [Slot.expressions, kind]
  have made := silent.constructed slot (List.mem_of_getElem? found)
  exact (Graph.mem_dependencies silent.started.linked).2 ⟨slot, found, name,
    made.mem_deps_of_mem_features own (SlotExpr.mem_references.1 named), place⟩

end Execution

end RuleGraph
