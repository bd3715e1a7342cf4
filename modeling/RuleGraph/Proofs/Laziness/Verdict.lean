import RuleGraph.Proofs.Interleaving.Conditions
import RuleGraph.Proofs.Interleaving.Parts
import RuleGraph.Proofs.Interleaving.Within
import RuleGraph.Proofs.Laziness.Kept

/-! # The verdict on a condition

A statement under a condition is resolved in two parts: first the condition comes to a verdict, on
behalf of the statement, and then the statement goes on as the verdict says.

* **`Setting.afterVerdict`** — how a statement goes on.
* **`Setting.Resolves`** — a statement is resolved under a verdict.
* **`Execution.exists_resolves`** — the host that requests a statement has it resolved under some
  verdict.
* **`Setting.Resolves.changesWithin`** — under a verdict that does not hold nothing changes but the
  statement and what the condition needs.
-/

namespace RuleGraph

open Relation

/-- What an expression needs: the slots that it names, and all that these depend on. -/
def Graph.Needs (graph : Graph) (body : SlotExpr) (target : Nat) : Prop :=
  ∃ name ∈ body.references, ∃ index, graph.indexOf? name = some index ∧
    ReflTransGen (Leads graph.edges) index target

/-- The verdict on a condition does not hold: the condition has failed, or its value is falsy. -/
def FailsToHold (verdict : Outcome) : Prop :=
  ∀ value, verdict = .ok value → value.isTruthy = false

namespace Setting

/-- What a statement does once its condition has come to a verdict. -/
def afterVerdict (setting : Setting) (call : SlotExpr) : Outcome → Routine
  | .ok value => if value.isTruthy then setting.statementCall call else .done (.ok .null)
  | .error error => .done (.error error)

/-- While nobody else does anything, the host that requests the statement at a place has it resolved
under a verdict: the condition comes to the verdict, the statement goes on as the verdict says, and
its outcome is kept. -/
inductive Resolves (setting : Setting) (index : Nat) (condition call : SlotExpr)
    (verdict : Outcome) (before after : State) : Prop where
  /-- From the state in which it is requested to the one in which the request is answered. -/
  | mk {first judged last mark mark' trace trace' outcome}
    (asked : before.Elapses first)
    (judges : RunsAlone (Thread.Step setting [index])
      (.resting mark (setting.conditionRoutine condition)) (first.begin index) trace
      (.finished verdict) judged)
    (goes : RunsAlone (Thread.Step setting [index])
      (.resting mark' (setting.afterVerdict call verdict)) judged trace' (.finished outcome) last)
    (answered : (last.answer [] index outcome).Elapses after) :
    Resolves setting index condition call verdict before after

variable {setting : Setting} {condition call : SlotExpr} {verdict : Outcome} {index : Nat}
  {before after : State}

/-- A statement whose condition does not hold is at its end. -/
theorem exists_afterVerdict_eq_done (fails : FailsToHold verdict) :
    ∃ outcome, setting.afterVerdict call verdict = .done outcome := by
  cases verdict with
  | error error => exact ⟨_, rfl⟩
  | ok value =>
    rw [afterVerdict, fails value rfl]
    exact ⟨_, rfl⟩

/-- Evaluating a condition keeps to what it needs, and does what functions do that compute
values. -/
theorem keepsTo_conditionRoutine (silent : setting.executable.IsSilent) :
    (setting.conditionRoutine condition).KeepsTo (setting.graph.Needs condition)
      setting.IsValueDeed :=
  setting.keepsTo_prefetch (fun name named target found => ⟨name, named, target, found, .refl⟩) <|
    keepsTo_exprRoutine silent fun name named target found =>
      ⟨name, SlotExpr.mem_references.2 named, target, found, .refl⟩

end Setting

/-- **A statement is resolved in two parts**, those of its condition and of what comes after. -/
theorem Thread.of_runs_statement {setting : Setting} {path : List Nat} {mark : Nat} {name : String}
    {condition call : SlotExpr} {state state' : State} {trace : Trace} {outcome : Outcome}
    (given : setting.hasManipulator = true)
    (runs : RunsAlone (Step setting path)
      (.resting mark (setting.statementRoutine name (some condition) call)) state trace
      (.finished outcome) state') :
    ∃ verdict judged mark' trace' trace'',
      RunsAlone (Step setting path) (.resting mark (setting.conditionRoutine condition)) state
        trace' (.finished verdict) judged ∧
      RunsAlone (Step setting path) (.resting mark' (setting.afterVerdict call verdict)) judged
        trace'' (.finished outcome) state' := by
  simp only [Setting.statementRoutine, given] at runs
  obtain ⟨outcomes, fetched, first, _, mark', _, _, before, side, rest⟩ := of_runs_join runs
  -- First the slots that the condition names, whose first error is the verdict.
  have ahead (mark' : Nat) : RunsAlone (Step setting path)
      (.resting mark (setting.conditionRoutine condition)) state _ (.resting mark' _) fetched :=
    .meanwhile before (runs_of_join side mark')
  cases values : collect outcomes with
  | error error =>
    simp only [values] at ahead rest
    exact ⟨.error error, _, mark', _, _, (ahead 0).trans (.step .finish (.refl _ _)), rest⟩
  | ok values' =>
    simp only [values] at ahead rest
    -- Then the condition itself, which has one outcome.
    obtain ⟨own, judged, second, mark'', after, _, _, between, alone, rest⟩ := of_runs_join rest
    obtain ⟨thread, only, alone⟩ := runs_of_singleton alone
    obtain ⟨verdict, rfl, rfl⟩ := List.map_eq_singleton_iff.1 only
    have whole := (ahead mark'').trans (.meanwhile between alone)
    cases verdict with
    | error error => exact ⟨_, judged, after, _, _, whole, rest⟩
    | ok value => exact ⟨_, judged, after, _, _, whole, rest⟩

namespace Execution

variable {execution execution' : Execution} {trace : Trace} {session : Session} {index target : Nat}
  {slot : Slot} {outcome verdict : Outcome} {name feature : String} {condition call : SlotExpr}
  {passes : Nat}

/-- Once all requests are answered, nothing is being computed. -/
theorem Reaches.exists_idle (started : execution.Started)
    (reaches : execution.Reaches trace session) (quiet : session.IsQuiet)
    (fresh : ¬session.state.Keeps index) : ∃ since, session.state.cell index = .idle since := by
  cases here : session.state.cell index with
  | idle since => exact ⟨since, rfl⟩
  | settled outcome since =>
    exact absurd ⟨outcome, State.outcome?_eq_some_iff.2 ⟨since, here⟩⟩ fresh
  | computing =>
    obtain ⟨outcomes, answered⟩ := quiet
    obtain ⟨body, holds⟩ := (reaches.isBalanced started).exists_holds here
    have computed := Thread.mem_computes_iff.2 ⟨body, holds⟩
    rw [Session.requests, Thread.computes,
      (@Thread.holdings_of_outcomes? _ [] _ answered).2] at computed
    cases computed

/-- **The host that requests a statement has it resolved** under some verdict on its condition. -/
theorem exists_resolves (silent : execution.IsSilent)
    (given : execution.setting.hasManipulator = true) (reaches : execution.Reaches trace session)
    (quiet : session.IsQuiet) (place : execution.setting.graph.indexOf? name = some index)
    (found : execution.setting.graph.slots[index]? = some slot)
    (kind : slot.kind = .statement feature (some condition) call)
    (fresh : ¬session.state.Keeps index)
    (fetched : { execution with state := session.state }.fetch passes name =
      (some outcome, execution')) :
    ∃ verdict, execution.setting.Resolves index condition call verdict session.state
      execution'.state := by
  obtain ⟨since, idle⟩ := reaches.exists_idle silent.started quiet fresh
  have bound := Graph.lt_size_of_indexOf? place
  have routine : execution.setting.slotRoutine index =
      execution.setting.statementRoutine slot.name (some condition) call := by
    simp only [Setting.slotRoutine, found, kind]
  have long : ∀ outcome, execution.setting.slotRoutine index ≠ .done outcome := by
    intro outcome same
    rw [routine, Setting.statementRoutine, given] at same
    cases same
  obtain ⟨_, runs⟩ := runs_of_fetch_place silent.started.linked place fetched
  obtain ⟨first, last, mark, _, asked, own, answered⟩ := Thread.of_runs_fetch silent.timeless runs
    idle (silent.cycleFrom?_eq_none bound) long
  rw [routine] at own
  obtain ⟨verdict, judged, mark', _, _, judges, goes⟩ := Thread.of_runs_statement given own
  exact ⟨verdict, .mk asked judges goes answered⟩

/-- What an expression of the graph needs is plain. -/
theorem IsSilent.isPlain_of_needs (silent : execution.IsSilent)
    (listed : slot ∈ execution.setting.graph.slots) (own : condition ∈ slot.expressions)
    (needs : execution.setting.graph.Needs condition target) :
    execution.setting.graph.IsPlain target := by
  obtain ⟨name, named, place, found, way⟩ := needs
  have there := Graph.getElem?_of_indexOf? found
  induction way with
  | refl =>
    obtain ⟨other, there⟩ : ∃ other, execution.setting.graph.slots[place]? = some other :=
      ⟨_, List.getElem?_eq_getElem (Graph.lt_size_of_indexOf? found)⟩
    exact silent.isPlain there (silent.reads slot listed condition own name
      (SlotExpr.mem_references.1 named) other (Graph.get?_eq_some_iff.2 ⟨place, found, there⟩))
  | tail _ edge ih => exact ih.of_leads silent.started.linked edge

/-- What an expression needs keeps to what the expression needs. -/
theorem IsSilent.keepsTo_of_needs (silent : execution.IsSilent)
    (listed : slot ∈ execution.setting.graph.slots) (own : condition ∈ slot.expressions)
    (needs : execution.setting.graph.Needs condition target) :
    (execution.setting.slotRoutine target).KeepsTo (execution.setting.graph.Needs condition)
      execution.setting.IsValueDeed := by
  refine silent.keepsTo_of_isPlain (silent.isPlain_of_needs listed own needs) fun next edge => ?_
  obtain ⟨name, named, place, found, way⟩ := needs
  exact ⟨name, named, place, found, way.tail edge⟩

end Execution

/-- **Under a verdict that does not hold nothing changes but the statement and what the condition
needs**, and nothing is done but what functions do that compute values. -/
theorem Setting.Resolves.changesWithin {setting : Setting} {condition call : SlotExpr}
    {verdict : Outcome} {index : Nat} {before after : State} (silent : setting.executable.IsSilent)
    (closed : ∀ target, setting.graph.Needs condition target →
      (setting.slotRoutine target).KeepsTo (setting.graph.Needs condition) setting.IsValueDeed)
    (resolves : setting.Resolves index condition call verdict before after)
    (fails : FailsToHold verdict) :
    before.ChangesWithin (fun target => target = index ∨ setting.graph.Needs condition target)
      setting.IsValueDeed after := by
  cases resolves with
  | @mk first judged last _ _ _ _ outcome asked judges goes answered =>
    have judging := judges.changesWithin closed (.resting (keepsTo_conditionRoutine silent))
    obtain ⟨own, ended⟩ := @exists_afterVerdict_eq_done setting call _ fails
    rw [ended] at goes
    obtain ⟨-, going⟩ := Thread.of_runs_done goes
    -- The statement itself is begun before its condition is judged, and answered in the end.
    have begins : first.ChangesWithin (· = index) setting.IsValueDeed (first.begin index) :=
      .of_unseen (fun slot outside => State.cell_setCell_ne outside) ⟨rfl, rfl, rfl⟩
    have answers : last.ChangesWithin (· = index) setting.IsValueDeed
        (last.answer [] index outcome) :=
      .of_unseen (fun slot outside => State.cell_answer_ne outside) .answer
    exact .trans (.of_elapses asked) <| .trans (begins.mono fun _ => .inl) <|
      .trans (judging.mono fun _ => .inr) <| .trans (.of_elapses going) <|
      .trans (answers.mono fun _ => .inl) (.of_elapses answered)

end RuleGraph
