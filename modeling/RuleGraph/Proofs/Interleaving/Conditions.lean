import RuleGraph.Proofs.Compile.Definitions
import RuleGraph.Proofs.Graph.Grounded
import RuleGraph.Proofs.Interleaving.Outcomes
import RuleGraph.Proofs.Interleaving.SingleFlight
import RuleGraph.Proofs.Interleaving.Statements
import RuleGraph.Proofs.Routine.Alike

/-! # The conditions of rules

All statements of a rule are under the same condition, and every one of them evaluates it for
itself. They agree on it if the functions that it calls repeat their results and nothing that it
fetches waits for one of them.

* **`Setting.RunsUnder`** — what a statement does under a verdict on its condition.
* **`Setting.runsUnder_of_does`** — every statement runs under some verdict.
* **`Execution.eq_of_verdicts`** — two statements come to the same verdict.
* **`Execution.conditions_agree`** — all statements of a rule run under one verdict.
-/

namespace RuleGraph

open Relation

namespace Routine

variable {reply : Nat → Outcome → Prop} {deeds : Multiset Deed} {result : Outcome}

/-- A routine comes to a value, with which it goes on, or to an error, which is the end. -/
theorem of_does_value {child : Routine} {next : Value → Routine}
    (does : (value child next).Does reply deeds (some result)) :
    ∃ first before after, child.Does reply before (some first) ∧ deeds = before + after ∧
      match first with
      | .ok value => (next value).Does reply after (some result)
      | .error error => after = 0 ∧ result = .error error := by
  obtain ⟨outcomes, before, after, side, rfl, rest⟩ := of_does_allValues does
  -- There is one child, and it has one outcome.
  cases outcomes with
  | nil => cases side
  | cons first others =>
    cases side with
    | cons own none =>
      cases others with
      | cons => cases none
      | nil =>
        cases none
        refine ⟨first, _, after, own, by rw [add_zero], ?_⟩
        cases first with
        | ok value => exact rest
        | error error => exact rest

end Routine

namespace Setting

/-- The steps by which a statement finds out whether its condition holds. -/
def conditionRoutine (setting : Setting) (condition : SlotExpr) : Routine :=
  setting.prefetch condition.references (setting.exprRoutine condition)

/-- What a statement does, and what it comes to, under a verdict on its condition. -/
inductive RunsUnder (setting : Setting) (reply : Nat → Outcome → Prop) (condition call : SlotExpr)
    (verdict : Outcome) : Multiset Deed → Outcome → Prop where
  /-- There is no manipulator, and nothing is evaluated. -/
  | unhandled {name} (missing : setting.hasManipulator = false) :
    RunsUnder setting reply condition call verdict 0 (.error (.missingManipulator name))
  /-- The condition fails, and so does the statement. -/
  | failed {deeds error} (given : setting.hasManipulator = true)
    (evaluated : (setting.conditionRoutine condition).Does reply deeds (some verdict))
    (fails : verdict = .error error) :
    RunsUnder setting reply condition call verdict deeds (.error error)
  /-- The condition does not hold, and the statement is passed over. -/
  | passed {deeds value} (given : setting.hasManipulator = true)
    (evaluated : (setting.conditionRoutine condition).Does reply deeds (some verdict))
    (comes : verdict = .ok value) (untrue : value.isTruthy = false) :
    RunsUnder setting reply condition call verdict deeds (.ok .null)
  /-- The condition holds, and the call is attempted. -/
  | attempted {before after value outcome} (given : setting.hasManipulator = true)
    (evaluated : (setting.conditionRoutine condition).Does reply before (some verdict))
    (comes : verdict = .ok value) (holds : value.isTruthy = true)
    (calls : (setting.statementCall call).Does reply after (some outcome)) :
    RunsUnder setting reply condition call verdict (before + after) outcome

variable {setting : Setting} {reply reply' : Nat → Outcome → Prop} {condition call : SlotExpr}
  {verdict outcome : Outcome} {deeds : Multiset Deed} {name : String}

/-- **A statement runs under the verdict that it comes to itself.** -/
theorem runsUnder_of_does (does : (setting.statementRoutine name (some condition) call).Does reply
    deeds (some outcome)) :
    ∃ verdict, setting.RunsUnder reply condition call verdict deeds outcome := by
  unfold statementRoutine at does
  cases given : setting.hasManipulator with
  | false =>
    simp only [given] at does
    cases does
    exact ⟨.ok .null, .unhandled given⟩
  | true =>
    simp only [given] at does
    -- First the slots that the condition names, and then the condition.
    obtain ⟨outcomes, before, after, side, rfl, rest⟩ := Routine.of_does_allValues does
    cases values : collect outcomes with
    | error error =>
      rw [values] at rest
      obtain ⟨rfl, rfl⟩ := rest
      refine ⟨.error error, .failed given (.join side ?_) rfl⟩
      rw [values]
      exact .done
    | ok values' =>
      rw [values] at rest
      obtain ⟨first, own, last, evaluated, rfl, rest⟩ := Routine.of_does_value rest
      have whole : (setting.conditionRoutine condition).Does reply (before + own) (some first) :=
        .join side (by rw [values]; exact evaluated)
      rw [← add_assoc]
      cases first with
      | error error =>
        obtain ⟨rfl, rfl⟩ := rest
        rw [add_zero]
        exact ⟨_, .failed given whole rfl⟩
      | ok value =>
        cases truth : value.isTruthy with
        | true =>
          simp only [truth] at rest
          exact ⟨_, .attempted given whole rfl truth rest⟩
        | false =>
          simp only [truth] at rest
          cases rest
          rw [add_zero]
          exact ⟨_, .passed given whole rfl truth⟩

/-- With a manipulator, the condition has come to the verdict. -/
theorem RunsUnder.evaluated (runs : setting.RunsUnder reply condition call verdict deeds outcome)
    (given : setting.hasManipulator = true) :
    ∃ before, (setting.conditionRoutine condition).Does reply before (some verdict) := by
  cases runs with
  | unhandled missing =>
    rw [given] at missing
    cases missing
  | failed _ evaluated | passed _ evaluated | attempted _ evaluated => exact ⟨_, evaluated⟩

/-- Without one, any verdict will do. -/
theorem RunsUnder.of_missing (runs : setting.RunsUnder reply condition call verdict deeds outcome)
    (missing : setting.hasManipulator = false) (other : Outcome) :
    setting.RunsUnder reply condition call other deeds outcome := by
  cases runs with
  | unhandled => exact .unhandled missing
  | failed given | passed given | attempted given =>
    rw [missing] at given
    cases given

/-- Evaluating a condition invokes a function at most as many times as the condition calls it. -/
theorem invokesAtMost_conditionRoutine {function : EntryKey} :
    (setting.conditionRoutine condition).InvokesAtMost function
      (setting.executable.boundCalls function condition.calls) :=
  invokesAtMost_prefetch (invokesAtMost_exprRoutine condition)

/-- Only slots of the graph are fetched for a condition. -/
theorem lt_size_of_fetches_condition {target : Nat}
    (fetched : (setting.conditionRoutine condition).Fetches target) :
    target < setting.graph.size := by
  rcases fetches_of_prefetch fetched with ⟨name, -, found⟩ | inner
  · exact Graph.lt_size_of_indexOf? found
  · rcases fetches_of_exprRoutine inner with ⟨name, -, found⟩ | called
    · exact Graph.lt_size_of_indexOf? found
    · obtain ⟨_, -, _, -, _, -, found⟩ := called.callsFetch
      exact Graph.lt_size_of_indexOf? found

/-- All functions that a condition calls repeat their results. -/
def ConditionRepeats (setting : Setting) (condition : SlotExpr) : Prop :=
  ∀ call ∈ condition.calls, ∀ entry, setting.executable.function? call.1 = some entry →
    setting.Repeats entry

/-- Nothing that is fetched for a condition may come to wait for one of several slots. -/
def ConditionIsApart (setting : Setting) (condition : SlotExpr) (places : List Nat) : Prop :=
  ∀ target, (setting.conditionRoutine condition).Fetches target →
    ∀ place ∈ places, ¬ReflTransGen setting.MayFetch target place

/-- **A condition comes to the same verdict twice**, if what is fetched for it is answered alike. -/
theorem agrees_conditionRoutine (repeats : setting.ConditionRepeats condition)
    (alike : (setting.conditionRoutine condition).IsToldAlike reply reply') :
    Routine.Agrees reply reply' (setting.conditionRoutine condition)
      (setting.conditionRoutine condition) :=
  agrees_prefetch alike (agrees_exprRoutine repeats (alike.restOfValues []))

end Setting

/-- If the statement at a place has come to an outcome, it has run under a verdict on its
condition since it last began. -/
def Session.Follows (setting : Setting) (trace : Trace) (session : Session) (condition : SlotExpr)
    (verdict : Outcome) (place : Nat) : Prop :=
  ∀ slot feature call outcome, setting.graph.slots[place]? = some slot →
    slot.kind = .statement feature (some condition) call →
    session.state.outcome? place = some outcome →
    setting.RunsUnder (session.state.Replies setting (some place)) condition call verdict
      (trace.attempt place) outcome

namespace Execution

variable {execution : Execution} {trace : Trace} {session : Session} {condition : SlotExpr}
  {verdict verdict' : Outcome} {place place' : Nat} {places : List Nat}
  {deeds deeds' : Multiset Deed}

/-- A statement that has come to an outcome in time has run under some verdict. -/
theorem Reaches.exists_follows (started : execution.Started)
    (reaches : execution.Reaches trace session)
    (inTime : session.state.isOverdue execution.setting place = false) :
    ∃ verdict, session.Follows execution.setting trace condition verdict place := by
  by_cases ended : ∃ slot feature call outcome, execution.setting.graph.slots[place]? = some slot ∧
      slot.kind = .statement feature (some condition) call ∧
      session.state.outcome? place = some outcome
  · obtain ⟨slot, feature, call, outcome, found, kind, kept⟩ := ended
    rcases reaches.tells_of_kept started kept with told | ⟨-, late⟩
    · simp only [Session.Tells, Setting.slotRoutine, found, kind] at told
      obtain ⟨verdict, runs⟩ := Setting.runsUnder_of_does told
      refine ⟨verdict, fun slot' feature' call' outcome' found' kind' kept' => ?_⟩
      rw [found] at found'
      cases found'
      rw [kind] at kind'
      cases kind'
      rw [kept] at kept'
      cases kept'
      exact runs
    · rw [inTime] at late
      cases late
  · refine ⟨.ok .null, fun slot feature call outcome found kind kept => absurd ?_ ended⟩
    exact ⟨slot, feature, call, outcome, found, kind, kept⟩

/-- What is fetched for a condition is answered by what is kept, if it may not come to wait for the
statement. -/
theorem kept_of_replies (apart : execution.setting.ConditionIsApart condition places)
    (acyclic : ∀ target < execution.setting.graph.size,
      execution.setting.graph.cycleFrom? target = none) {target : Nat}
    (fetched : (execution.setting.conditionRoutine condition).Fetches target)
    (member : place ∈ places) {outcome : Outcome}
    (reply : session.state.Replies execution.setting (some place) target outcome) :
    session.state.outcome? target = some outcome := by
  rcases reply with kept | ⟨names, -, cycle | ⟨slot, same, back⟩⟩
  · exact kept
  · rw [acyclic target (Setting.lt_size_of_fetches_condition fetched)] at cycle
    cases cycle
  · cases same
    exact absurd back (apart target fetched place member)

/-- **Two statements come to the same verdict on their condition.** -/
theorem eq_of_verdicts (repeats : execution.setting.ConditionRepeats condition)
    (apart : execution.setting.ConditionIsApart condition places)
    (acyclic : ∀ target < execution.setting.graph.size,
      execution.setting.graph.cycleFrom? target = none)
    (member : place ∈ places) (member' : place' ∈ places)
    (evaluated : (execution.setting.conditionRoutine condition).Does
      (session.state.Replies execution.setting (some place)) deeds (some verdict))
    (evaluated' : (execution.setting.conditionRoutine condition).Does
      (session.state.Replies execution.setting (some place')) deeds' (some verdict')) :
    verdict = verdict' := by
  refine Setting.agrees_conditionRoutine repeats ?_ _ _ _ _ evaluated evaluated'
  intro target fetched outcome outcome' told told'
  have kept := kept_of_replies apart acyclic fetched member told
  have kept' := kept_of_replies apart acyclic fetched member' told'
  rw [kept] at kept'
  exact Option.some_inj.1 kept'

/-- **Several statements under the same condition run under one verdict.** -/
theorem Reaches.exists_verdict (started : execution.Started)
    (reaches : execution.Reaches trace session)
    (inTime : ∀ place, session.state.isOverdue execution.setting place = false)
    (repeats : execution.setting.ConditionRepeats condition)
    (apart : execution.setting.ConditionIsApart condition places)
    (acyclic : ∀ target < execution.setting.graph.size,
      execution.setting.graph.cycleFrom? target = none) :
    ∃ verdict, ∀ place ∈ places,
      session.Follows execution.setting trace condition verdict place := by
  choose own follows using fun place =>
    @Reaches.exists_follows _ _ _ condition place started reaches (inTime place)
  cases given : execution.setting.hasManipulator with
  | false =>
    refine ⟨.ok .null, fun place _ slot feature call outcome found kind kept => ?_⟩
    exact (follows place slot feature call outcome found kind kept).of_missing given _
  | true =>
    -- The verdict is that of any statement that has evaluated the condition.
    by_cases any : ∃ first ∈ places, ∃ deeds, (execution.setting.conditionRoutine condition).Does
        (session.state.Replies execution.setting (some first)) deeds (some (own first))
    · obtain ⟨first, member, deeds, evaluated⟩ := any
      refine ⟨own first, fun place listed slot feature call outcome found kind kept => ?_⟩
      have runs := follows place slot feature call outcome found kind kept
      obtain ⟨deeds', evaluated'⟩ := runs.evaluated given
      rwa [← eq_of_verdicts repeats apart acyclic member listed evaluated evaluated'] at runs
    · refine ⟨.ok .null, fun place listed slot feature call outcome found kind kept => ?_⟩
      have runs := follows place slot feature call outcome found kind kept
      exact absurd ⟨place, listed, runs.evaluated given⟩ any

/-- All statements of a statement feature that has come to a value have come to an outcome. -/
theorem Reaches.exists_outcome_of_group (started : execution.Started)
    (reaches : execution.Reaches trace session) {group index : Nat} {slot : Slot} {value : Value}
    (found : execution.setting.graph.slots[group]? = some slot) (isGroup : slot.kind = .group)
    (done : session.state.outcome? group = some (.ok value))
    (member : index ∈ execution.setting.graph.dependencies group) :
    ∃ outcome, session.state.outcome? index = some outcome := by
  rcases reaches.tells_of_kept started done with told | ⟨late, -⟩
  · obtain ⟨outcome, reply, ofFunction⟩ := Setting.of_does_group found isGroup told member
    rcases reply with kept | ⟨names, refused, -⟩
    · exact ⟨outcome, kept⟩
    -- A refusal would have failed the statement feature.
    · obtain ⟨function, source, same⟩ := ofFunction _ refused
      cases same
  · cases late

end Execution

/-! ## The statements of a rule -/

/-- At a place of a graph there is the statement to which a call of a rule is lowered, under a
condition. -/
def Graph.HasStatement (graph : Graph) (scope : Scope) (limit : Nat) (condition : SlotExpr)
    (call : Expr) (place : Nat) : Prop :=
  ∃ slot : Slot, graph.slots[place]? = some slot ∧
    slot.IsStatementOf scope limit (some condition) call

variable {scope : Scope} {limit rounds : Nat} {program : Program} {graph : Graph}
  {config : EngineConfig} {options : ExecuteOptions} {history : History} {item : Expr}
  {calls : List Expr}

/-- The statements of a rule stand at places of their own in the graph, one for every call. -/
theorem places_of_compile? (compiled : compile? scope limit rounds program = .ok (some graph))
    (member : .rule (some item) calls ∈ program) :
    ∃ condition places, List.Forall₂ (graph.HasStatement scope limit condition) calls places ∧
      places.Nodup := by
  obtain ⟨slots, hasSlots, nodup, inside⟩ := slots_of_compile? compiled member
  cases hasSlots with
  | @rule _ _ condition _ _ _ _ rewritten lowers each =>
    have located : ∀ slots : List Slot, (∀ slot ∈ slots, slot ∈ graph.slots) →
        ∃ places : List Nat,
          List.Forall₂ (fun slot place => graph.slots[place]? = some slot) slots places := by
      intro slots inside
      induction slots with
      | nil => exact ⟨[], .nil⟩
      | cons slot rest ih =>
        obtain ⟨place, found⟩ := List.mem_iff_getElem?.1 (inside slot List.mem_cons_self)
        obtain ⟨places, others⟩ := ih fun other member =>
          inside other (List.mem_cons_of_mem _ member)
        exact ⟨place :: places, .cons found others⟩
    obtain ⟨places, located⟩ := located slots inside
    refine ⟨condition, places, ?_, ?_⟩
    · refine forall₂_through (fun slot place call _ found isStatement => ?_) located each.flip
      exact ⟨slot, found, isStatement⟩
    · -- Different slots do not stand at one place.
      have same : places.map (fun place => graph.slots[place]?) = slots.map some := by
        rw [← List.forall₂_eq_eq_eq, List.forall₂_map_left_iff, List.forall₂_map_right_iff]
        exact located.flip
      refine List.Nodup.of_map (fun place => graph.slots[place]?) ?_
      rw [same]
      exact (List.Nodup.of_map _ nodup).map (Option.some_injective _)

/-- A statement of a compiled graph belongs to a statement feature, and has come to an outcome when
running all statements was no failure. -/
theorem Execution.Reaches.exists_outcome_of_runStatements {execution : Execution} {trace : Trace}
    {session : Session} {passes : Nat} (compiled : execution.setting.graph.IsCompiled)
    (reaches : execution.Reaches trace session) (started : execution.Started)
    (ran : ({ execution with state := session.state }.runStatements passes).1 = some (.ok ())) :
    ∃ trace' session', execution.Reaches (trace ++ trace') session' ∧
      session'.state = ({ execution with state := session.state }.runStatements passes).2.state ∧
      ∀ place slot feature condition call, execution.setting.graph.slots[place]? = some slot →
        slot.kind = .statement feature condition call →
        ∃ outcome, session'.state.outcome? place = some outcome := by
  obtain ⟨trace', session', later, state, groups⟩ := reaches.of_runStatements started ran
  refine ⟨trace', session', later, state, fun place slot feature condition call found kind => ?_⟩
  obtain ⟨-, group, member, other, there, isGroup, dependency⟩ := exists_group compiled found kind
  obtain ⟨value, done⟩ := groups group member
  exact later.exists_outcome_of_group started there isGroup done dependency

/-- Three functions for conditions: one that gives back its argument, one that is true when it is
invoked for the first time, and one that is true if a statement cannot be fetched; and a
statement. -/
def Catalog.deciding : Catalog where
  entries := [
    .ofRegistration none {
      name := "known", kind := .sync fun _ args => ([], .ok (args.headD .null)) },
    .ofRegistration none {
      name := "once"
      kind := .sync fun invocation _ => ([], .ok (.bool (invocation.ordinal = 1))) },
    .ofRegistration none {
      name := "alone"
      kind := .async fun _ _ => .fetchOne "Notes#1" fun outcome =>
        .finish (.ok (.bool outcome.toOption.isNone)) },
    .ofRegistration none { name := "note", kind := .statement "Notes" fun _ _ => .finish (.ok ()) }]

/-- Two statements under one condition. -/
def Program.deciding (condition : Expr) : Program :=
  [.input "Event",
    .rule (some condition) [.call "note" [.const (.int 1)], .call "note" [.const (.int 2)]]]

/-- The graph of these statements, given the places of the slots that the condition names. -/
def Graph.deciding (condition : SlotExpr) (read : List Nat) : Graph where
  slots := [
    .input "Event",
    .statement "Notes#0" "Notes" (some condition) (.call "note" [.const (.int 1)]),
    .statement "Notes#1" "Notes" (some condition) (.call "note" [.const (.int 2)]),
    .group "Notes" ["Notes#0", "Notes#1"]]
  edges := [[], read, read, [1, 2]]
  cycles := [none, none, none, none]

/-- An execution of these statements with a manipulator. -/
def Execution.deciding (condition : SlotExpr) (read : List Nat) : Execution where
  setting := {
    executable := .ofGraph (.deciding condition read) ⟨.deciding, none⟩ {}
    inputs := [("Event", .text "login")]
    hasManipulator := true }
  state := { State.initial 4 with manipulator := some {} }

/-- What this execution starts with. -/
def ExecuteOptions.deciding : ExecuteOptions where
  inputs := [("Event", .text "login")]
  manipulator := some {}

namespace Execution

/-- An execution under the condition that the event is known. -/
def known : Execution := deciding (.call "known" [.feature "Event"]) [0]

/-- A statement of this execution stands at one of two places, under that condition. -/
theorem place_of_known {condition : SlotExpr} {call : Expr} {place : Nat}
    (there : known.graph.HasStatement ⟨.deciding, none⟩ 10 condition call place) :
    condition = .call "known" [.feature "Event"] ∧ (place = 1 ∨ place = 2) := by
  obtain ⟨slot, found, isStatement⟩ := there
  obtain ⟨feature, call', kind⟩ := isStatement.exists_kind
  match place with
  | 0 | 3 =>
    cases found
    cases kind
  | 1 =>
    cases found
    cases kind
    exact ⟨rfl, .inl rfl⟩
  | 2 =>
    cases found
    cases kind
    exact ⟨rfl, .inr rfl⟩
  | _ + 4 => cases found

/-- Nothing but the event is fetched for the condition, and that fetches nothing. -/
theorem conditionIsApart_known {places : List Nat} (elsewhere : 0 ∉ places) :
    known.setting.ConditionIsApart (.call "known" [.feature "Event"]) places := by
  have only : ∀ {name target}, name ∈ (SlotExpr.call "known" [.feature "Event"]).features →
      known.setting.graph.indexOf? name = some target → target = 0 := by
    intro name target read found
    rw [List.mem_singleton.1 read] at found
    exact (Option.some_inj.1 found).symm
  intro target fetched place listed back
  have event : target = 0 := by
    rcases Setting.fetches_of_prefetch fetched with ⟨name, read, found⟩ | inner
    · exact only (SlotExpr.mem_references.1 read) found
    · rcases Setting.fetches_of_exprRoutine inner with ⟨name, read, found⟩ | called
      · exact only read found
      · obtain ⟨call, member, entry, bound, name, fetched, -⟩ := called.callsFetch
        rw [List.mem_singleton.1 member] at bound
        cases bound
        exact fetched.elim
  subst event
  rcases ReflTransGen.cases_head back with same | ⟨next, first, -⟩
  · subst same
    exact elsewhere listed
  · exact Setting.not_mayFetch_input rfl rfl first

end Execution

end RuleGraph
