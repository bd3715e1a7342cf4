import RuleGraph.Proofs.Interleaving.Deeds
import RuleGraph.Proofs.Routine.Statement

/-! # Statements that fail

What becomes of the errors of statements when all statements are run. A statement feature passes
over failures of functions, whether they were reported or not.

* **`Setting.of_does_group`** — what a statement feature passes over.
* **`Execution.Reaches.statementFails`** — how a statement has come to its error.
* **`Execution.statement_failures`** — when running all statements is no failure, the errors of
  statements are failures of functions, and exactly those that arise behind the arguments are
  reported.
* **`Execution.unreported_failure`** — an error that is lost.
-/

namespace RuleGraph

/-- If outcomes are collected, all of them are values. -/
theorem eq_of_collect {outcomes : List Outcome} {values : List Value}
    (h : collect outcomes = .ok values) : outcomes = values.map .ok := by
  have each := (Graph.forall₂_of_mapM h).flip
  rw [← List.forall₂_eq_eq_eq, List.forall₂_map_right_iff]
  exact each.flip

namespace Setting

variable {setting : Setting} {reply : Nat → Outcome → Prop} {deeds : Multiset Deed} {index : Nat}
  {value : Value} {outcomes : List Outcome}

/-- Failures of functions are passed over, other errors are not. -/
theorem functionFailed_of_groupOutcome (h : groupOutcome outcomes = .ok value)
    {error : ExecutionError} (member : .error error ∈ outcomes) :
    ∃ function source, error = .functionFailed function source := by
  fun_induction groupOutcome outcomes with
  | case1 => cases member
  | case2 ok rest ih =>
    rcases List.mem_cons.1 member with same | later
    · cases same
    · exact ih h later
  | case3 function source rest ih =>
    rcases List.mem_cons.1 member with same | later
    · cases same
      exact ⟨function, source, rfl⟩
    · exact ih h later
  | case4 => cases h

/-- **A statement feature that comes to a value** has asked for all of its statements, and the
errors that it was answered with are failures of functions. -/
theorem of_does_group {slot : Slot} (found : setting.graph.slots[index]? = some slot)
    (group : slot.kind = .group)
    (does : (setting.slotRoutine index).Does reply deeds (some (.ok value))) {dep : Nat}
    (member : dep ∈ setting.graph.dependencies index) :
    ∃ outcome, reply dep outcome ∧
      ∀ error, outcome = .error error →
        ∃ function source, error = .functionFailed function source := by
  simp only [slotRoutine, found, group] at does
  cases does with
  | @join _ _ _ _ _ outcomes _ each rest =>
    -- All statements are asked for first, and only then is it seen which of them failed.
    have same := (Routine.eq_of_does_done rest).symm
    have told := List.forall₂_map_left_iff.1 (Routine.forall₂_of_doesAll each)
    obtain ⟨outcome, listed, _, answered⟩ := exists_mem_of_forall₂ told.flip member
    refine ⟨outcome, Routine.reply_of_does_fetch answered, ?_⟩
    rintro error rfl
    exact functionFailed_of_groupOutcome same listed

end Setting

variable {execution : Execution} {trace : Trace} {session : Session} {index : Nat}

namespace Execution

/-- A statement of a statement feature that has come to a value has failed, if at all, by a
failure of a function. -/
theorem Reaches.functionFailed_of_group (started : execution.Started)
    (reaches : execution.Reaches trace session) {group : Nat} {slot : Slot} {value : Value}
    (found : execution.setting.graph.slots[group]? = some slot) (isGroup : slot.kind = .group)
    (done : session.state.outcome? group = some (.ok value))
    (member : index ∈ execution.setting.graph.dependencies group) {error : ExecutionError}
    (failed : session.state.outcome? index = some (.error error)) :
    ∃ function source, error = .functionFailed function source := by
  -- The statement feature has come to a value, so it was told what became of the statement.
  have passed : ∃ outcome, session.state.Replies execution.setting (some group) index outcome ∧
      ∀ error, outcome = .error error →
        ∃ function source, error = .functionFailed function source := by
    cases reaches.story started group with
    | settled kept told =>
      rw [done] at kept
      cases kept
      exact Setting.of_does_group found isGroup told member
    | late kept =>
      rw [done] at kept
      cases kept
    | untouched idle | abandoned idle => simp [State.outcome?, idle, Cell.outcome?] at done
    | computing busy => simp [State.outcome?, busy, Cell.outcome?] at done
  obtain ⟨outcome, reply, ofFunction⟩ := passed
  rcases reply with kept | ⟨names, refused, -⟩
  · rw [failed] at kept
    cases kept
    exact ofFunction error rfl
  · -- A refusal would have failed the statement feature.
    obtain ⟨function, source, same⟩ := ofFunction _ refused
    cases same

/-- **How a statement has come to its error**, unless it was late. -/
theorem Reaches.statementFails (started : execution.Started)
    (reaches : execution.Reaches trace session)
    (given : execution.setting.hasManipulator = true) {slot : Slot} {feature function : String}
    {condition : Option SlotExpr} {args : List SlotExpr} {error : ExecutionError}
    (found : execution.setting.graph.slots[index]? = some slot)
    (isStatement : slot.kind = .statement feature condition (.call function args))
    (failed : session.state.outcome? index = some (.error error))
    (inTime : error ≠ execution.setting.timeoutError index) :
    execution.setting.StatementFails (session.state.Replies execution.setting (some index))
      condition function args (trace.attempt index) error := by
  cases reaches.story started index with
  | settled kept told =>
    rw [failed] at kept
    cases kept
    simp only [Session.Tells, Setting.slotRoutine, found, isStatement] at told
    exact Setting.statementFails_of_does given told
  | late kept =>
    rw [failed] at kept
    cases kept
    exact absurd rfl inTime
  | untouched idle | abandoned idle => simp [State.outcome?, idle, Cell.outcome?] at failed
  | computing busy => simp [State.outcome?, busy, Cell.outcome?] at failed

/-- Running all statements leads to a session in which every statement feature is done, if it is no
failure. -/
theorem Reaches.of_runStatements (started : execution.Started)
    (reaches : execution.Reaches trace session) {passes : Nat}
    (ran : ({ execution with state := session.state }.runStatements passes).1 = some (.ok ())) :
    ∃ trace' session', execution.Reaches (trace ++ trace') session' ∧
      session'.state = ({ execution with state := session.state }.runStatements passes).2.state ∧
      ∀ group ∈ execution.groups, ∃ value, session'.state.outcome? group = some (.ok value) := by
  have requests := @fetch_groups { execution with state := session.state } started.linked
  rw [runStatements, requests] at ran ⊢
  obtain ⟨outcomes, ran, collected⟩ := Option.map_eq_some_iff.1 ran
  obtain ⟨trace', session', later, same, answers, -⟩ := reaches.answers_of_runSide started ran
  refine ⟨trace', session', later, same, fun group member => ?_⟩
  -- No statement feature has failed, or running them would have.
  obtain ⟨values, kept⟩ : ∃ values, collect outcomes = .ok values := by
    cases all : collect outcomes with
    | ok values => exact ⟨values, rfl⟩
    | error error =>
      rw [all] at collected
      cases collected
  rw [eq_of_collect kept] at answers
  have named : execution.graph.name group ∈ execution.groups.map execution.graph.name :=
    List.mem_map_of_mem member
  obtain ⟨outcome, listed, answer⟩ := exists_mem_of_forall₂ answers.flip named
  obtain ⟨value, -, rfl⟩ := List.mem_map.1 listed
  have bound : group < execution.setting.graph.size :=
    List.mem_range.1 (List.mem_filter.1 member).1
  have found : execution.setting.graph.indexOf? (execution.graph.name group) = some group :=
    Graph.indexOf?_name started.linked bound
  -- A refusal is an error, so the value is the one that is kept.
  rcases (State.answers_iff found).1 answer with kept | ⟨names, refused, -⟩
  · exact ⟨value, kept⟩
  · cases refused

/-- Every statement of a compiled program belongs to a statement feature. -/
theorem exists_group (compiled : execution.setting.graph.IsCompiled) {slot : Slot}
    {feature : String} {condition : Option SlotExpr} {call : SlotExpr}
    (found : execution.setting.graph.slots[index]? = some slot)
    (isStatement : slot.kind = .statement feature condition call) :
    (∃ function args, call = .call function args) ∧
    ∃ group ∈ execution.groups, ∃ other, execution.setting.graph.slots[group]? = some other ∧
      other.kind = .group ∧ index ∈ execution.setting.graph.dependencies group := by
  have linked := compiled.built.linked
  have bound := (List.getElem?_eq_some_iff.1 found).1
  -- The compiler has listed the statement in a statement feature, which depends on it by name.
  obtain ⟨isCall, other, listed, isGroup, named⟩ :=
    compiled.slots.2 slot (List.mem_of_getElem? found) feature condition call isStatement
  obtain ⟨group, there⟩ := List.mem_iff_getElem?.1 listed
  have inside := (List.getElem?_eq_some_iff.1 there).1
  refine ⟨isCall, group, ?_, other, there, isGroup, ?_⟩
  · refine List.mem_filter.2 ⟨List.mem_range.2 inside, ?_⟩
    have here : execution.graph.slots[group]? = some other := there
    simp [here, Slot.isGroup, isGroup]
  · refine (Graph.mem_dependencies linked).2 ⟨other, there, slot.name, named, ?_⟩
    have same : execution.setting.graph.name index = slot.name := by
      simp [Graph.name, Graph.nameAt, found]
    exact same ▸ Graph.indexOf?_name linked bound

/-- **When running all statements is no failure, every statement that ended in an error ended in a
failure of a function.** If that arose from the arguments on, because their number does not fit or
because the function of the statement fails, the statement has reported it exactly once, besides
what its functions report themselves; if it arose before, in the condition or in an argument, the
statement has done nothing but evaluate these, and its error is reported nowhere. That is said of
what a statement has done since it last began, and is all that it has done unless a function dropped
what it had fetched. Everything that statements and other slots have reported is recorded, once for
every time. -/
theorem statement_failures {scope : Scope} {limit rounds : Nat} {program : Program}
    {executable : Executable} {options : ExecuteOptions} {history : History} {passes : Nat}
    (compiled : compile? scope limit rounds program = .ok (some executable.graph))
    (begun : executable.execute options history = .ok execution)
    (given : options.manipulator.isSome = true) (reaches : execution.Reaches trace session)
    (ran : ({ execution with state := session.state }.runStatements passes).1 = some (.ok ())) :
    ∃ trace' session', execution.Reaches (trace ++ trace') session' ∧
      session'.state = ({ execution with state := session.state }.runStatements passes).2.state ∧
      (∃ recorded, session'.state.reported = execution.state.reported ++ recorded ∧
        ∑ slot ∈ Finset.range executable.graph.size,
          reportsOf (Trace.deedsOf (trace ++ trace') slot) ≤ (recorded : Multiset RecordedError)) ∧
      ∀ index slot feature condition call error,
        executable.graph.slots[index]? = some slot →
        slot.kind = .statement feature condition call →
        session'.state.outcome? index = some (.error error) →
        (∃ function source, error = .functionFailed function source) ∧
        ∃ function args, call = .call function args ∧
          execution.setting.StatementFails
            (session'.state.Replies execution.setting (some index)) condition function args
            (Trace.attempt (trace ++ trace') index) error ∧
          (Trace.KeepsFetches (trace ++ trace') →
            Trace.attempt (trace ++ trace') index = Trace.deedsOf (trace ++ trace') index) := by
  have isCompiled := isCompiled_of_compile? compiled
  have started := started_of_execute isCompiled.built begun
  obtain ⟨same, hasManipulator, -, -, isGiven, -⟩ := eq_of_execute begun
  have graph : execution.setting.graph = executable.graph := by rw [Setting.graph, same]
  rw [← graph] at isCompiled ⊢
  have given' : execution.state.manipulator.isSome = true := by rw [isGiven, given]
  obtain ⟨trace', session', later, state, groups⟩ := reaches.of_runStatements started ran
  refine ⟨trace', session', later, state, ?_, ?_⟩
  · obtain ⟨-, recorded, reported, sub⟩ := later.reported_eq started given'
    refine ⟨recorded, reported, ?_⟩
    rw [← reportsOf_sum, ← later.coe_deeds started, reportsOf, Multiset.filterMap_coe]
    exact Multiset.coe_le.2 sub.subperm
  · intro index slot feature condition call error found isStatement failed
    obtain ⟨⟨function, args, rfl⟩, group, member, other, there, isGroup, dependency⟩ :=
      exists_group isCompiled found isStatement
    obtain ⟨value, done⟩ := groups group member
    obtain ⟨failing, source, rfl⟩ :=
      later.functionFailed_of_group started there isGroup done dependency failed
    refine ⟨⟨failing, source, rfl⟩, function, args, rfl, ?_,
      fun keeps => later.attempt_eq_deedsOf started keeps index⟩
    -- A failure of a function is not what being late is.
    refine later.statementFails started (hasManipulator.trans given') found isStatement failed ?_
    intro late
    cases late

end Execution

/-! ## An error that is lost -/

/-- A function that fails, a statement that does not, and one that does. -/
def Catalog.failing : Catalog where
  entries := [
    .ofRegistration none { name := "lookup", kind := .sync fun _ _ => ([], .error ⟨"no answer"⟩) },
    .ofRegistration none { name := "note", kind := .statement "Notes" fun _ _ => .finish (.ok ()) },
    .ofRegistration none {
      name := "block", kind := .statement "Notes" fun _ _ => .finish (.error ⟨"refused"⟩) }]

/-- Two statements: one whose argument fails, and one that fails itself. -/
def Program.failing : Program :=
  [.rule none [.call "note" [.call "lookup" []], .call "block" [.const (.bool true)]]]

/-- The graph of these statements. -/
def Graph.failing : Graph where
  slots := [
    .statement "Notes#0" "Notes" none (.call "note" [.call "lookup" []]),
    .statement "Notes#1" "Notes" none (.call "block" [.const (.bool true)]),
    .group "Notes" ["Notes#0", "Notes#1"]]
  edges := [[], [], [0, 1]]
  cycles := [none, none, none]

/-- An execution of these statements with a manipulator. -/
def Execution.failing : Execution where
  setting := {
    executable := .ofGraph .failing ⟨.failing, none⟩ {}
    hasManipulator := true }
  state := { State.initial 3 with manipulator := some {} }

namespace Execution

/-- Running these statements is no failure, and both of them end in errors, but only one error is
reported. -/
theorem unreported_failure :
    compile? ⟨.failing, none⟩ 10 1 .failing = .ok (some .failing) ∧
    (Executable.ofGraph .failing ⟨.failing, none⟩ {}).execute { manipulator := some {} } {} =
      .ok failing ∧
    (failing.runStatements 1).1 = some (.ok ()) ∧
    (failing.runStatements 1).2.state.outcome? 0 =
      some (.error (.functionFailed "lookup" ⟨"no answer"⟩)) ∧
    (failing.runStatements 1).2.state.outcome? 1 =
      some (.error (.functionFailed "block" ⟨"refused"⟩)) ∧
    (failing.runStatements 1).2.state.reported = [⟨"refused", some "block", false⟩] :=
  ⟨by decide +kernel, rfl, by decide +kernel, by decide +kernel, by decide +kernel,
    by decide +kernel⟩

/-- Of these two statements, the errors are failures of functions, and what slots have reported is
recorded. -/
theorem statement_failures_of_two : ∃ trace session, failing.Reaches trace session ∧
    (∃ recorded, session.state.reported = recorded ∧
      ∑ slot ∈ Finset.range 3, reportsOf (Trace.deedsOf trace slot) ≤
        (recorded : Multiset RecordedError)) ∧
    failing.setting.StatementFails (session.state.Replies failing.setting (some 0)) none "note"
      [.call "lookup" []] (trace.attempt 0) (.functionFailed "lookup" ⟨"no answer"⟩) ∧
    failing.setting.StatementFails (session.state.Replies failing.setting (some 1)) none "block"
      [.const (.bool true)] (trace.attempt 1) (.functionFailed "block" ⟨"refused"⟩) := by
  have compiled : compile? ⟨.failing, none⟩ 10 1 .failing = .ok (some Graph.failing) := by
    decide +kernel
  have begun : (Executable.ofGraph .failing ⟨.failing, none⟩ {}).execute
      { manipulator := some {} } {} = .ok failing := rfl
  have ran : (failing.runStatements 1).1 = some (.ok ()) := by decide +kernel
  obtain ⟨trace, session, reaches, same, ⟨recorded, reported, all⟩, each⟩ :=
    statement_failures compiled begun rfl .start ran
  have first : (failing.runStatements 1).2.state.outcome? 0 =
      some (.error (.functionFailed "lookup" ⟨"no answer"⟩)) := by decide +kernel
  have second : (failing.runStatements 1).2.state.outcome? 1 =
      some (.error (.functionFailed "block" ⟨"refused"⟩)) := by decide +kernel
  obtain ⟨-, function, args, same₀, fails₀, -⟩ :=
    each 0 _ _ _ _ _ rfl rfl ((congrArg (State.outcome? · 0) same).trans first)
  obtain ⟨-, function', args', same₁, fails₁, -⟩ :=
    each 1 _ _ _ _ _ rfl rfl ((congrArg (State.outcome? · 1) same).trans second)
  cases same₀
  cases same₁
  exact ⟨trace, session, reaches, ⟨recorded, reported, all⟩, fails₀, fails₁⟩

end Execution

end RuleGraph
