import RuleGraph.Proofs.Compile.Rewriting
import RuleGraph.Proofs.Interleaving.Statements
import RuleGraph.Proofs.Sequence.Course

/-! # What statements do

A statement comes to its arguments unseen, and with them it does what the reference says before
anything else happens.

* **`Setting.Strikes`** — a routine ends at once and does given things.
* **`Setting.Plays`** — a routine comes, unseen, to where it strikes.
* **`Setting.strikes_invokeStatement`** — a statement that has its arguments strikes.
* **`Setting.plays_statementRoutine`** — a statement that evaluates them first comes there.
-/

namespace RuleGraph

open Routine Thread

/-- A routine ends at once and does what it would do after what was invoked before. -/
def Setting.Strikes (setting : Setting) (routine : Routine)
    (does : List InvocationRecord → List Deed) : Prop :=
  ∀ path state earlier, setting.executable.statementInvocations earlier =
      setting.executable.statementInvocations state.invocations →
    ∃ outcome, start setting path routine state =
      (.finished outcome, state.actAll setting (does earlier))

/-- A routine of a slot comes, unseen, to where it ends at once and does given things. -/
def Setting.Plays (setting : Setting) (results : Results) (index : Nat) (routine : Routine)
    (does : List InvocationRecord → List Deed) : Prop :=
  ∃ goal, setting.HeadsFor results index routine goal ∧ setting.Strikes goal does

namespace Setting

variable {setting : Setting} {results : Results} {path : List Nat} {index : Nat}
  {routine routine' : Routine} {does : List InvocationRecord → List Deed} {state : State}
  {name : String}

/-- A routine that has ended does nothing more. -/
theorem Plays.done {outcome : Outcome} :
    setting.Plays results index (.done outcome) fun _ => [] :=
  ⟨.done outcome, .here, fun _ _ _ _ => ⟨outcome, rfl⟩⟩

/-- What a routine comes to may do the rest. -/
theorem HeadsFor.plays (heads : setting.HeadsFor results index routine routine')
    (plays : setting.Plays results index routine' does) :
    setting.Plays results index routine does := by
  obtain ⟨goal, heads', strikes⟩ := plays
  exact ⟨goal, heads.trans heads', strikes⟩

/-! ## Effects -/

/-- Effects in order are deeds in order. -/
theorem start_performAll {next : Routine} (effects : List Effect) :
    start setting path (performAll effects next) state =
      start setting path next (state.actAll setting (effects.map .perform)) := by
  induction effects generalizing state with
  | nil => rfl
  | cons effect rest ih =>
    rw [performAll, start_perform, ih]
    rfl

/-- A function that neither suspends nor fetches has its effects and ends. -/
theorem start_actionRoutine {α : Type} {action : Action α} (prompt : action.IsPrompt)
    (next : Except FunctionError α → Routine) :
    start setting path (setting.actionRoutine next action) state =
      start setting path (next action.run.2)
        (state.actAll setting (action.run.1.map .perform)) := by
  induction prompt generalizing state with
  | finish => rfl
  | sleep _ ih =>
    rw [actionRoutine, start_sleep, if_pos rfl, ih]
    rfl
  | perform _ ih =>
    rw [actionRoutine, start_perform, ih]
    rfl

/-- Effects are no invocations. -/
theorem filterMap_invocation?_perform (effects : List Effect) :
    (effects.map Deed.perform).filterMap Deed.invocation? = [] := by
  induction effects with
  | nil => rfl
  | cons effect rest ih => exact ih

/-! ## With arguments -/

/-- How often a statement was invoked can be told from the invocations of statements. -/
theorem countP_eq_of_statementInvocations {executable : Executable}
    {earlier records : List InvocationRecord} {key : EntryKey}
    (statement : executable.hasStatement key = true)
    (same : executable.statementInvocations earlier = executable.statementInvocations records) :
    earlier.countP (fun record => record.1 = key) =
      records.countP fun record => record.1 = key := by
  have only : ∀ records : List InvocationRecord, records.countP (fun record => record.1 = key) =
      (executable.statementInvocations records).countP fun record => record.1 = key := by
    intro records
    rw [Executable.statementInvocations, List.countP_filter]
    refine List.countP_congr fun record _ => ?_
    simp only [decide_eq_true_eq, Bool.and_eq_true]
    exact ⟨fun here => ⟨here, here ▸ statement⟩, And.left⟩
  rw [only earlier, only records, same]

/-- A bound statement is known as one. -/
theorem hasStatement_of_function? {executable : Executable} {entry : Entry}
    (bound : executable.function? name = some entry) (statement : entry.isStatement = true) :
    executable.hasStatement entry.key = true := by
  obtain ⟨before, after, same, -⟩ := List.lookup_eq_some_iff.1 bound
  refine List.any_eq_true.2 ⟨(name, entry), ?_, ?_⟩
  · rw [same]
    exact List.mem_append_right _ List.mem_cons_self
  · rw [statement]
    simp

/-- **A statement that has its arguments does what the reference says**, and ends. -/
theorem strikes_invokeStatement (orderly : setting.IsOrderly results) (args : List Value) :
    setting.Strikes (setting.invokeStatement name args)
      fun earlier => setting.invocationDeeds earlier name args := by
  intro path state earlier same
  cases bound : setting.executable.function? name with
  | none =>
    simp only [invokeStatement, invocationDeeds, bound]
    exact ⟨_, rfl⟩
  | some entry =>
    have ends := orderly.prompt name entry bound
    cases kind : entry.kind with
    | statement feature body =>
      cases arity : entry.arityError? args.length with
      | some error =>
        simp only [invokeStatement, invocationDeeds, bound, kind, arity]
        exact ⟨_, rfl⟩
      | none =>
        cases admitted : entry.admit? args with
        | none =>
          simp only [invokeStatement, invocationDeeds, bound, kind, arity, admitted]
          exact ⟨_, start_performAll _⟩
        | some args' =>
          have statement : entry.isStatement = true := by rw [Entry.isStatement, kind]
          have ends := ends statement
          simp only [Entry.IsPrompt, kind] at ends
          have tracked := @filterMap_invocation?_perform (setting.trackingEffects args)
          -- The function is told how often it was invoked, this time included.
          have ordinal : ((state.actAll setting
              ((setting.trackingEffects args).map .perform)).invoke entry.key
                args').invocationCount entry.key =
                earlier.countP (fun record => record.1 = entry.key) + 1 := by
            rw [State.invocationCount, State.invoke, State.invocations_actAll, tracked,
              List.append_nil, List.countP_append, countP_eq_of_statementInvocations
                (hasStatement_of_function? bound statement) same]
            simp
          simp only [invokeStatement, invocationDeeds, bound, kind, arity, admitted]
          rw [start_performAll, start_invoke, ordinal, start_actionRoutine (ends _ _)]
          rw [State.actAll_append, State.actAll_append]
          cases (body (setting.invocation entry _) args').run.2 with
          | ok => exact ⟨_, rfl⟩
          | error error => exact ⟨_, rfl⟩
    | _ =>
      simp only [invokeStatement, invocationDeeds, bound, kind]
      exact ⟨_, rfl⟩

/-! ## Conditions and arguments -/

section

variable {executable : Executable} {known : String → Outcome}

/-- Several expressions have values only if all slots that they name have, if that is so of each of
them. -/
theorem exists_known_of_evaluateExprs {bodies : List SlotExpr} {values : List Value}
    (each : ∀ body ∈ bodies, ∀ value, executable.evaluateExpr results known body = .ok value →
      ∀ name ∈ body.features, ∃ found, known name = .ok found)
    (evaluated : executable.evaluateExprs results known bodies = .ok values) :
    ∀ name ∈ SlotExpr.featuresOfAll bodies, ∃ found, known name = .ok found := by
  induction bodies generalizing values with
  | nil =>
    intro name none
    cases none
  | cons body rest ih =>
    rw [Executable.evaluateExprs] at evaluated
    obtain ⟨value, first, evaluated⟩ := bind_eq_ok_iff.1 evaluated
    obtain ⟨others, later, -⟩ := bind_eq_ok_iff.1 evaluated
    intro name read
    rw [SlotExpr.featuresOfAll] at read
    rcases List.mem_append.1 read with own | other
    · exact each body List.mem_cons_self value first name own
    · exact ih (fun body member => each body (List.mem_cons_of_mem _ member)) later name other

/-- An expression has a value only if all slots that it names have. -/
theorem exists_known_of_evaluateExpr {body : SlotExpr} {value : Value}
    (evaluated : executable.evaluateExpr results known body = .ok value) :
    ∀ name ∈ body.features, ∃ found, known name = .ok found := by
  induction body generalizing value with
  | const =>
    intro name none
    cases none
  | feature own =>
    intro name read
    rw [List.mem_singleton.1 read]
    exact ⟨value, by rwa [Executable.evaluateExpr] at evaluated⟩
  | list items ih =>
    rw [Executable.evaluateExpr] at evaluated
    obtain ⟨values, each, -⟩ := bind_eq_ok_iff.1 evaluated
    exact exists_known_of_evaluateExprs (fun body member value => ih body member) each
  | call function args ih =>
    rw [Executable.evaluateExpr] at evaluated
    obtain ⟨values, each, -⟩ := bind_eq_ok_iff.1 evaluated
    exact exists_known_of_evaluateExprs (fun body member value => ih body member) each

/-- If all slots of given names have values, fetching them ahead does not fail. -/
theorem mapM_ne_error {names : List String} (all : ∀ name ∈ names, ∃ found, known name = .ok found)
    (error : ExecutionError) : names.mapM known ≠ .error error := by
  intro failed
  rw [Executable.mapM_eq_collect] at failed
  obtain ⟨name, member, here⟩ := List.mem_map.1 (mem_of_collect failed)
  obtain ⟨found, same⟩ := all name member
  rw [same] at here
  cases here

end

/-- Slots are fetched ahead, and if that fails the rest would do nothing. -/
theorem plays_prefetch {names : List String}
    (reads : ∀ name ∈ names,
      setting.HeadsFor results index (setting.fetchNamed name) (.done (setting.known results name)))
    (plays : setting.Plays results index routine does)
    (fails : ∀ error, names.mapM (setting.known results) = .error error →
      ∀ earlier, does earlier = []) :
    setting.Plays results index (setting.prefetch names routine) does := by
  have ahead := headsFor_prefetch reads routine
  cases found : names.mapM (setting.known results) with
  | ok values =>
    rw [found] at ahead
    exact ahead.plays plays
  | error error =>
    rw [found] at ahead
    rw [show does = fun _ => [] from funext (fails error found)]
    exact ahead.plays .done

/-- Arguments come first, and with them given things are done. -/
theorem plays_argumentsThen (orderly : setting.IsOrderly results) {function : String}
    {args : List SlotExpr} {next : List Value → Routine}
    {does : List Value → List InvocationRecord → List Deed}
    (can : setting.CanEvaluate results index (.call function args))
    (plays : ∀ values, setting.Plays results index (next values) (does values)) :
    setting.Plays results index (setting.argumentsThen function args next)
      fun earlier =>
        match setting.executable.evaluateExprs results (setting.known results) args with
        | .ok values => does values earlier
        | .error _ => [] := by
  have named : ∀ name ∈ (SlotExpr.call function args).references,
      name ∈ SlotExpr.featuresOfAll args := fun name member => SlotExpr.mem_references.1 member
  refine plays_prefetch (fun name member => can.reads name (named name member)) ?_ ?_
  · have all := headsFor_exprRoutines
      (fun arg member => headsFor_exprRoutine orderly (can.arg member)) next
    cases evaluated : setting.executable.evaluateExprs results (setting.known results) args with
    | ok values =>
      rw [evaluated] at all
      exact all.plays (plays values)
    | error error =>
      rw [evaluated] at all
      exact all.plays .done
  · intro error failed earlier
    cases evaluated : setting.executable.evaluateExprs results (setting.known results) args with
    | error => rfl
    | ok values =>
      refine absurd failed (mapM_ne_error (fun name member => ?_) error)
      exact exists_known_of_evaluateExprs (fun _ _ _ => exists_known_of_evaluateExpr) evaluated name
        (named name member)

/-- The condition comes before everything else, and only if it holds given things are done. -/
theorem plays_conditionThen (orderly : setting.IsOrderly results) {condition : Option SlotExpr}
    {function : String} {args : List SlotExpr} {next : List Value → Routine}
    (can : ∀ body ∈ condition, setting.CanEvaluate results index body)
    (plays : setting.Plays results index (setting.argumentsThen function args next) does) :
    setting.Plays results index (setting.conditionThen condition function args next)
      fun earlier =>
        match setting.executable.verdict results (setting.known results) condition with
        | .ok true => does earlier
        | _ => [] := by
  cases condition with
  | none => exact plays
  | some body =>
    have can := can body rfl
    refine plays_prefetch
      (fun name member => can.reads name (SlotExpr.mem_references.1 member)) ?_ ?_
    · have first := headsFor_exprRoutine orderly can
      rw [Executable.verdict]
      cases evaluated : setting.executable.evaluateExpr results (setting.known results) body with
      | error error =>
        rw [evaluated] at first
        exact (first.value_error _).plays .done
      | ok value =>
        rw [evaluated] at first
        refine (first.value _).plays ?_
        cases truth : value.isTruthy with
        | true =>
          rw [Except.map, truth]
          exact plays
        | false =>
          rw [Except.map, truth]
          exact .done
    · intro error failed earlier
      rw [Executable.verdict]
      cases evaluated : setting.executable.evaluateExpr results (setting.known results) body with
      | error => rfl
      | ok value =>
        refine absurd failed (mapM_ne_error (fun name member => ?_) error)
        exact exists_known_of_evaluateExpr evaluated name (SlotExpr.mem_references.1 member)

/-- **A statement plays what the reference says**, if its expressions can be evaluated. -/
theorem plays_statementRoutine (orderly : setting.IsOrderly results) {slot : Slot}
    {feature function : String} {condition : Option SlotExpr} {args : List SlotExpr}
    (kind : slot.kind = .statement feature condition (.call function args))
    (can : ∀ body ∈ slot.expressions, setting.CanEvaluate results index body) :
    setting.Plays results index
      (setting.statementRoutine slot.name condition (.call function args))
      fun earlier => setting.statementDeeds results earlier slot := by
  have expressions : slot.expressions = condition.toList ++ [.call function args] := by
    rw [Slot.expressions, kind]
  rw [expressions] at can
  rw [statementRoutine_call orderly.handled]
  simp only [statementDeeds, kind]
  refine plays_conditionThen orderly (fun body given => ?_) ?_
  · exact can body (List.mem_append_left _ (Option.mem_toList.2 given))
  · refine plays_argumentsThen orderly ?_ fun values =>
      ⟨_, .here, strikes_invokeStatement orderly values⟩
    exact can (.call function args) (List.mem_append_right _ List.mem_cons_self)

end Setting

end RuleGraph
