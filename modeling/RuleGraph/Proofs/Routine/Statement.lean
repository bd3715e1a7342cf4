import RuleGraph.Proofs.Routine.Does

/-! # How statements fail

A statement evaluates its condition and its arguments and then runs its function. Only what happens
from then on is reported when it fails.

* **`Setting.argumentsRoutine`** — a statement up to its arguments.
* **`Setting.runStatement`** — a statement from its arguments on, whatever is done about failures.
* **`Routine.Splits`** — a routine with a part at its end can be split there.
* **`Setting.StatementFails`** — the ways in which a statement fails, with what it does on its way.
* **`Setting.statementFails_of_does`** — there are no others.
-/

namespace RuleGraph

namespace Setting

/-- Evaluate the arguments of a call and go on with them. -/
def argumentsThen (setting : Setting) (function : String) (args : List SlotExpr)
    (next : List Value → Routine) : Routine :=
  setting.prefetch (SlotExpr.call function args).references <|
    .allValues (setting.exprRoutines args) next

/-- Evaluate the condition of a statement and, if it holds, the arguments, and go on with them. -/
def conditionThen (setting : Setting) (condition : Option SlotExpr) (function : String)
    (args : List SlotExpr) (next : List Value → Routine) : Routine :=
  match condition with
  | none => setting.argumentsThen function args next
  | some condition =>
    setting.prefetch condition.references <|
      .value (setting.exprRoutine condition) fun value =>
        if value.isTruthy then setting.argumentsThen function args next else .done (.ok .null)

/-- The arguments of a statement as a list; null if its condition does not hold. -/
def argumentsRoutine (setting : Setting) (condition : Option SlotExpr) (function : String)
    (args : List SlotExpr) : Routine :=
  setting.conditionThen condition function args fun values => .done (.ok (.list values))

/-- Run the statement of a name on its arguments, and go on with a failure of its function. -/
def runStatement (setting : Setting) (failed : Entry → FunctionError → Routine) (name : String)
    (args : List Value) : Routine :=
  match setting.executable.function? name with
  | none => .done (.error (.unknownFunction name))
  | some entry =>
    match entry.kind with
    | .statement _ body =>
      match entry.arityError? args.length with
      | some error => failed entry error
      | none => .performAll (setting.trackingEffects args) <|
        match entry.admit? args with
        | none => .done (.ok .null)
        | some args => .invoke entry.key args fun ordinal =>
          setting.actionRoutine
            (fun result =>
              match result with
              | .ok _ => .done (.ok .null)
              | .error error => failed entry error)
            (body (setting.invocation entry ordinal) args)
    | _ => .done (.error (.unknownFunction name))

/-- A failure of which nobody is told. -/
def failedUnreported (entry : Entry) (error : FunctionError) : Routine :=
  .done (.error (.functionFailed entry.qualifiedName error))

/-- The ways in which a statement fails, with what it does on its way. -/
inductive StatementFails (setting : Setting) (reply : Nat → Outcome → Prop)
    (condition : Option SlotExpr) (function : String) (args : List SlotExpr) :
    Multiset Deed → ExecutionError → Prop where
  /-- Its condition or its arguments fail. That is all it does, and nothing is reported. -/
  | early {deeds error}
    (evaluated : (setting.argumentsRoutine condition function args).Does reply deeds
      (some (.error error))) :
    StatementFails setting reply condition function args deeds error
  /-- It has its arguments, but there is no such statement. -/
  | unbound {deeds values}
    (evaluated : (setting.argumentsRoutine condition function args).Does reply deeds
      (some (.ok (.list values)))) :
    StatementFails setting reply condition function args deeds (.unknownFunction function)
  /-- It has its arguments, and they are too few or too many or its function fails on them. Besides
  what it does in any case, it reports its failure exactly once. -/
  | itself {before own values entry source}
    (evaluated : (setting.argumentsRoutine condition function args).Does reply before
      (some (.ok (.list values))))
    (bound : setting.executable.function? function = some entry)
    (fails : (setting.runStatement failedUnreported function values).Does reply own
      (some (.error (.functionFailed entry.qualifiedName source)))) :
    StatementFails setting reply condition function args
      (before + own + {.perform (.report source.message ⟨some entry.name, false⟩)})
      (.functionFailed entry.qualifiedName source)

variable {setting : Setting} {condition : Option SlotExpr} {function name : String}
  {args : List SlotExpr}

/-- With a manipulator, a statement gets its arguments and runs. -/
theorem statementRoutine_call (given : setting.hasManipulator = true) :
    setting.statementRoutine name condition (.call function args) =
      setting.conditionThen condition function args
        (setting.runStatement statementFailed function) := by
  unfold statementRoutine
  rw [given]
  cases condition <;> rfl

end Setting

/-! ## Splitting -/

namespace Routine

variable {reply : Nat → Outcome → Prop} {deeds : Multiset Deed} {result : Outcome}

/-- What follows a first part: with values it is the second part, else nothing. -/
def Continues (reply : Nat → Outcome → Prop) (next : List Value → Routine)
    (deeds : Multiset Deed) (result : Outcome) : Outcome → Prop
  | .ok (.list values) => (next values).Does reply deeds (some result)
  | other => deeds = 0 ∧ result = other

/-- A routine with a part at its end does what comes before that part, and then that part. -/
def Splits (make : (List Value → Routine) → Routine) : Prop :=
  ∀ reply next deeds result, (make next).Does reply deeds (some result) →
    ∃ first before after,
      (make fun values => .done (.ok (.list values))).Does reply before (some first) ∧
      deeds = before + after ∧ Continues reply next after result first

namespace Splits

/-- Nothing but the part at the end. -/
theorem here (values : List Value) : Splits fun next => next values := by
  intro reply next deeds result does
  exact ⟨.ok (.list values), 0, deeds, .done, (zero_add _).symm, does⟩

/-- Routines side by side in front. -/
theorem behind {make : List Value → (List Value → Routine) → Routine} (children : List Routine)
    (each : ∀ values, Splits (make values)) :
    Splits fun next => .allValues children fun values => make values next := by
  intro reply next deeds result does
  -- They come to values, with which it goes on, or to an error, with which it ends.
  obtain ⟨outcomes, before, after, side, rfl, rest⟩ := of_does_allValues does
  cases values : collect outcomes with
  | ok values' =>
    rw [values] at rest
    obtain ⟨first, before', after', here, rfl, later⟩ := each values' _ _ _ _ rest
    refine ⟨first, before + before', after', ?_, (add_assoc _ _ _).symm, later⟩
    exact .join side (by rw [values]; exact here)
  | error error =>
    rw [values] at rest
    obtain ⟨rfl, rfl⟩ := rest
    refine ⟨.error error, before, 0, ?_, rfl, rfl, rfl⟩
    rw [← add_zero before]
    exact .join side (by rw [values]; exact .done)

/-- No part at the end at all. -/
theorem null : Splits fun _ => .done (.ok .null) := by
  intro reply next deeds result does
  cases does
  exact ⟨.ok .null, 0, 0, .done, rfl, rfl, rfl⟩

end Splits

end Routine

namespace Setting

open Routine

variable {setting : Setting} {condition : Option SlotExpr} {function name : String}
  {args : List SlotExpr} {reply : Nat → Outcome → Prop} {deeds : Multiset Deed} {result : Outcome}
  {failed : Entry → FunctionError → Routine} {values : List Value}

/-- Evaluating arguments can be split from what comes then. -/
theorem splits_argumentsThen : Splits (setting.argumentsThen function args) :=
  .behind _ fun _ => .behind _ .here

/-- So can evaluating a condition and arguments. -/
theorem splits_conditionThen : Splits (setting.conditionThen condition function args) := by
  cases condition with
  | none => exact splits_argumentsThen
  | some condition =>
    -- First its dependencies, then the condition, and the arguments only if that holds.
    refine .behind _ fun _ => .behind _ fun values => ?_
    dsimp only
    split
    · exact splits_argumentsThen
    · exact .null

/-- The steps of a function can be split from what comes then. -/
theorem of_does_actionRoutine {α : Type} {next : Except FunctionError α → Routine}
    {action : Action α}
    (does : (setting.actionRoutine next action).Does reply deeds (some result)) :
    ∃ ended before after, deeds = before + after ∧ (next ended).Does reply after (some result) ∧
      ∀ next' after' result', Does reply (next' ended) after' (some result') →
        (setting.actionRoutine next' action).Does reply (before + after') (some result') := by
  induction action generalizing deeds with
  | finish ended =>
    refine ⟨ended, 0, deeds, (zero_add _).symm, does, fun next' after' result' does => ?_⟩
    rwa [zero_add]
  | pause _ ih =>
    cases does with
    | pause does =>
      obtain ⟨ended, before, after, same, last, others⟩ := ih does
      exact ⟨ended, before, after, same, last, fun _ _ _ does => .pause (others _ _ _ does)⟩
  | sleep _ _ ih =>
    cases does with
    | sleep does =>
      obtain ⟨ended, before, after, same, last, others⟩ := ih does
      exact ⟨ended, before, after, same, last, fun _ _ _ does => .sleep (others _ _ _ does)⟩
  | perform effect _ ih =>
    cases does with
    | perform does =>
      obtain ⟨ended, before, after, rfl, last, others⟩ := ih does
      refine ⟨ended, .perform effect ::ₘ before, after, (Multiset.cons_add _ _ _).symm, last, ?_⟩
      intro next' after' result' does
      rw [Multiset.cons_add]
      exact .perform (others _ _ _ does)
  | fetch names rest ih =>
    cases does with
    | @join _ _ _ side _ outcomes _ each does =>
      obtain ⟨ended, before, after, rfl, last, others⟩ := ih outcomes does
      refine ⟨ended, side + before, after, (add_assoc _ _ _).symm, last, ?_⟩
      intro next' after' result' does
      rw [add_assoc]
      exact .join each (others _ _ _ does)
  | fetchWithin milliseconds name rest ih =>
    cases does with
    | @within _ _ _ inner _ outcome _ first does =>
      obtain ⟨ended, before, after, rfl, last, others⟩ := ih outcome does
      refine ⟨ended, inner + before, after, (add_assoc _ _ _).symm, last, ?_⟩
      intro next' after' result' does
      rw [add_assoc]
      exact .within first (others _ _ _ does)

/-- A statement that runs comes to null, is no statement, or goes on with a failure of its
function. -/
theorem of_does_runStatement
    (does : (setting.runStatement failed name values).Does reply deeds (some result)) :
    result = .ok .null ∨ (result = .error (.unknownFunction name) ∧ deeds = 0) ∨
    ∃ entry source before after, setting.executable.function? name = some entry ∧
      deeds = before + after ∧ (failed entry source).Does reply after (some result) ∧
      ∀ failed' after' result', Does reply (failed' entry source) after' (some result') →
        (setting.runStatement failed' name values).Does reply (before + after') (some result') := by
  cases found : setting.executable.function? name with
  | none =>
    simp only [runStatement, found] at does
    cases does
    exact .inr (.inl ⟨rfl, rfl⟩)
  | some entry =>
    cases kind : entry.kind with
    | statement feature body =>
      cases arity : entry.arityError? values.length with
      | some error =>
        simp only [runStatement, found, kind, arity] at does ⊢
        refine .inr (.inr ⟨entry, error, 0, deeds, rfl, (zero_add _).symm, does, ?_⟩)
        intro failed' after' result' does
        rwa [zero_add]
      | none =>
        cases admitted : entry.admit? values with
        | none =>
          simp only [runStatement, found, kind, arity, admitted] at does
          obtain ⟨rest, -, does⟩ := does_performAll.1 does
          cases does
          exact .inl rfl
        | some admitted' =>
          simp only [runStatement, found, kind, arity, admitted] at does ⊢
          obtain ⟨_, rfl, later⟩ := does_performAll.1 does
          cases later with
          | invoke later =>
            obtain ⟨ended, before, after, rfl, last, others⟩ := of_does_actionRoutine later
            cases ended with
            | ok =>
              cases last
              exact .inl rfl
            | error source =>
              refine .inr (.inr ⟨entry, source,
                ((setting.trackingEffects values).map Deed.perform : Multiset Deed) +
                  (.invoke entry.key admitted' ::ₘ before), after, rfl, ?_, last, ?_⟩)
              -- It has tracked its arguments and invoked its function, with what that did.
              · rw [add_assoc, Multiset.cons_add]
              · intro failed' after' result' does
                rw [add_assoc, Multiset.cons_add]
                exact does_performAll.2 ⟨_, rfl, .invoke (others _ _ _ does)⟩
    | _ =>
      simp only [runStatement, found, kind] at does
      cases does
      exact .inr (.inl ⟨rfl, rfl⟩)

/-- **A statement that fails does so in one of these ways.** -/
theorem statementFails_of_does {error : ExecutionError} (given : setting.hasManipulator = true)
    (does : (setting.statementRoutine name condition (.call function args)).Does reply deeds
      (some (.error error))) :
    setting.StatementFails reply condition function args deeds error := by
  rw [statementRoutine_call given] at does
  obtain ⟨first, before, after, evaluated, rfl, rest⟩ := splits_conditionThen _ _ _ _ does
  cases first with
  | error early =>
    obtain ⟨rfl, same⟩ := rest
    cases same
    rw [add_zero]
    exact .early evaluated
  | ok value =>
    cases value with
    | list values =>
      -- With its arguments at hand, it succeeds, is not there, or fails and reports it.
      rcases of_does_runStatement rest with same | ⟨same, rfl⟩ |
        ⟨entry, source, own, last, bound, rfl, reported, others⟩
      · cases same
      · cases same
        rw [add_zero]
        exact .unbound evaluated
      · cases reported with
        | perform reported =>
          cases reported
          rw [← add_assoc]
          -- The same run, but for the report at its end.
          have fails := others failedUnreported 0 _ .done
          rw [add_zero] at fails
          exact .itself evaluated bound fails
    | _ =>
      obtain ⟨-, same⟩ := rest
      cases same

end Setting

end RuleGraph
