import RuleGraph.Proofs.Routine.Does

/-! # How routines end

Of what kind the outcome of a routine is, given of what kind its fetches are answered.

* **`Routine.EndsIn`** — whenever a routine ends, its outcome is of a kind.
* **`Routine.EndsIn.all`**, **`Routine.EndsIn.allValues`** — routines side by side, and what comes
  after them.
* **`Action.EndsWith`** — the results with which the steps of a function may end.
* **`Setting.endsIn_actionRoutine`** — a routine that runs them goes on with such a result.
* **`Setting.endsIn_exprRoutines`**, **`Setting.groupOutcome_of_forall`** — several expressions, and
  several statements.
-/

namespace RuleGraph

/-- Two lists that are each related to a third one, member by member, are related to each other. -/
theorem forall₂_through {α β γ : Type} {r : α → β → Prop} {s : α → γ → Prop} {t : γ → β → Prop}
    {as : List α} {bs : List β} {cs : List γ} (each : ∀ a b c, a ∈ as → r a b → s a c → t c b)
    (first : List.Forall₂ r as bs) (second : List.Forall₂ s as cs) : List.Forall₂ t cs bs := by
  induction first generalizing cs with
  | nil =>
    cases second
    exact .nil
  | cons here _ ih =>
    cases second with
    | cons there others =>
      refine .cons (each _ _ _ List.mem_cons_self here there) (ih ?_ others)
      exact fun a b c member => each a b c (List.mem_cons_of_mem _ member)

/-- The first error among outcomes is one of them. -/
theorem mem_of_collect {outcomes : List Outcome} {error : ExecutionError}
    (found : collect outcomes = .error error) : .error error ∈ outcomes := by
  induction outcomes with
  | nil => cases found
  | cons outcome rest ih =>
    rw [collect, List.mapM_cons] at found
    cases outcome with
    | error other =>
      cases found
      exact List.mem_cons_self
    | ok value =>
      cases later : collect rest with
      | error other =>
        rw [collect] at later
        rw [later] at found
        cases found
        exact List.mem_cons_of_mem _ (ih later)
      | ok values =>
        rw [collect] at later
        rw [later] at found
        cases found

/-- As many values are collected as there are outcomes. -/
theorem length_of_collect {outcomes : List Outcome} {values : List Value}
    (found : collect outcomes = .ok values) : values.length = outcomes.length :=
  (Graph.forall₂_of_mapM found).length_eq.symm

/-- Values are collected from themselves. -/
theorem collect_map_ok (values : List Value) : collect (values.map .ok) = .ok values := by
  induction values with
  | nil => rfl
  | cons value rest ih =>
    rw [collect] at ih ⊢
    rw [List.map_cons, List.mapM_cons, ih]
    rfl

namespace Routine

/-- Whenever a routine ends, its outcome is of a kind. -/
def EndsIn (reply : Nat → Outcome → Prop) (kind : Outcome → Prop) (routine : Routine) : Prop :=
  ∀ deeds outcome, routine.Does reply deeds (some outcome) → kind outcome

namespace EndsIn

variable {reply : Nat → Outcome → Prop} {kind : Outcome → Prop} {routine next : Routine}
  {children : List Routine}

/-- The end. -/
theorem done {outcome : Outcome} (h : kind outcome) : (Routine.done outcome).EndsIn reply kind := by
  intro deeds result does
  rw [eq_of_does_done does]
  exact h

/-- After an effect. -/
theorem perform {effect : Effect} (h : next.EndsIn reply kind) :
    (Routine.perform effect next).EndsIn reply kind := by
  intro deeds result does
  cases does with
  | perform rest => exact h _ _ rest

/-- After several effects. -/
theorem performAll {effects : List Effect} (h : next.EndsIn reply kind) :
    (Routine.performAll effects next).EndsIn reply kind := by
  induction effects with
  | nil => exact h
  | cons effect rest ih => exact ih.perform

/-- After an invocation. -/
theorem invoke {function : EntryKey} {args : List Value} {next : Nat → Routine}
    (h : ∀ ordinal, (next ordinal).EndsIn reply kind) :
    (Routine.invoke function args next).EndsIn reply kind := by
  intro deeds result does
  cases does with
  | invoke rest => exact h _ _ _ rest

/-- After a pause. -/
theorem pause (h : next.EndsIn reply kind) : (Routine.pause next).EndsIn reply kind := by
  intro deeds result does
  cases does with
  | pause rest => exact h _ _ rest

/-- After a sleep. -/
theorem sleep {milliseconds : Nat} (h : next.EndsIn reply kind) :
    (Routine.sleep milliseconds next).EndsIn reply kind := by
  intro deeds result does
  cases does with
  | sleep rest => exact h _ _ rest

/-- After a fetch, whatever it is answered. -/
theorem fetch {index : Nat} {next : Outcome → Routine}
    (h : ∀ outcome, reply index outcome → (next outcome).EndsIn reply kind) :
    (Routine.fetch index next).EndsIn reply kind := by
  intro deeds result does
  cases does with
  | fetch told rest => exact h _ told _ _ rest

/-- After routines side by side, each of which ends in an outcome of the kind. -/
theorem all {next : List Outcome → Routine}
    (each : ∀ child ∈ children, child.EndsIn reply kind)
    (rest : ∀ outcomes, outcomes.length = children.length → (∀ outcome ∈ outcomes, kind outcome) →
      (next outcomes).EndsIn reply kind) :
    (Routine.all children next).EndsIn reply kind := by
  intro deeds result does
  cases does with
  | @join _ _ _ _ _ outcomes _ side after =>
    have told := forall₂_of_doesAll side
    refine rest outcomes told.length_eq.symm (fun outcome member => ?_) _ _ after
    obtain ⟨place, bound, rfl⟩ := List.getElem_of_mem member
    have bound' : place < children.length := told.length_eq ▸ bound
    obtain ⟨deeds, own⟩ := told.get bound' bound
    exact each _ (List.getElem_mem bound') _ _ own

/-- The same, going on with values only. -/
theorem allValues {next : List Value → Routine}
    (each : ∀ child ∈ children, child.EndsIn reply kind)
    (rest : ∀ values, values.length = children.length → (next values).EndsIn reply kind) :
    (Routine.allValues children next).EndsIn reply kind := by
  refine all each fun outcomes length kinds => ?_
  cases found : collect outcomes with
  | ok values => exact rest values ((length_of_collect found).trans length)
  | error error => exact done (kinds _ (mem_of_collect found))

/-- The same, going on with one value. -/
theorem value {child : Routine} {next : Value → Routine} (first : child.EndsIn reply kind)
    (rest : ∀ value, (next value).EndsIn reply kind) :
    (Routine.value child next).EndsIn reply kind := by
  refine allValues (fun other member => ?_) fun values _ => rest _
  exact List.mem_singleton.1 member ▸ first

end EndsIn

end Routine

/-! ## Results of functions -/

/-- The steps of a function may end with a result. -/
inductive Action.EndsWith {α : Type} (result : Except FunctionError α) : Action α → Prop where
  /-- At once. -/
  | finish : EndsWith result (.finish result)
  /-- After a pause. -/
  | pause {next} (rest : EndsWith result next) : EndsWith result (.pause next)
  /-- After a sleep. -/
  | sleep {milliseconds next} (rest : EndsWith result next) :
    EndsWith result (.sleep milliseconds next)
  /-- After it was told outcomes of slots. -/
  | fetch {names next outcomes} (rest : EndsWith result (next outcomes)) :
    EndsWith result (.fetch names next)
  /-- After it fetched a slot for some time. -/
  | fetchWithin {milliseconds name next outcome} (rest : EndsWith result (next outcome)) :
    EndsWith result (.fetchWithin milliseconds name next)
  /-- After an effect. -/
  | perform {effect next} (rest : EndsWith result next) : EndsWith result (.perform effect next)

namespace Setting

open Routine

variable {setting : Setting} {reply : Nat → Outcome → Prop} {kind : Outcome → Prop}

/-- The steps of a function go on with a result with which they may end. -/
theorem endsIn_actionRoutine {α : Type} {next : Except FunctionError α → Routine}
    {action : Action α}
    (each : ∀ result, action.EndsWith result → (next result).EndsIn reply kind) :
    (setting.actionRoutine next action).EndsIn reply kind := by
  induction action with
  | finish result => exact each result .finish
  | pause _ ih => exact .pause (ih fun result ends => each result (.pause ends))
  | sleep _ _ ih => exact .sleep (ih fun result ends => each result (.sleep ends))
  | perform _ _ ih => exact .perform (ih fun result ends => each result (.perform ends))
  | fetch names rest ih =>
    intro deeds outcome does
    cases does with
    | @join _ _ _ _ _ outcomes _ _ after =>
      exact ih outcomes (fun result ends => each result (.fetch ends)) _ _ after
  | fetchWithin milliseconds name rest ih =>
    intro deeds outcome does
    cases does with
    | @within _ _ _ _ _ ended _ _ after =>
      exact ih ended (fun result ends => each result (.fetchWithin ends)) _ _ after

/-! ## Several outcomes -/

/-- Several expressions end in outcomes of a kind if each of them does. -/
theorem endsIn_exprRoutines {bodies : List SlotExpr}
    (each : ∀ body ∈ bodies, (setting.exprRoutine body).EndsIn reply kind) :
    ∀ child ∈ setting.exprRoutines bodies, child.EndsIn reply kind := by
  intro child member
  rw [exprRoutines_eq_map] at member
  obtain ⟨body, listed, rfl⟩ := List.mem_map.1 member
  exact each body listed

/-- What a statement feature makes of outcomes of a kind is of the kind, if null is. -/
theorem groupOutcome_of_forall {outcomes : List Outcome} (null : kind (.ok .null))
    (each : ∀ outcome ∈ outcomes, kind outcome) : kind (groupOutcome outcomes) := by
  induction outcomes with
  | nil => exact null
  | cons outcome rest ih =>
    obtain ⟨first, others⟩ := List.forall_mem_cons.1 each
    cases outcome with
    | ok value => exact ih others
    | error error =>
      cases error with
      | functionFailed function source => exact ih others
      | _ => exact first

end Setting

end RuleGraph
