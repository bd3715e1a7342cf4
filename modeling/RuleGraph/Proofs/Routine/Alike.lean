import RuleGraph.Proofs.Routine.Ends

/-! # Routines that come to the same

The same expression, evaluated twice in one execution, comes to the same outcome if whatever is
fetched is answered alike and the functions that are called repeat their results.

* **`Routine.IsToldAlike`** — whatever a routine may fetch is answered alike.
* **`Routine.Agrees`** — two routines come to the same outcome, if they come to an end.
* **`Action.core`** — the steps of a function without its pauses and effects.
* **`Setting.Repeats`** — a function gives the same result whenever it is invoked on the same
  arguments.
* **`Setting.agrees_exprRoutine`** — an expression comes to the same outcome twice.
-/

namespace RuleGraph

namespace Routine

/-- Whatever a routine may fetch, the one and the other reply are the same. -/
def IsToldAlike (reply reply' : Nat → Outcome → Prop) (routine : Routine) : Prop :=
  ∀ index, routine.Fetches index → ∀ outcome outcome', reply index outcome →
    reply' index outcome' → outcome = outcome'

/-- Two routines come to the same outcome, under one reply each, if they come to an end. -/
def Agrees (reply reply' : Nat → Outcome → Prop) (routine routine' : Routine) : Prop :=
  ∀ deeds deeds' outcome outcome', routine.Does reply deeds (some outcome) →
    routine'.Does reply' deeds' (some outcome') → outcome = outcome'

namespace Agrees

variable {reply reply' : Nat → Outcome → Prop}

/-- The end. -/
theorem done {outcome : Outcome} : Agrees reply reply' (.done outcome) (.done outcome) := by
  intro deeds deeds' result result' does does'
  rw [eq_of_does_done does, eq_of_does_done does']

/-- After several effects, which need not be the same. -/
theorem performAll {effects effects' : List Effect} {next next' : Routine}
    (rest : Agrees reply reply' next next') :
    Agrees reply reply' (.performAll effects next) (.performAll effects' next') := by
  intro deeds deeds' result result' does does'
  obtain ⟨_, -, later⟩ := does_performAll.1 does
  obtain ⟨_, -, later'⟩ := does_performAll.1 does'
  exact rest _ _ _ _ later later'

/-- After an invocation, however often the function was invoked before. -/
theorem invoke {function : EntryKey} {args : List Value} {next next' : Nat → Routine}
    (rest : ∀ ordinal ordinal', Agrees reply reply' (next ordinal) (next' ordinal')) :
    Agrees reply reply' (.invoke function args next) (.invoke function args next') := by
  intro deeds deeds' result result' does does'
  cases does with
  | invoke later =>
    cases does' with
    | invoke later' => exact rest _ _ _ _ _ _ later later'

/-- After a fetch that is answered alike. -/
theorem fetch {index : Nat} {next : Outcome → Routine}
    (alike : ∀ outcome outcome', reply index outcome → reply' index outcome' → outcome = outcome')
    (rest : ∀ outcome, Agrees reply reply' (next outcome) (next outcome)) :
    Agrees reply reply' (.fetch index next) (.fetch index next) := by
  intro deeds deeds' result result' does does'
  cases does with
  | fetch told later =>
    cases does' with
    | fetch told' later' =>
      cases alike _ _ told told'
      exact rest _ _ _ _ _ later later'

/-- After routines side by side that come to the same. -/
theorem all {children : List Routine} {next : List Outcome → Routine}
    (each : ∀ child ∈ children, Agrees reply reply' child child)
    (rest : ∀ outcomes, Agrees reply reply' (next outcomes) (next outcomes)) :
    Agrees reply reply' (.all children next) (.all children next) := by
  intro deeds deeds' result result' does does'
  cases does with
  | @join _ _ _ _ _ outcomes _ side later =>
    cases does' with
    | @join _ _ _ _ _ outcomes' _ side' later' =>
      have same : outcomes' = outcomes := by
        rw [← List.forall₂_eq_eq_eq]
        refine forall₂_through ?_ (forall₂_of_doesAll side) (forall₂_of_doesAll side')
        rintro child outcome outcome' member ⟨_, here⟩ ⟨_, there⟩
        exact (each child member _ _ _ _ here there).symm
      subst same
      exact rest _ _ _ _ _ later later'

/-- The same, going on with values only. -/
theorem allValues {children : List Routine} {next : List Value → Routine}
    (each : ∀ child ∈ children, Agrees reply reply' child child)
    (rest : ∀ values, Agrees reply reply' (next values) (next values)) :
    Agrees reply reply' (.allValues children next) (.allValues children next) := by
  refine all each fun outcomes => ?_
  cases collect outcomes with
  | ok values => exact rest values
  | error error => exact done

end Agrees

namespace IsToldAlike

variable {reply reply' : Nat → Outcome → Prop} {children : List Routine}

/-- So is each of several routines side by side. -/
theorem child {breadth : Nat} {next : List Outcome → Routine}
    (alike : IsToldAlike reply reply' (.join breadth children next)) :
    ∀ child ∈ children, child.IsToldAlike reply reply' :=
  fun _ member index inner => alike index (.child member inner)

/-- So is what comes after them. -/
theorem rest {breadth : Nat} {next : List Outcome → Routine}
    (alike : IsToldAlike reply reply' (.join breadth children next)) (outcomes : List Outcome) :
    (next outcomes).IsToldAlike reply reply' :=
  fun index later => alike index (.join later)

/-- So is what goes on with their values. -/
theorem restOfValues {next : List Value → Routine}
    (alike : IsToldAlike reply reply' (.allValues children next)) (values : List Value) :
    (next values).IsToldAlike reply reply' := by
  intro index later
  refine alike index (@Fetches.join _ _ _ (values.map .ok) _ ?_)
  rwa [collect_map_ok]

end IsToldAlike

end Routine

/-! ## Functions that repeat their results -/

/-- The steps of a function without its pauses and effects: what it fetches, and its result. -/
def Action.core {α : Type} : Action α → Action α
  | .finish result => .finish result
  | .pause rest => core rest
  | .sleep _ rest => core rest
  | .fetch names rest => .fetch names fun outcomes => core (rest outcomes)
  | .fetchWithin milliseconds name rest =>
    .fetchWithin milliseconds name fun outcome => core (rest outcome)
  | .perform _ rest => core rest

namespace Setting

open Routine

/-- However often it was invoked before, a function that computes values fetches the same and gives
the same result when it is invoked on the same arguments. It waits for what it fetches, so that its
result does not depend on how long that takes. -/
def Repeats (setting : Setting) (entry : Entry) : Prop :=
  match entry.kind with
  | .sync body => ∀ ordinal ordinal' args,
    (body (setting.invocation entry ordinal) args).2 =
      (body (setting.invocation entry ordinal') args).2
  | .async body => ∀ ordinal ordinal' args,
    (body (setting.invocation entry ordinal) args).core =
        (body (setting.invocation entry ordinal') args).core ∧
      (body (setting.invocation entry ordinal) args).IsPatient
  | .statement _ _ | .custom _ | .transform _ => True

variable {setting : Setting} {reply reply' : Nat → Outcome → Prop} {deeds : Multiset Deed}
  {outcome : Outcome} {name : String}

section

variable {α : Type} {next : Except FunctionError α → Routine} {action action' : Action α}

/-- A function comes to the same without its pauses and effects. -/
theorem does_core (does : (setting.actionRoutine next action).Does reply deeds (some outcome)) :
    ∃ deeds', (setting.actionRoutine next action.core).Does reply deeds' (some outcome) := by
  induction action generalizing deeds with
  | finish => exact ⟨deeds, does⟩
  | pause _ ih =>
    cases does with
    | pause later => exact ih later
  | sleep _ _ ih =>
    cases does with
    | sleep later => exact ih later
  | perform _ _ ih =>
    cases does with
    | perform later => exact ih later
  | fetch names rest ih =>
    cases does with
    | join each later =>
      obtain ⟨_, later⟩ := ih _ later
      exact ⟨_, .join each later⟩
  | fetchWithin milliseconds name rest ih =>
    cases does with
    | within first later =>
      obtain ⟨_, later⟩ := ih _ later
      exact ⟨_, .within first later⟩

/-- It fetches no more then. -/
theorem fetches_of_core {index : Nat}
    (fetched : (setting.actionRoutine next action.core).Fetches index) :
    (setting.actionRoutine next action).Fetches index := by
  induction action with
  | finish => exact fetched
  | pause _ ih => exact .pause (ih fetched)
  | sleep _ _ ih => exact .sleep (ih fetched)
  | perform _ _ ih => exact .perform (ih fetched)
  | fetch names rest ih =>
    rcases fetches_all.1 fetched with ⟨child, member, inner⟩ | ⟨outcomes, later⟩
    · exact .child member inner
    · exact .join (ih outcomes later)
  | fetchWithin milliseconds name rest ih =>
    cases fetched with
    | inner first => exact .inner first
    | within later => exact .within (ih _ later)

/-- Fetching by name comes to the same. -/
theorem agrees_fetchNamed (alike : (setting.fetchNamed name).IsToldAlike reply reply') :
    Agrees reply reply' (setting.fetchNamed name) (setting.fetchNamed name) := by
  unfold fetchNamed at alike ⊢
  split
  · rename_i index found
    rw [found] at alike
    exact .fetch (alike index .here) fun _ => .done
  · exact .done

/-- Fetching several slots side by side comes to the same. -/
theorem agrees_of_mem_fetchNamed {names : List String} {breadth : Nat}
    {next : List Outcome → Routine}
    (alike : (Routine.join breadth (names.map setting.fetchNamed) next).IsToldAlike reply reply') :
    ∀ child ∈ names.map setting.fetchNamed, Agrees reply reply' child child := by
  intro child member
  obtain ⟨name, listed, rfl⟩ := List.mem_map.1 member
  exact agrees_fetchNamed (alike.child _ member)

/-- The steps of a function without its pauses and effects come to the same, if it waits for what it
fetches. -/
theorem agrees_core (patient : action.IsPatient)
    (alike : (setting.actionRoutine next action.core).IsToldAlike reply reply')
    (rest : ∀ result, Agrees reply reply' (next result) (next result)) :
    Agrees reply reply' (setting.actionRoutine next action.core)
      (setting.actionRoutine next action.core) := by
  induction action with
  | finish result => exact rest result
  | pause _ ih | sleep _ _ ih | perform _ _ ih => exact ih patient alike
  | fetch names _ ih =>
    exact .all (agrees_of_mem_fetchNamed alike) fun outcomes =>
      ih outcomes (patient outcomes) (alike.rest outcomes)
  | fetchWithin => exact patient.elim

/-- **Steps of functions that differ in pauses and effects only come to the same**, if they wait for
what they fetch. -/
theorem agrees_actionRoutine (same : action.core = action'.core) (patient : action.IsPatient)
    (alike : (setting.actionRoutine next action).IsToldAlike reply reply')
    (rest : ∀ result, Agrees reply reply' (next result) (next result)) :
    Agrees reply reply' (setting.actionRoutine next action)
      (setting.actionRoutine next action') := by
  intro deeds deeds' result result' does does'
  obtain ⟨_, does⟩ := does_core does
  obtain ⟨_, does'⟩ := does_core does'
  rw [← same] at does'
  refine agrees_core patient (fun index fetched => ?_) rest _ _ _ _ does does'
  exact alike index (fetches_of_core fetched)

end

/-- Fetching ahead comes to the same if what follows does. -/
theorem agrees_prefetch {names : List String} {next : Routine}
    (alike : (setting.prefetch names next).IsToldAlike reply reply')
    (rest : Agrees reply reply' next next) :
    Agrees reply reply' (setting.prefetch names next) (setting.prefetch names next) :=
  .allValues (agrees_of_mem_fetchNamed alike) fun _ => rest

/-- A call comes to the same if its function repeats its results. -/
theorem agrees_callRoutine {args : List Value}
    (repeats : ∀ entry, setting.executable.function? name = some entry → setting.Repeats entry)
    (alike : (setting.callRoutine name args).IsToldAlike reply reply') :
    Agrees reply reply' (setting.callRoutine name args) (setting.callRoutine name args) := by
  cases bound : setting.executable.function? name with
  | none =>
    simp only [callRoutine, bound]
    exact .done
  | some entry =>
    have again := repeats entry bound
    simp only [callRoutine, bound] at alike ⊢
    split
    · exact .done
    · split
      · exact .done
      · rename_i fits _ args' admitted
        simp only [fits, admitted, invokeValue] at alike ⊢
        simp only [Repeats] at again
        split
        · rename_i body kind
          simp only [kind] at again
          refine .invoke fun ordinal ordinal' => .performAll ?_
          rw [again ordinal ordinal' args']
          exact .done
        · rename_i body kind
          simp only [kind] at again alike
          refine .invoke fun ordinal ordinal' => ?_
          obtain ⟨same, patient⟩ := again ordinal ordinal' args'
          refine agrees_actionRoutine same patient (fun index later => ?_) fun _ => .done
          exact alike index (.invoke later)
        all_goals exact .done

/-- Several expressions come to the same, one by one, if each of them does. -/
theorem agrees_of_mem_exprRoutines {bodies : List SlotExpr}
    (each : ∀ body ∈ bodies, Agrees reply reply' (setting.exprRoutine body)
      (setting.exprRoutine body)) :
    ∀ child ∈ setting.exprRoutines bodies, Agrees reply reply' child child := by
  intro child member
  rw [exprRoutines_eq_map] at member
  obtain ⟨body, listed, rfl⟩ := List.mem_map.1 member
  exact each body listed

/-- **An expression comes to the same outcome twice**, if whatever is fetched is answered alike and
the functions that are called repeat their results. -/
theorem agrees_exprRoutine {body : SlotExpr}
    (repeats : ∀ call ∈ body.calls, ∀ entry, setting.executable.function? call.1 = some entry →
      setting.Repeats entry)
    (alike : (setting.exprRoutine body).IsToldAlike reply reply') :
    Agrees reply reply' (setting.exprRoutine body) (setting.exprRoutine body) := by
  have inside : ∀ {bodies : List SlotExpr} {next : List Value → Routine},
      (Routine.allValues (setting.exprRoutines bodies) next).IsToldAlike reply reply' →
      ∀ body ∈ bodies, (setting.exprRoutine body).IsToldAlike reply reply' := by
    intro bodies next alike body member
    refine alike.child _ ?_
    rw [exprRoutines_eq_map]
    exact List.mem_map_of_mem member
  induction body with
  | const value =>
    rw [exprRoutine]
    exact .done
  | feature name =>
    rw [exprRoutine] at alike ⊢
    exact agrees_fetchNamed alike
  | list items ih =>
    rw [exprRoutine] at alike ⊢
    refine .allValues (agrees_of_mem_exprRoutines fun item member => ?_) fun _ => .done
    refine ih item member (fun call called => ?_) (inside alike item member)
    exact repeats call (SlotExpr.mem_callsOfAll.2 ⟨item, member, called⟩)
  | call function args ih =>
    rw [exprRoutine] at alike ⊢
    refine .allValues (agrees_of_mem_exprRoutines fun arg member => ?_) fun values => ?_
    · refine ih arg member (fun call called => ?_) (inside alike arg member)
      refine repeats call (List.mem_cons_of_mem _ ?_)
      exact SlotExpr.mem_callsOfAll.2 ⟨arg, member, called⟩
    · exact agrees_callRoutine (repeats _ List.mem_cons_self) (alike.restOfValues values)

end Setting

end RuleGraph
