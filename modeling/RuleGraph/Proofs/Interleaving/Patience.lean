import RuleGraph.Proofs.Interleaving.Fate

/-! # Waiting for what is fetched

If every function waits for the slots that it fetches, nothing is ever dropped, whatever the host
requests and however the requests overlap.

* **`Executable.IsPatient`** — every function waits for what it fetches.
* **`Setting.isPatient_slotRoutine`** — then no routine of a slot runs anything for a limited time.
* **`Thread.Step.isPatient`** — a thread that runs nothing so drops nothing, and comes to run
  nothing so.
* **`Execution.Reaches.keepsFetches`** — nothing is dropped in any session.
-/

namespace RuleGraph

/-! ## Routines -/

namespace Routine

/-- A routine runs nothing for a limited time. -/
inductive IsPatient : Routine → Prop where
  /-- It ends. -/
  | done {outcome} : IsPatient (.done outcome)
  /-- It has an effect. -/
  | perform {effect next} (rest : IsPatient next) : IsPatient (.perform effect next)
  /-- It invokes a function. -/
  | invoke {function args next} (rest : ∀ ordinal, IsPatient (next ordinal)) :
    IsPatient (.invoke function args next)
  /-- It lets others go first. -/
  | pause {next} (rest : IsPatient next) : IsPatient (.pause next)
  /-- It sleeps. -/
  | sleep {milliseconds next} (rest : IsPatient next) : IsPatient (.sleep milliseconds next)
  /-- It fetches a slot. -/
  | fetch {index next} (rest : ∀ outcome, IsPatient (next outcome)) :
    IsPatient (.fetch index next)
  /-- It runs routines side by side that do not do so either. -/
  | join {breadth children next} (each : ∀ child ∈ children, IsPatient child)
    (rest : ∀ outcomes, IsPatient (next outcomes)) : IsPatient (.join breadth children next)

namespace IsPatient

variable {children : List Routine}

/-- Effects in order take no time. -/
theorem performAll {effects : List Effect} {next : Routine} (rest : next.IsPatient) :
    (Routine.performAll effects next).IsPatient := by
  induction effects with
  | nil => exact rest
  | cons effect others ih => exact .perform ih

/-- Going on with values only. -/
theorem allValues {next : List Value → Routine} (each : ∀ child ∈ children, child.IsPatient)
    (rest : ∀ values, (next values).IsPatient) : (Routine.allValues children next).IsPatient := by
  refine .join each fun outcomes => ?_
  split
  · exact rest _
  · exact .done

end IsPatient

end Routine

/-! ## Functions -/

/-- A function waits for every slot that it fetches. -/
def Entry.IsPatient (entry : Entry) : Prop :=
  match entry.kind with
  | .async body => ∀ invocation args, (body invocation args).IsPatient
  | .statement _ body => ∀ invocation args, (body invocation args).IsPatient
  | .sync _ | .custom _ | .transform _ => True

/-- Every function that is bound waits for what it fetches. -/
def Executable.IsPatient (executable : Executable) : Prop :=
  ∀ name entry, executable.function? name = some entry → entry.IsPatient

namespace Setting

variable {setting : Setting}

/-- Fetching by name. -/
theorem isPatient_fetchNamed {name : String} : (setting.fetchNamed name).IsPatient := by
  unfold fetchNamed
  split
  · exact .fetch fun _ => .done
  · exact .done

/-- Fetching several slots by name. -/
theorem isPatient_of_mem_fetchNamed {names : List String} :
    ∀ child ∈ names.map setting.fetchNamed, child.IsPatient := by
  intro child member
  obtain ⟨name, -, rfl⟩ := List.mem_map.1 member
  exact isPatient_fetchNamed

/-- Fetching ahead. -/
theorem isPatient_prefetch {names : List String} {next : Routine} (rest : next.IsPatient) :
    (setting.prefetch names next).IsPatient :=
  .allValues isPatient_of_mem_fetchNamed fun _ => rest

/-- The steps of a function that waits for what it fetches. -/
theorem isPatient_actionRoutine {α : Type} {next : Except FunctionError α → Routine}
    {action : Action α} (patient : action.IsPatient) (ended : ∀ result, (next result).IsPatient) :
    (setting.actionRoutine next action).IsPatient := by
  induction action with
  | finish result => exact ended result
  | pause rest ih => exact .pause (ih patient)
  | sleep milliseconds rest ih => exact .sleep (ih patient)
  | perform effect rest ih => exact .perform (ih patient)
  | fetch names rest ih =>
    exact .join isPatient_of_mem_fetchNamed fun outcomes => ih outcomes (patient outcomes)
  | fetchWithin => exact patient.elim

variable (patient : setting.executable.IsPatient)

include patient

/-- A call. -/
theorem isPatient_callRoutine {name : String} {args : List Value} :
    (setting.callRoutine name args).IsPatient := by
  unfold callRoutine
  split
  · exact .done
  · rename_i entry bound
    split
    · exact .done
    · split
      · exact .done
      · unfold invokeValue
        have own := patient name entry bound
        rw [Entry.IsPatient] at own
        split
        · exact .invoke fun ordinal => .performAll .done
        · rename_i body kind
          rw [kind] at own
          exact .invoke fun ordinal => isPatient_actionRoutine (own _ _) fun _ => .done
        -- Functions of any other kind are not called here.
        all_goals exact .done

/-- Evaluating an expression. -/
theorem isPatient_exprRoutine (body : SlotExpr) : (setting.exprRoutine body).IsPatient := by
  have inside : ∀ {bodies : List SlotExpr}, (∀ body ∈ bodies, (setting.exprRoutine body).IsPatient) →
      ∀ child ∈ setting.exprRoutines bodies, child.IsPatient := by
    intro bodies each child member
    rw [exprRoutines_eq_map] at member
    obtain ⟨body, listed, rfl⟩ := List.mem_map.1 member
    exact each body listed
  induction body with
  | const value =>
    rw [exprRoutine]
    exact .done
  | feature name =>
    rw [exprRoutine]
    exact isPatient_fetchNamed
  | list items ih =>
    rw [exprRoutine]
    exact .allValues (inside ih) fun _ => .done
  | call function args ih =>
    rw [exprRoutine]
    exact .allValues (inside ih) fun _ => isPatient_callRoutine patient

/-- Running a statement on its arguments. -/
theorem isPatient_invokeStatement {name : String} {args : List Value} :
    (setting.invokeStatement name args).IsPatient := by
  unfold invokeStatement
  split
  · exact .done
  · rename_i entry bound
    have own := patient name entry bound
    rw [Entry.IsPatient] at own
    split
    · rename_i feature body kind
      rw [kind] at own
      split
      · exact .perform .done
      · refine .performAll ?_
        split
        · exact .done
        · refine .invoke fun ordinal => isPatient_actionRoutine (own _ _) fun result => ?_
          split
          · exact .done
          · exact .perform .done
    · exact .done

/-- Running a statement whose condition holds. -/
theorem isPatient_statementCall {call : SlotExpr} : (setting.statementCall call).IsPatient := by
  cases call with
  | call function args =>
    rw [statementCall]
    refine isPatient_prefetch (.allValues ?_ fun _ => isPatient_invokeStatement patient)
    rw [exprRoutines_eq_map]
    intro child member
    obtain ⟨body, -, rfl⟩ := List.mem_map.1 member
    exact isPatient_exprRoutine patient body
  | const | feature | list => exact isPatient_exprRoutine patient _

/-- **No routine of a slot runs anything for a limited time**, if every function waits for what it
fetches. -/
theorem isPatient_slotRoutine (index : Nat) : (setting.slotRoutine index).IsPatient := by
  unfold slotRoutine
  split
  · exact .done
  · split
    · exact .done
    · exact isPatient_prefetch (isPatient_exprRoutine patient _)
    · unfold statementRoutine
      split
      · exact .done
      · split
        · exact isPatient_statementCall patient
        · refine isPatient_prefetch (.allValues ?_ fun _ => ?_)
          · simpa using isPatient_exprRoutine patient _
          · dsimp only
            split
            · exact isPatient_statementCall patient
            · exact .done
    · refine .join (fun child member => ?_) fun _ => .done
      obtain ⟨dep, -, rfl⟩ := List.mem_map.1 member
      exact .fetch fun _ => .done

end Setting

/-! ## Threads -/

namespace Thread

/-- A thread runs nothing for a limited time. -/
inductive IsPatient : Thread → Prop where
  /-- It is finished. -/
  | finished {outcome} : IsPatient (.finished outcome)
  /-- It is at rest. -/
  | resting {mark next} (rest : next.IsPatient) : IsPatient (.resting mark next)
  /-- It sleeps. -/
  | sleeping {mark wakeAt next} (rest : next.IsPatient) : IsPatient (.sleeping mark wakeAt next)
  /-- It waits for a slot. -/
  | waiting {mark index next} (rest : ∀ outcome, (next outcome).IsPatient) :
    IsPatient (.waiting mark index next)
  /-- It computes a slot. -/
  | computing {mark index body next} (inner : IsPatient body)
    (rest : ∀ outcome, (next outcome).IsPatient) : IsPatient (.computing mark index body next)
  /-- It runs threads side by side. -/
  | joining {breadth threads next} (each : ∀ thread ∈ threads, IsPatient thread)
    (rest : ∀ outcomes, (next outcomes).IsPatient) : IsPatient (.joining breadth threads next)

variable {setting : Setting} {thread thread' : Thread} {path : List Nat} {state state' : State}
  {trace : Trace}

/-- **A thread that runs nothing for a limited time drops nothing in a step**, and comes to run
nothing so. -/
theorem Step.isPatient (step : Step setting path thread state trace thread' state')
    (routines : ∀ index, (setting.slotRoutine index).IsPatient) (patient : thread.IsPatient) :
    thread'.IsPatient ∧ trace.KeepsFetches := by
  induction step with
  | finish => exact ⟨.finished, rfl⟩
  | perform =>
    cases patient with
    | resting whole =>
      cases whole with
      | perform rest => exact ⟨.resting rest, Trace.drops_occurrences⟩
  | invoke =>
    cases patient with
    | resting whole =>
      cases whole with
      | invoke rest => exact ⟨.resting (rest _), Trace.drops_occurrences⟩
  | pause =>
    cases patient with
    | resting whole =>
      cases whole with
      | pause rest => exact ⟨.resting rest, rfl⟩
  | sleep =>
    cases patient with
    | resting whole =>
      cases whole with
      | sleep rest => exact ⟨.sleeping rest, rfl⟩
  | wake =>
    cases patient with
    | sleeping rest => exact ⟨.resting rest, rfl⟩
  | reuse | refuse =>
    cases patient with
    | resting whole =>
      cases whole with
      | fetch rest => exact ⟨.resting (rest _), rfl⟩
  | await =>
    cases patient with
    | resting whole =>
      cases whole with
      | fetch rest => exact ⟨.waiting rest, rfl⟩
  | hear | giveUp | answer =>
    cases patient with
    | waiting rest => exact ⟨.resting (rest _), rfl⟩
  | compute =>
    cases patient with
    | waiting rest => exact ⟨.computing (.resting (routines _)) rest, rfl⟩
  | complete | expire =>
    cases patient with
    | computing _ rest => exact ⟨.resting (rest _), rfl⟩
  | inside _ ih =>
    cases patient with
    | computing inner rest =>
      obtain ⟨after, keeps⟩ := ih inner
      exact ⟨.computing after rest, keeps⟩
  | limit =>
    cases patient with
    | resting whole => cases whole
  | beneath | conclude | drop => cases patient
  | join =>
    cases patient with
    | resting whole =>
      cases whole with
      | join each rest =>
        refine ⟨.joining (fun thread member => ?_) rest, rfl⟩
        obtain ⟨child, listed, rfl⟩ := List.mem_map.1 member
        exact .resting (each child listed)
  | side _ ih =>
    cases patient with
    | joining each rest =>
      rw [List.forall_mem_append, List.forall_mem_cons] at each
      obtain ⟨front, own, back⟩ := each
      obtain ⟨after, keeps⟩ := ih own
      refine ⟨.joining ?_ rest, keeps⟩
      rw [List.forall_mem_append, List.forall_mem_cons]
      exact ⟨front, after, back⟩
  | gather =>
    cases patient with
    | joining _ rest => exact ⟨.resting (rest _), rfl⟩

end Thread

/-- **If every function waits for what it fetches, nothing is dropped in any session.** -/
theorem Execution.Reaches.keepsFetches {execution : Execution} {trace : Trace} {session : Session}
    (reaches : execution.Reaches trace session)
    (patient : execution.setting.executable.IsPatient) : trace.KeepsFetches := by
  suffices all : (∀ thread ∈ session.threads, thread.IsPatient) ∧ trace.KeepsFetches from all.2
  induction reaches with
  | start => exact ⟨by simp, rfl⟩
  | step before last ih =>
    obtain ⟨threads, keeps⟩ := ih
    rw [Trace.KeepsFetches] at keeps ⊢
    rw [Trace.drops_append, keeps, Nat.zero_add]
    cases last with
    | call name mark =>
      refine ⟨List.forall_mem_append.2 ⟨threads, ?_⟩, rfl⟩
      simpa using Thread.IsPatient.resting Setting.isPatient_fetchNamed
    | meanwhile => exact ⟨threads, rfl⟩
    | go step =>
      obtain ⟨step⟩ := step
      rw [List.forall_mem_append, List.forall_mem_cons] at threads ⊢
      obtain ⟨front, own, back⟩ := threads
      obtain ⟨after, now⟩ := step.isPatient (Setting.isPatient_slotRoutine patient) own
      exact ⟨⟨front, after, back⟩, now⟩

end RuleGraph
