import RuleGraph.Proofs.Effects.History

/-! # Draining a queue step by step

A host queues actions, reports errors and drains the queue, again and again; the actions that run
queue further ones. Here draining is taken step by step, so that all of this may happen while an
action is suspended.

* **`Draining`**, **`Draining.proceed`** — a manipulator and how far the call to drain it has come;
  the next step of the call.
* **`Draining.Happens`**, **`Draining.Reaches`** — what may happen next, and all that may come
  about, with a record of it.
* **`Draining.Adds`** — what events add to a manipulator.
* **`Draining.Reaches.tells`** — what the record tells of the manipulator.
-/

namespace RuleGraph

/-- How far a call to drain a queue has come. -/
inductive DrainStage where
  /-- There is no call. -/
  | idle
  /-- The next action is to start. -/
  | between (context : Context)
  /-- An action runs. -/
  | running (context : Context) (action : Deferred)

namespace DrainStage

/-- The number of calls that have not returned. -/
def calls : DrainStage → Nat
  | .idle => 0
  | _ => 1

/-- The number of actions that have started and not come to their ends. -/
def current : DrainStage → Nat
  | .running _ _ => 1
  | _ => 0

end DrainStage

/-- A manipulator, the time, and how far the call to drain the queue has come. -/
structure Draining where
  /-- The manipulator. -/
  manipulator : Manipulator
  /-- The time. -/
  timeline : Timeline := {}
  /-- How far the call has come. -/
  stage : DrainStage := .idle

namespace Draining

/-- The next step of a call: it starts the first action of the queue, or returns if there is none;
or the action that runs takes a step. -/
def proceed : Draining → Option (List QueueEvent × Draining)
  | ⟨_, _, .idle⟩ => none
  | ⟨manipulator, timeline, .between context⟩ =>
    match manipulator.pending with
    | [] => some ([.returned (.ok ())], ⟨manipulator, timeline, .idle⟩)
    | callback :: rest =>
      some ([.started callback],
        ⟨{ manipulator with pending := rest }, timeline, .running context (callback context)⟩)
  | ⟨manipulator, timeline, .running context action⟩ =>
    match action.step with
    | .finish result =>
      match manipulator.settle result with
      | (manipulator, none) =>
        some ([.ended result], ⟨manipulator, timeline, .between context⟩)
      | (manipulator, some error) =>
        some ([.ended result, .returned (.error error)], ⟨manipulator, timeline, .idle⟩)
    | .pause next => some ([], ⟨manipulator, timeline, .running context next⟩)
    | .sleep milliseconds next =>
      some ([], ⟨manipulator, timeline.advance milliseconds, .running context next⟩)
    | .emit event next => some ([], ⟨manipulator, timeline.add event, .running context next⟩)
    | .queue callback next =>
      some ([.added callback], ⟨manipulator.queue callback, timeline, .running context next⟩)

/-- Without a call there is no step. -/
theorem proceed_idle {draining : Draining} (idle : draining.stage = .idle) :
    draining.proceed = none := by
  obtain ⟨manipulator, timeline, stage⟩ := draining
  obtain rfl : stage = .idle := idle
  rfl

/-- Some steps of a call that nothing interferes with. -/
inductive Proceeds : Draining → List QueueEvent → Draining → Prop where
  /-- No step. -/
  | refl {draining} : Proceeds draining [] draining
  /-- One step and then others. -/
  | head {draining draining' draining'' events events'}
    (first : draining.proceed = some (events, draining'))
    (others : Proceeds draining' events' draining'') :
    Proceeds draining (events ++ events') draining''

/-- What may happen next. Whatever a call is at, the host queues actions and reports errors, and
other things happen that concern neither; but it makes a call only if there is none. -/
inductive Happens : Draining → List QueueEvent → Draining → Prop where
  /-- The host queues an action. -/
  | add {manipulator timeline stage} (callback) :
    Happens ⟨manipulator, timeline, stage⟩ [.added callback]
      ⟨manipulator.queue callback, timeline, stage⟩
  /-- The host reports an error. -/
  | report {manipulator timeline stage} (message props) :
    Happens ⟨manipulator, timeline, stage⟩ [.reported message props]
      ⟨manipulator.report message props, timeline, stage⟩
  /-- Time passes, and there may be further warnings and entities tracked. -/
  | pass {manipulator timeline stage} (timeline' warnings tracked) :
    Happens ⟨manipulator, timeline, stage⟩ []
      ⟨{ manipulator with warnings, tracked }, timeline', stage⟩
  /-- The host calls for the queue to be drained. -/
  | call {manipulator timeline} (context) :
    Happens ⟨manipulator, timeline, .idle⟩ [.called context]
      ⟨manipulator, timeline, .between context⟩
  /-- The call takes a step. -/
  | proceed {events draining draining'} (step : draining.proceed = some (events, draining')) :
    Happens draining events draining'

/-- All that may come about with a manipulator that is new, with a record of it. -/
inductive Reaches (policy : CallbackPolicy) : List QueueEvent → Draining → Prop where
  /-- The manipulator is new. -/
  | new (timeline) : Reaches policy [] ⟨{ policy }, timeline, .idle⟩
  /-- Something happens. -/
  | next {history events draining draining'} (before : Reaches policy history draining)
    (happens : draining.Happens events draining') : Reaches policy (history ++ events) draining'

/-! ## Calls that nothing interferes with -/

section

variable {draining draining' draining'' : Draining} {events events' : List QueueEvent}

/-- One step. -/
theorem Proceeds.single (step : draining.proceed = some (events, draining')) :
    draining.Proceeds events draining' := by
  simpa using Proceeds.head step .refl

/-- Steps and then others. -/
theorem Proceeds.trans (first : draining.Proceeds events draining')
    (others : draining'.Proceeds events' draining'') :
    draining.Proceeds (events ++ events') draining'' := by
  induction first with
  | refl => exact others
  | head step _ ih =>
    rw [List.append_assoc]
    exact .head step (ih others)

end

/-! ## Everything that comes about -/

open QueueEvent

/-- What events add to a manipulator. -/
structure Adds (draining : Draining) (events : List QueueEvent) (draining' : Draining) : Prop where
  /-- The policy stays. -/
  policy_eq : draining'.manipulator.policy = draining.manipulator.policy
  /-- Further actions go behind those that are pending, and the first of all start. -/
  pending_eq : draining.manipulator.pending ++ additions events =
    starts events ++ draining'.manipulator.pending
  /-- A call returns or is underway. -/
  calls_eq : draining.stage.calls + (calls events).length =
    (returns events).length + draining'.stage.calls
  /-- What has started comes to its end, or is running. -/
  current_eq : draining.stage.current + (starts events).length =
    (ends events).length + draining'.stage.current
  /-- The actions that succeed are counted. -/
  completed_eq : draining'.manipulator.completed =
    draining.manipulator.completed + (ends events).countP Except.isOk
  /-- Failures and errors that are reported are noted. -/
  errors_eq : draining'.manipulator.errors =
    draining.manipulator.errors ++ errors draining.manipulator.policy events

namespace Adds

variable {draining draining' draining'' : Draining} {events events' : List QueueEvent}

/-- Nothing happens. -/
theorem refl (draining : Draining) : draining.Adds [] draining :=
  ⟨rfl, List.append_nil _, Nat.add_comm _ _, Nat.add_comm _ _, rfl, (List.append_nil _).symm⟩

/-- Something happens, and then something else. -/
theorem trans (first : draining.Adds events draining')
    (second : draining'.Adds events' draining'') :
    draining.Adds (events ++ events') draining'' where
  policy_eq := second.policy_eq.trans first.policy_eq
  pending_eq := by
    have before := first.pending_eq
    have after := second.pending_eq
    simp only [additions, starts, List.filterMap_append] at before after ⊢
    rw [← List.append_assoc, before, List.append_assoc, after, List.append_assoc]
  calls_eq := by
    have before := first.calls_eq
    have after := second.calls_eq
    simp only [calls, returns, List.filterMap_append, List.length_append] at before after ⊢
    omega
  current_eq := by
    have before := first.current_eq
    have after := second.current_eq
    simp only [starts, ends, List.filterMap_append, List.length_append] at before after ⊢
    omega
  completed_eq := by
    rw [second.completed_eq, first.completed_eq, ends, ends, ends, List.filterMap_append,
      List.countP_append, Nat.add_assoc]
  errors_eq := by
    rw [second.errors_eq, first.errors_eq, first.policy_eq, errors, errors, errors,
      List.filterMap_append, List.append_assoc]

end Adds

/-- What a history tells of the manipulator that has come out of it. -/
structure Tells (policy : CallbackPolicy) (history : List QueueEvent) (draining : Draining) :
    Prop where
  /-- The policy is the same throughout. -/
  policy_eq : draining.manipulator.policy = policy
  /-- Everything fits what happened before and after it. -/
  lawful : Lawful policy history
  /-- What was queued has started or is pending, in order. -/
  additions_eq : additions history = starts history ++ draining.manipulator.pending
  /-- The calls have returned, except one that is underway. -/
  length_calls : (calls history).length = (returns history).length + draining.stage.calls
  /-- What has started has come to its end, or is running. -/
  length_starts : (starts history).length = (ends history).length + draining.stage.current
  /-- The actions that succeeded are counted. -/
  completed_eq : draining.manipulator.completed = (ends history).countP Except.isOk
  /-- Failures and errors that are reported are noted in order. -/
  errors_eq : draining.manipulator.errors = errors policy history

section

variable {policy : CallbackPolicy} {history events : List QueueEvent}
  {draining draining' : Draining} {manipulator : Manipulator} {timeline : Timeline}
  {stage : DrainStage}

/-- **What a step of a call adds.** -/
theorem adds_proceed (step : draining.proceed = some (events, draining')) :
    draining.Adds events draining' := by
  obtain ⟨manipulator, timeline, stage⟩ := draining
  have still (noted : List RecordedError) : noted = noted ++ [] := (List.append_nil _).symm
  cases stage with
  | idle => cases step
  | between context =>
    cases queued : manipulator.pending with
    | nil =>
      rw [proceed, queued] at step
      cases step
      exact ⟨rfl, List.append_nil _, rfl, rfl, rfl, still _⟩
    | cons callback rest =>
      rw [proceed, queued] at step
      cases step
      exact ⟨rfl, by rw [queued]; exact List.append_nil _, rfl, rfl, rfl, still _⟩
  | running context action =>
    rw [proceed] at step
    cases taken : action.step with
    | finish result =>
      cases result with
      | ok =>
        rw [taken] at step
        cases step
        exact ⟨rfl, List.append_nil _, rfl, rfl, rfl, still _⟩
      | error error =>
        rw [taken] at step
        dsimp only [Manipulator.settle] at step
        cases policy : manipulator.policy with
        | proceed | halt =>
          rw [policy] at step
          cases step
          exact ⟨rfl, List.append_nil _, rfl, rfl, rfl, by rw [policy]; rfl⟩
    | pause | sleep | emit =>
      rw [taken] at step
      cases step
      exact ⟨rfl, List.append_nil _, rfl, rfl, rfl, still _⟩
    | queue callback next =>
      rw [taken] at step
      cases step
      exact ⟨rfl, rfl, rfl, rfl, rfl, still _⟩

/-- **What anything that happens adds.** -/
theorem Happens.adds (happens : draining.Happens events draining') :
    draining.Adds events draining' := by
  have still (noted : List RecordedError) : noted = noted ++ [] := (List.append_nil _).symm
  cases happens with
  | add callback => exact ⟨rfl, rfl, Nat.add_comm _ _, Nat.add_comm _ _, rfl, still _⟩
  | report message props =>
    exact ⟨rfl, List.append_nil _, Nat.add_comm _ _, Nat.add_comm _ _, rfl, rfl⟩
  | pass timeline' warnings tracked =>
    exact ⟨rfl, List.append_nil _, Nat.add_comm _ _, Nat.add_comm _ _, rfl, still _⟩
  | call context => exact ⟨rfl, List.append_nil _, rfl, rfl, rfl, still _⟩
  | proceed step => exact adds_proceed step

/-- Only the first action of the queue starts, and only if none is running. -/
theorem Tells.lawful_proceed (tells : Tells policy history draining)
    (step : draining.proceed = some (events, draining')) : Lawful policy (history ++ events) := by
  obtain ⟨manipulator, timeline, stage⟩ := draining
  obtain ⟨rfl, lawful, additions_eq, length_calls, length_starts, -, -⟩ := tells
  cases stage with
  | idle => cases step
  | between context =>
    cases queued : manipulator.pending with
    | nil =>
      rw [proceed, queued] at step
      cases step
      rw [queued, List.append_nil] at additions_eq
      exact lawful.concat ⟨length_calls, length_starts, additions_eq.symm⟩
    | cons callback rest =>
      rw [proceed, queued] at step
      cases step
      rw [queued] at additions_eq
      have next : starts history ++ [callback] <+: additions history :=
        ⟨rest, by rw [additions_eq, List.append_assoc, List.singleton_append]⟩
      exact lawful.concat ⟨length_calls, length_starts, next⟩
  | running context action =>
    rw [proceed] at step
    cases taken : action.step with
    | finish result =>
      rw [taken] at step
      cases result with
      | ok =>
        cases step
        exact lawful.concat ⟨length_calls, length_starts, fun _ failed => by cases failed⟩
      | error error =>
        dsimp only [Manipulator.settle] at step
        cases policy : manipulator.policy with
        | proceed =>
          rw [policy] at step lawful
          cases step
          exact lawful.concat ⟨length_calls, length_starts, fun _ _ halts => by cases halts⟩
        | halt =>
          rw [policy] at step lawful
          cases step
          exact lawful.halt length_calls length_starts
    | pause | sleep | emit =>
      rw [taken] at step
      cases step
      rwa [List.append_nil]
    | queue callback next =>
      rw [taken] at step
      cases step
      exact lawful.concat trivial

/-- What happens fits what happened before. -/
theorem Tells.lawful_happens (tells : Tells policy history draining)
    (happens : draining.Happens events draining') : Lawful policy (history ++ events) := by
  cases happens with
  | add | report => exact tells.lawful.concat trivial
  | pass =>
    rw [List.append_nil]
    exact tells.lawful
  | call context => exact tells.lawful.concat tells.length_calls
  | proceed step => exact tells.lawful_proceed step

/-- What a history tells after further events. -/
theorem Tells.extend (tells : Tells policy history draining)
    (adds : draining.Adds events draining') (lawful : Lawful policy (history ++ events)) :
    Tells policy (history ++ events) draining' where
  policy_eq := adds.policy_eq.trans tells.policy_eq
  lawful := lawful
  additions_eq := by
    have before := tells.additions_eq
    have after := adds.pending_eq
    simp only [additions, starts, List.filterMap_append] at before after ⊢
    rw [before, List.append_assoc, after, List.append_assoc]
  length_calls := by
    have before := tells.length_calls
    have after := adds.calls_eq
    simp only [calls, returns, List.filterMap_append, List.length_append] at before after ⊢
    omega
  length_starts := by
    have before := tells.length_starts
    have after := adds.current_eq
    simp only [starts, ends, List.filterMap_append, List.length_append] at before after ⊢
    omega
  completed_eq := by
    rw [adds.completed_eq, tells.completed_eq, ends, ends, ends, List.filterMap_append,
      List.countP_append]
  errors_eq := by
    rw [adds.errors_eq, tells.errors_eq, tells.policy_eq, errors, errors, errors,
      List.filterMap_append]

/-- **What a history tells of the manipulator that has come out of it.** -/
theorem Reaches.tells (reached : Reaches policy history draining) :
    Tells policy history draining := by
  induction reached with
  | new timeline => exact ⟨rfl, fun _ _ _ whole => by simp at whole, rfl, rfl, rfl, rfl, rfl⟩
  | next _ happens ih => exact ih.extend happens.adds (ih.lawful_happens happens)

/-- What steps of a call come to may come about. -/
theorem Reaches.proceeds (reached : Reaches policy history draining)
    (runs : draining.Proceeds events draining') : Reaches policy (history ++ events) draining' := by
  induction runs generalizing history with
  | refl => rwa [List.append_nil]
  | head first _ ih =>
    rw [← List.append_assoc]
    exact ih (reached.next (.proceed first))

/-- What holds when a call returns: the queue is empty, or an action has just failed under the
policy to halt. -/
theorem Reaches.of_returned {result : Except FatalError Unit}
    (reached : Reaches policy (history ++ [.returned result]) draining) :
    result = .ok () ∧ draining.manipulator.pending = [] ∨
      policy = .halt ∧ ∃ error, history.getLast? = some (.ended (.error error)) ∧
        result = .error ⟨none, error.message⟩ := by
  have tells := reached.tells
  have fits := tells.lawful history (.returned result) [] rfl
  cases result with
  | error fatal =>
    obtain ⟨-, halts, error, last, rfl⟩ := fits
    exact .inr ⟨halts, error, last, rfl⟩
  | ok =>
    refine .inl ⟨rfl, ?_⟩
    have whole := tells.additions_eq
    have all := fits.2.2
    simp only [additions, starts, List.filterMap_append, List.filterMap_cons, added?, started?,
      List.filterMap_nil, List.append_nil] at whole all
    rw [all] at whole
    exact List.self_eq_append_right.1 whole

end

end Draining

end RuleGraph
