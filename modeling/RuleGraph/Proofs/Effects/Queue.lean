import RuleGraph.Proofs.Effects.Returning

/-! # The queue of actions

Whatever a host does with a queue of actions, and whatever the actions do, none is lost, and they
run one after the other.

* **`Draining.runs_in_order`** — actions run one after the other in the order in which they were
  queued, and none is lost.
* **`Draining.never_returns`** — a call that runs an action that queues itself again never returns.
-/

namespace RuleGraph

namespace Draining

open QueueEvent

section

variable {policy : CallbackPolicy} {history : List QueueEvent} {draining : Draining}

/-- **Actions run one after the other in the order in which they were queued, and none is lost.**
Whatever comes about, everything in its history fits what happened before and after it. What was
queued has started or is pending, in order. The actions that have succeeded are counted. Failures
are noted in order with the errors that are reported, and the earliest fatal one fails the event.
When a call returns, the queue is empty, unless an action has just failed under the policy to halt.
It returns if and only if finitely many actions are queued before that and every action that it runs
comes to its end. A call that the host leaves alone from the beginning is `Manipulator.mutate?`
under every bound that is large enough. -/
theorem runs_in_order (reached : Reaches policy history draining) :
    Lawful policy history ∧
    additions history = starts history ++ draining.manipulator.pending ∧
    (starts history).length = (ends history).length + draining.stage.current ∧
    draining.manipulator.completed = (ends history).countP Except.isOk ∧
    draining.manipulator.errors = errors policy history ∧
    (∀ fatal, draining.manipulator.firstFatal? = some fatal ↔
      ∃ (before : List RecordedError) (error : RecordedError) (after : List RecordedError),
        errors policy history = before ++ error :: after ∧
        error.isFatal = true ∧ (∀ earlier ∈ before, earlier.isFatal = false) ∧
        fatal = ⟨error.functionName, error.message⟩) ∧
    (∀ before result, history = before ++ [QueueEvent.returned result] →
      result = .ok () ∧ draining.manipulator.pending = [] ∨
        policy = .halt ∧ ∃ error, before.getLast? = some (.ended (.error error)) ∧
          result = .error ⟨none, error.message⟩) ∧
    (∀ happens course, Course happens course → course 0 = draining →
      ((∃ n, (course n).stage = .idle) ↔ IsFinite happens course)) ∧
    (draining.stage = .idle → ∀ context,
      (∀ steps result manipulator timeline,
        draining.manipulator.mutate? context steps draining.timeline =
          some (result, manipulator, timeline) →
        (∃ events : List QueueEvent,
          Reaches policy (history ++ [.called context] ++ events ++ [QueueEvent.returned result])
            ⟨manipulator, timeline, .idle⟩) ∧
        (policy = .proceed → result = .ok () ∧ manipulator.pending = []) ∧
        ∀ more, draining.manipulator.mutate? context (steps + more) draining.timeline =
          some (result, manipulator, timeline)) ∧
      ((∃ steps, (draining.manipulator.mutate? context steps draining.timeline).isSome = true) ↔
        IsFinite
          (undisturbedEvents ⟨draining.manipulator, draining.timeline, .between context⟩)
          (undisturbed ⟨draining.manipulator, draining.timeline, .between context⟩))) := by
  have tells := reached.tells
  refine ⟨tells.lawful, tells.additions_eq, tells.length_starts, tells.completed_eq,
    tells.errors_eq, fun fatal => ?_, ?_, fun _ _ goes _ => goes.returns_iff, fun idle context =>
      ⟨fun steps result manipulator' timeline' came => ?_, exists_isSome_mutate?_iff _ _ _⟩⟩
  · rw [Manipulator.firstFatal?, tells.errors_eq, Option.map_eq_some_iff]
    constructor
    · rintro ⟨error, found, rfl⟩
      obtain ⟨isFatal, before, after, whole, earlier⟩ := List.find?_eq_some_iff_append.1 found
      exact ⟨before, error, after, whole, isFatal, by simpa using earlier, rfl⟩
    · rintro ⟨before, error, after, whole, isFatal, earlier, rfl⟩
      refine ⟨error, List.find?_eq_some_iff_append.2 ⟨isFatal, before, after, whole, ?_⟩, rfl⟩
      simpa using earlier
  · rintro before result rfl
    exact reached.of_returned
  · obtain ⟨manipulator, timeline, stage⟩ := draining
    obtain rfl : stage = .idle := idle
    obtain ⟨events, returns⟩ := proceeds_of_mutate? came
    have returned := (reached.next (.call context)).proceeds returns
    rw [← List.append_assoc] at returned
    refine ⟨⟨events, returned⟩, fun goesOn => ?_, mutate?_add came⟩
    rcases returned.of_returned with emptied | ⟨halts, -⟩
    · exact emptied
    · cases goesOn.symm.trans halts

end

end Draining

/-! ## A failure and then another call -/

/-- An action that succeeds. -/
def Deferred.quiet (_ : Context) : Deferred :=
  .finish (.ok ())

/-- An action that suspends, queues another one and fails. -/
def Deferred.failing (_ : Context) : Deferred :=
  .pause (.queue .quiet (.finish (.error ⟨"boom"⟩)))

namespace Draining

open QueueEvent

/-- What happens if the first of two actions is suspended, another action is queued meanwhile, and
then the first one queues one more and fails, under the policy to halt. -/
def halted : List QueueEvent :=
  [.added .failing, .added .quiet, .called {}, .started .failing, .added .failing, .added .quiet,
    .ended (.error ⟨"boom"⟩), .returned (.error ⟨none, "boom"⟩)]

/-- What has come of it. -/
def afterHalt : Manipulator :=
  { policy := .halt, pending := [.quiet, .failing, .quiet], errors := [⟨"boom", none, true⟩] }

/-- It may come about. -/
theorem reaches_halted : Reaches .halt halted ⟨afterHalt, {}, .idle⟩ := by
  have new : Reaches .halt [] ⟨{ policy := .halt }, {}, .idle⟩ := .new {}
  have called := ((new.next (.add .failing)).next (.add .quiet)).next (.call {})
  have suspended := (called.next (.proceed rfl)).next (.proceed rfl)
  exact ((suspended.next (.add .failing)).next (.proceed rfl)).next (.proceed rfl)

/-- The next call runs what is left up to the next failure. -/
theorem mutate?_afterHalt : afterHalt.mutate? {} 5 {} =
    some (.error ⟨none, "boom"⟩,
      { policy := .halt, pending := [.quiet, .quiet], completed := 1,
        errors := [⟨"boom", none, true⟩, ⟨"boom", none, true⟩] }, {}) := rfl

/-- The failure is the error that fails the event. The next call, which returns since its course is
finite, runs what is left up to the next failure. -/
theorem runs_in_order_of_failures :
    Lawful .halt halted ∧ additions halted = starts halted ++ [Deferred.quiet, .failing, .quiet] ∧
    afterHalt.firstFatal? = some ⟨none, "boom"⟩ ∧
    IsFinite (undisturbedEvents ⟨afterHalt, {}, .between {}⟩)
      (undisturbed ⟨afterHalt, {}, .between {}⟩) ∧
    ∃ events, Reaches .halt
      (halted ++ [.called {}] ++ events ++ [.returned (.error ⟨none, "boom"⟩)])
      ⟨{ policy := .halt, pending := [.quiet, .quiet], completed := 1,
         errors := [⟨"boom", none, true⟩, ⟨"boom", none, true⟩] }, {}, .idle⟩ := by
  obtain ⟨lawful, whole, -, -, -, fatal, -, -, calls⟩ := runs_in_order reaches_halted
  obtain ⟨comes, returns⟩ := calls rfl {}
  have first : errors .halt halted = [] ++ ⟨"boom", none, true⟩ :: [] := rfl
  exact ⟨lawful, whole, (fatal _).2 ⟨[], _, [], first, rfl, by simp, rfl⟩,
    returns.1 ⟨5, by rw [mutate?_afterHalt]; rfl⟩, (comes _ _ _ _ mutate?_afterHalt).1⟩

end Draining

/-! ## A call that never returns -/

/-- Queue the action of a state again, and then end well. -/
def Deferred.requeue : Bool → DeferredStep Bool
  | false => .queue (fun _ => false) true
  | true => .finish (.ok ())

/-- An action that queues itself again and ends well. -/
def Deferred.again (_ : Context) : Deferred :=
  .ofMachine Deferred.requeue false

namespace Draining

open QueueEvent

/-- A call under the policy to go on, once the queue holds an action that queues itself again. -/
def fed : Draining :=
  ⟨{ pending := [.again] }, {}, .between {}⟩

/-- Where a call stands that is fed by an action: it is about to start, it is about to queue itself,
or it is about to end. -/
inductive IsFed : Draining → Prop where
  /-- It is about to start. -/
  | starts (completed) : IsFed ⟨{ pending := [.again], completed }, {}, .between {}⟩
  /-- It is about to queue itself. -/
  | queues (completed) : IsFed ⟨{ completed }, {}, .running {} (.again {})⟩
  /-- It is about to end. -/
  | ends (completed) :
    IsFed ⟨{ pending := [.again], completed }, {}, .running {} (.ofMachine Deferred.requeue true)⟩

/-- Such a call is never without a next step, and it is fed after that as well. -/
theorem IsFed.proceed {draining : Draining} (isFed : IsFed draining) :
    ∃ events draining', draining.proceed = some (events, draining') ∧ IsFed draining' := by
  cases isFed with
  | starts completed => exact ⟨_, _, rfl, .queues completed⟩
  | queues completed =>
    refine ⟨[.added .again], _, ?_, .ends completed⟩
    have again : Deferred.again = fun _ => .ofMachine Deferred.requeue false := rfl
    simp [Draining.proceed, again, Deferred.requeue, DeferredStep.map, Manipulator.queue]
  | ends completed =>
    refine ⟨[.ended (.ok ())], _, ?_, .starts (completed + 1)⟩
    simp [Draining.proceed, Deferred.requeue, DeferredStep.map, Manipulator.settle,
      Manipulator.complete]

/-- **A call that runs an action that queues itself again never returns**, although every action
that it runs succeeds and the policy is to go on: whatever steps it takes, it is underway. -/
theorem never_returns :
    Reaches .proceed [.added .again, .called {}] fed ∧
    (∀ events draining, fed.Proceeds events draining →
      draining.stage ≠ .idle ∧ draining.proceed.isSome = true ∧
        draining.manipulator.errors = []) ∧
    ∀ steps, fed.manipulator.mutate? {} steps {} = none := by
  have stays : ∀ {events draining draining'}, IsFed draining →
      draining.Proceeds events draining' → IsFed draining' := by
    intro events draining draining' isFed runs
    induction runs with
    | refl => exact isFed
    | head first _ ih =>
      obtain ⟨_, _, step, next⟩ := isFed.proceed
      rw [step] at first
      cases first
      exact ih next
  have underway : ∀ {draining}, IsFed draining → draining.stage ≠ .idle ∧
      draining.proceed.isSome = true ∧ draining.manipulator.errors = [] := by
    intro draining isFed
    obtain ⟨_, _, step, -⟩ := isFed.proceed
    refine ⟨?_, by rw [step]; rfl, ?_⟩ <;> cases isFed <;> simp
  refine ⟨((Reaches.new {}).next (.add .again)).next (.call {}), fun events draining runs =>
    underway (stays (.starts 0) runs), fun steps => ?_⟩
  cases came : fed.manipulator.mutate? {} steps {} with
  | none => rfl
  | some came =>
    obtain ⟨events, runs⟩ := proceeds_of_mutate? came
    exact absurd rfl (underway (stays (.starts 0) runs)).1

end Draining

end RuleGraph
