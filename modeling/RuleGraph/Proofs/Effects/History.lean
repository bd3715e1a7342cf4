import RuleGraph.Manipulator

/-! # Histories of a queue

What happens to a queue of actions over time: actions are queued and run, errors are reported, and
the queue is drained again and again.

* **`QueueEvent`** — something that happens.
* **`QueueEvent.additions`**, **`QueueEvent.starts`**, **`QueueEvent.ends`**,
  **`QueueEvent.errors`** — what can be read off a history.
* **`QueueEvent.Lawful`** — everything fits what happened before and after it.
-/

namespace RuleGraph

/-- Something that happens to a queue of actions. -/
inductive QueueEvent where
  /-- An action is queued. -/
  | added (callback : Callback)
  /-- The queue is to be drained. -/
  | called (context : Context)
  /-- An action starts. -/
  | started (callback : Callback)
  /-- The action that started last comes to its end. -/
  | ended (result : Except FunctionError Unit)
  /-- An error is reported. -/
  | reported (message : String) (props : ErrorProps)
  /-- Draining comes to its end. -/
  | returned (result : Except FatalError Unit)

namespace QueueEvent

/-- The action that is queued. -/
def added? : QueueEvent → Option Callback
  | .added callback => some callback
  | _ => none

/-- The context of a call. -/
def called? : QueueEvent → Option Context
  | .called context => some context
  | _ => none

/-- The action that starts. -/
def started? : QueueEvent → Option Callback
  | .started callback => some callback
  | _ => none

/-- What an action has come to. -/
def ended? : QueueEvent → Option (Except FunctionError Unit)
  | .ended result => some result
  | _ => none

/-- What a call has come to. -/
def returned? : QueueEvent → Option (Except FatalError Unit)
  | .returned result => some result
  | _ => none

/-- The error that is noted: a failure of an action is fatal under the policy to halt, an error that
is reported if it says so. -/
def error? (policy : CallbackPolicy) : QueueEvent → Option RecordedError
  | .ended (.error error) => some ⟨error.message, none, policy = .halt⟩
  | .reported message props => some ⟨message, props.functionName, props.isFatal⟩
  | _ => none

/-- The actions that were queued, in order. -/
def additions (history : List QueueEvent) : List Callback :=
  history.filterMap added?

/-- The contexts of the calls, in order. -/
def calls (history : List QueueEvent) : List Context :=
  history.filterMap called?

/-- The actions that started, in order. -/
def starts (history : List QueueEvent) : List Callback :=
  history.filterMap started?

/-- What the actions that came to their end have come to, in order. -/
def ends (history : List QueueEvent) : List (Except FunctionError Unit) :=
  history.filterMap ended?

/-- What the calls that returned have come to, in order. -/
def returns (history : List QueueEvent) : List (Except FatalError Unit) :=
  history.filterMap returned?

/-- The errors that are noted, in order. -/
def errors (policy : CallbackPolicy) (history : List QueueEvent) : List RecordedError :=
  history.filterMap (error? policy)

/-- Whether a call has not returned yet. -/
def IsUnderway (history : List QueueEvent) : Prop :=
  (calls history).length = (returns history).length + 1

/-- What holds when something happens, of what happened before and after it. There is one call at a
time, and actions run only then. An action starts when all that started before have come to their
ends, and it is the one that was queued first of those that have not started. A call returns well
when all that was queued has started. It fails only under the policy to halt, as soon as an action
fails and with the text of that failure. -/
def Fits (policy : CallbackPolicy) (before after : List QueueEvent) : QueueEvent → Prop
  | .added _ | .reported _ _ => True
  | .called _ => (calls before).length = (returns before).length
  | .started callback =>
    IsUnderway before ∧ (starts before).length = (ends before).length ∧
      starts before ++ [callback] <+: additions before
  | .ended result =>
    IsUnderway before ∧ (starts before).length = (ends before).length + 1 ∧
      ∀ error, result = .error error → policy = .halt →
        after.head? = some (.returned (.error ⟨none, error.message⟩))
  | .returned (.ok _) =>
    IsUnderway before ∧ (starts before).length = (ends before).length ∧
      starts before = additions before
  | .returned (.error fatal) =>
    IsUnderway before ∧ policy = .halt ∧
      ∃ error, before.getLast? = some (.ended (.error error)) ∧ fatal = ⟨none, error.message⟩

/-- Whether everything in a history fits what happened before and after it. -/
def Lawful (policy : CallbackPolicy) (history : List QueueEvent) : Prop :=
  ∀ before event after, history = before ++ event :: after → event.Fits policy before after

variable {policy : CallbackPolicy} {history before after : List QueueEvent} {event : QueueEvent}

/-- What happens later changes nothing. -/
theorem Fits.append (fits : event.Fits policy before after) (later : List QueueEvent) :
    event.Fits policy before (after ++ later) := by
  cases event with
  | added | called | reported | started => exact fits
  | ended result =>
    obtain ⟨underway, running, stops⟩ := fits
    refine ⟨underway, running, fun error failed halts => ?_⟩
    rw [List.head?_append, stops error failed halts, Option.some_or]
  | returned result => cases result <;> exact fits

/-- More happens. -/
theorem Lawful.extend {events : List QueueEvent} (lawful : Lawful policy history)
    (fits : ∀ before event after, events = before ++ event :: after →
      event.Fits policy (history ++ before) after) :
    Lawful policy (history ++ events) := by
  intro before event after whole
  rcases List.append_eq_append_iff.1 whole with ⟨between, rfl, rest⟩ | ⟨between, rfl, rest⟩
  · exact fits between event after rest
  · cases between with
    | nil => simpa using fits [] event after rest.symm
    | cons first between =>
      obtain ⟨rfl, rfl⟩ := List.cons.inj rest
      exact (lawful before event between rfl).append events

/-- One thing more happens. -/
theorem Lawful.concat (lawful : Lawful policy history) (fits : event.Fits policy history []) :
    Lawful policy (history ++ [event]) := by
  refine lawful.extend fun before event' after whole => ?_
  cases before with
  | nil =>
    cases whole
    simpa using fits
  | cons first before => simp at whole

/-- An action fails under the policy to halt. -/
theorem Lawful.halt {error : FunctionError} (lawful : Lawful .halt history)
    (underway : IsUnderway history)
    (running : (starts history).length = (ends history).length + 1) :
    Lawful .halt (history ++
      [.ended (.error error), .returned (.error ⟨none, error.message⟩)]) := by
  refine lawful.extend fun before event after whole => ?_
  cases before with
  | nil =>
    cases whole
    rw [List.append_nil]
    refine ⟨underway, running, fun error' same _ => ?_⟩
    cases same
    rfl
  | cons first before =>
    obtain ⟨rfl, rest⟩ := List.cons.inj whole
    cases before with
    | nil =>
      cases rest
      have still : IsUnderway (history ++ [.ended (.error error)]) := by
        simpa [IsUnderway, calls, returns, List.filterMap_cons, called?, returned?] using underway
      exact ⟨still, rfl, error, by simp, rfl⟩
    | cons => simp at rest

end QueueEvent

end RuleGraph
