import RuleGraph.Execution
import RuleGraph.Proofs.Routine.Does

/-! # Interleavings

The schedule of `Thread.gather` is one of many. Here a thread takes one step at a time, threads side
by side take their steps in any order, and anything that is no computation may happen in between,
the passing of time included. What holds after all such steps holds under every schedule.

* **`Thread.Step`** — one step of a thread of the last slot of a path.
* **`Thread.SideStep`** — one step of one of several threads.
* **`State.Meanwhile`**, **`State.Elapses`** — what happens besides computations, and what of it
  happens while nobody else does anything.
* **`Runs`**, **`RunsAlone`**, **`Advances`** — any number of steps, with anything in between, by
  themselves, and at least one.
* **`Trace`** — which computations began, and what they did.
-/

namespace RuleGraph

/-- Something that happens to computations. -/
inductive Occurrence where
  /-- The computation of a slot begins. -/
  | begun (slot : Nat)
  /-- The computation of a slot does something. -/
  | did (slot : Nat) (deed : Deed)
  /-- What a function has fetched for some time is dropped. -/
  | dropped

/-- What happened to computations, in order. -/
abbrev Trace := List Occurrence

/-- What happens when the last slot of a path does something. Requests of the host, with the empty
path, do nothing themselves. -/
def Deed.occurrences (deed : Deed) (path : List Nat) : Trace :=
  path.getLast?.toList.map fun slot => .did slot deed

namespace State

/-- The errors reported so far. -/
def reported (state : State) : List RecordedError :=
  (state.manipulator.map Manipulator.errors).getD []

/-- What may happen besides computations: the clock moves on, the host logs and drains the queue of
deferred actions, marks are taken. Nothing of it touches a cell or a wait, and no report is taken
back. -/
structure Meanwhile (before after : State) : Prop where
  /-- Cells stay as they are. -/
  cells : after.cells = before.cells
  /-- Waits stay as they are. -/
  waits : after.waits = before.waits
  /-- No slot is found to be late. -/
  hasTimedOut : after.hasTimedOut = before.hasTimedOut
  /-- No function is invoked. -/
  invocations : after.invocations = before.invocations
  /-- A manipulator neither comes nor goes. -/
  manipulator : after.manipulator.isSome = before.manipulator.isSome
  /-- The clock does not go back. -/
  now : before.now ≤ after.now
  /-- Reports stay. -/
  reported : before.reported <+: after.reported

/-- Nothing at all may happen. -/
theorem Meanwhile.refl (state : State) : state.Meanwhile state :=
  ⟨rfl, rfl, rfl, rfl, rfl, Nat.le_refl _, List.prefix_rfl⟩

/-- What happens besides computations while the host does nothing: the clock moves on and marks are
taken. -/
structure Elapses (before after : State) : Prop where
  /-- Cells stay as they are. -/
  cells : after.cells = before.cells
  /-- Waits stay as they are. -/
  waits : after.waits = before.waits
  /-- No slot is found to be late. -/
  hasTimedOut : after.hasTimedOut = before.hasTimedOut
  /-- No function is invoked. -/
  invocations : after.invocations = before.invocations
  /-- The manipulator stays as it is. -/
  manipulator : after.manipulator = before.manipulator
  /-- The clock does not go back. -/
  now : before.now ≤ after.now

/-- It is among what may happen at all. -/
theorem Elapses.meanwhile {before after : State} (elapses : before.Elapses after) :
    before.Meanwhile after := by
  obtain ⟨cells, waits, hasTimedOut, invocations, manipulator, now⟩ := elapses
  have same : after.reported = before.reported := by rw [reported, reported, manipulator]
  exact ⟨cells, waits, hasTimedOut, invocations, congrArg Option.isSome manipulator, now,
    same ▸ List.prefix_rfl⟩

/-- No time at all may pass. -/
theorem Elapses.refl (state : State) : state.Elapses state :=
  ⟨rfl, rfl, rfl, rfl, rfl, Nat.le_refl _⟩

/-- More time may pass. -/
theorem Elapses.trans {state state' state'' : State} (first : state.Elapses state')
    (second : state'.Elapses state'') : state.Elapses state'' :=
  ⟨second.cells.trans first.cells, second.waits.trans first.waits,
    second.hasTimedOut.trans first.hasTimedOut, second.invocations.trans first.invocations,
    second.manipulator.trans first.manipulator, first.now.trans second.now⟩

/-- A mark may be taken. -/
theorem elapses_tick (state : State) : state.Elapses state.tick :=
  ⟨rfl, rfl, rfl, rfl, rfl, Nat.le_refl _⟩

/-- The clock may move. -/
theorem elapses_moveClock (state : State) (time : Nat) : state.Elapses (state.moveClock time) :=
  ⟨rfl, rfl, rfl, rfl, rfl, Nat.le_add_right _ _⟩

/-- The clock may move whatever else happens. -/
theorem meanwhile_moveClock (state : State) (time : Nat) :
    state.Meanwhile (state.moveClock time) :=
  (state.elapses_moveClock time).meanwhile

end State

namespace Thread

/-- One step of a thread of the last slot of a path: the thread and the state before, what happens,
and the thread and the state after. A thread at rest is about to go on with its routine. Marks are
of no account here, so new ones are arbitrary. -/
inductive Step (setting : Setting) : List Nat → Thread → State → Trace → Thread → State → Prop where
  /-- The routine ends. -/
  | finish {path mark outcome state} :
    Step setting path (.resting mark (.done outcome)) state [] (.finished outcome) state
  /-- The routine has an effect. -/
  | perform {path mark mark' effect next state} :
    Step setting path (.resting mark (.perform effect next)) state
      ((Deed.perform effect).occurrences path) (.resting mark' next) (state.perform setting effect)
  /-- The routine invokes a function. -/
  | invoke {path mark mark' function args next state} :
    Step setting path (.resting mark (.invoke function args next)) state
      ((Deed.invoke function args).occurrences path)
      (.resting mark' (next ((state.invoke function args).invocationCount function)))
      (state.invoke function args)
  /-- The routine lets others go first. -/
  | pause {path mark mark' next state} :
    Step setting path (.resting mark (.pause next)) state [] (.resting mark' next) state
  /-- The routine falls asleep. -/
  | sleep {path mark mark' milliseconds next state} :
    Step setting path (.resting mark (.sleep milliseconds next)) state []
      (.sleeping mark' (state.now + milliseconds) next) state
  /-- Sleep is over. -/
  | wake {path mark mark' wakeAt next state} (late : wakeAt ≤ state.now) :
    Step setting path (.sleeping mark wakeAt next) state [] (.resting mark' next) state
  /-- A request is answered by the outcome that was kept. -/
  | reuse {path mark mark' index next outcome state}
    (known : state.outcome? index = some outcome) :
    Step setting path (.resting mark (.fetch index next)) state []
      (.resting mark' (next outcome)) state
  /-- A request that would close a cycle is refused. -/
  | refuse {path mark mark' index next outcome state}
    (unknown : state.outcome? index = none)
    (cycle : state.cycleOf? setting path index = some outcome) :
    Step setting path (.resting mark (.fetch index next)) state []
      (.resting mark' (next outcome)) state
  /-- Any other request leaves a wait. -/
  | await {path mark mark' index next state}
    (unknown : state.outcome? index = none)
    (free : state.cycleOf? setting path index = none) :
    Step setting path (.resting mark (.fetch index next)) state []
      (.waiting mark' index next) (state.addWait path index)
  /-- The slot waited for is done. -/
  | hear {path mark mark' index next outcome since state}
    (settled : state.cell index = .settled outcome since) :
    Step setting path (.waiting mark index next) state []
      (.resting mark' (next outcome)) (state.removeWait path index)
  /-- Nobody computes the slot waited for, and it is too late to begin. -/
  | giveUp {path mark mark' index next since state}
    (idle : state.cell index = .idle since) (late : state.isOverdue setting index = true) :
    Step setting path (.waiting mark index next) state []
      (.resting mark' (next (.error (setting.timeoutError index))))
      ((state.timeOut setting index).2.answer path index (.error (setting.timeoutError index)))
  /-- Nobody computes the slot waited for, and its outcome is at hand, as an input's always is. -/
  | answer {path mark mark' index next since outcome state}
    (idle : state.cell index = .idle since) (early : state.isOverdue setting index = false)
    (plain : setting.slotRoutine index = .done outcome) :
    Step setting path (.waiting mark index next) state [.begun index]
      (.resting mark' (next outcome)) ((state.begin index).answer path index outcome)
  /-- Nobody computes the slot waited for, so this thread does. -/
  | compute {path mark mark' mark'' index next since state}
    (idle : state.cell index = .idle since) (early : state.isOverdue setting index = false)
    (long : ∀ outcome, setting.slotRoutine index ≠ .done outcome) :
    Step setting path (.waiting mark index next) state [.begun index]
      (.computing mark' index (.resting mark'' (setting.slotRoutine index)) next)
      (state.begin index)
  /-- The slot computed by the thread is done. -/
  | complete {path mark mark' index next outcome state} :
    Step setting path (.computing mark index (.finished outcome) next) state []
      (.resting mark' (next outcome)) (state.answer path index outcome)
  /-- The slot computed by the thread is late, and given up wherever it stands. -/
  | expire {path mark mark' index body next state} (late : state.isOverdue setting index = true) :
    Step setting path (.computing mark index body next) state []
      (.resting mark' (next (.error (setting.timeoutError index))))
      (((cancel (path ++ [index]) body state).timeOut setting index).2.answer path index
        (.error (setting.timeoutError index)))
  /-- The slot computed by the thread comes a step further. -/
  | inside {path mark index body body' next state state' trace}
    (step : Step setting (path ++ [index]) body state trace body' state') :
    Step setting path (.computing mark index body next) state trace
      (.computing mark index body' next) state'
  /-- The routine runs another one for some time. -/
  | limit {path mark mark' mark'' milliseconds child next state} :
    Step setting path (.resting mark (.within milliseconds child next)) state []
      (.limited mark' (state.now + milliseconds) (.resting mark'' child) next) state
  /-- What is run for some time comes a step further. -/
  | beneath {path mark endsAt body body' next state state' trace}
    (step : Step setting path body state trace body' state') :
    Step setting path (.limited mark endsAt body next) state trace
      (.limited mark endsAt body' next) state'
  /-- What is run for some time is done. -/
  | conclude {path mark mark' endsAt outcome next state} :
    Step setting path (.limited mark endsAt (.finished outcome) next) state []
      (.resting mark' (next (some outcome))) state
  /-- What is run for some time is dropped wherever it stands when that time is over. -/
  | drop {path mark mark' endsAt body next state} (late : endsAt ≤ state.now) :
    Step setting path (.limited mark endsAt body next) state [.dropped]
      (.resting mark' (next none)) (cancel path body state)
  /-- The routine spreads out. -/
  | join {path mark mark' breadth children next state} :
    Step setting path (.resting mark (.join breadth children next)) state []
      (.joining breadth (children.map (.resting mark')) next) state
  /-- One of the threads side by side comes a step further. -/
  | side {path breadth before thread thread' after next state state' trace}
    (step : Step setting path thread state trace thread' state') :
    Step setting path (.joining breadth (before ++ thread :: after) next) state trace
      (.joining breadth (before ++ thread' :: after) next) state'
  /-- All threads side by side are finished. -/
  | gather {path mark breadth threads outcomes next state}
    (finished : outcomes? threads = some outcomes) :
    Step setting path (.joining breadth threads next) state []
      (.resting mark (next outcomes)) state

/-- One step of one of several threads of the last slot of a path. -/
inductive SideStep (setting : Setting) (path : List Nat) :
    List Thread → State → Trace → List Thread → State → Prop where
  /-- The thread may stand anywhere. -/
  | mk {before thread thread' after state state' trace}
    (step : Step setting path thread state trace thread' state') :
    SideStep setting path (before ++ thread :: after) state trace
      (before ++ thread' :: after) state'

/-- A step may be taken behind further threads. -/
theorem SideStep.cons {setting : Setting} {path : List Nat} {thread : Thread}
    {threads threads' : List Thread} {state state' : State} {trace : Trace}
    (step : SideStep setting path threads state trace threads' state') :
    SideStep setting path (thread :: threads) state trace (thread :: threads') state' := by
  obtain @⟨before, _, _, _, _, _, _, step⟩ := step
  rw [← List.cons_append, ← List.cons_append]
  exact .mk step

end Thread

/-! ## Many steps -/

/-- Any number of steps, with things of some other kind in between. -/
inductive RunsAmid {α : Type} (other : State → State → Prop)
    (step : α → State → Trace → α → State → Prop) : α → State → Trace → α → State → Prop where
  /-- No step. -/
  | refl (a state) : RunsAmid other step a state [] a state
  /-- A step, and more. -/
  | step {a b c state state' state'' trace trace'} (first : step a state trace b state')
    (rest : RunsAmid other step b state' trace' c state'') :
    RunsAmid other step a state (trace ++ trace') c state''
  /-- Something else, and more. -/
  | meanwhile {a b state state' state'' trace} (first : other state state')
    (rest : RunsAmid other step a state' trace b state'') :
    RunsAmid other step a state trace b state''

/-- Any number of steps, with anything that is no computation in between. -/
abbrev Runs {α : Type} (step : α → State → Trace → α → State → Prop) :
    α → State → Trace → α → State → Prop :=
  RunsAmid State.Meanwhile step

/-- Any number of steps, while nobody else does anything. -/
abbrev RunsAlone {α : Type} (step : α → State → Trace → α → State → Prop) :
    α → State → Trace → α → State → Prop :=
  RunsAmid State.Elapses step

/-- A step and any number of further ones, while nobody else does anything. -/
inductive Advances {α : Type} (step : α → State → Trace → α → State → Prop) :
    α → State → Trace → α → State → Prop where
  /-- The first step and the others. -/
  | mk {a b c state state' state'' trace trace'} (first : step a state trace b state')
    (rest : RunsAlone step b state' trace' c state'') :
    Advances step a state (trace ++ trace') c state''

section

variable {α β : Type} {other other' : State → State → Prop}
  {step : α → State → Trace → α → State → Prop} {step' : β → State → Trace → β → State → Prop}
  {a b c : α} {state state' state'' : State}
  {trace trace' : Trace}

/-- Runs follow on each other. -/
theorem RunsAmid.trans (first : RunsAmid other step a state trace b state')
    (second : RunsAmid other step b state' trace' c state'') :
    RunsAmid other step a state (trace ++ trace') c state'' := by
  induction first with
  | refl => exact second
  | step h _ ih =>
    rw [List.append_assoc]
    exact .step h (ih second)
  | meanwhile h _ ih => exact .meanwhile h (ih second)

/-- What is seen as a step of something else makes its runs. -/
theorem RunsAmid.map (view : α → β)
    (lift : ∀ {a b state state' trace}, step a state trace b state' →
      step' (view a) state trace (view b) state')
    (runs : RunsAmid other step a state trace b state') :
    RunsAmid other step' (view a) state trace (view b) state' := by
  induction runs with
  | refl => exact .refl _ _
  | step h _ ih => exact .step (lift h) ih
  | meanwhile h _ ih => exact .meanwhile h ih

/-- More may happen in between. -/
theorem RunsAmid.mono (more : ∀ state state', other state state' → other' state state')
    (runs : RunsAmid other step a state trace b state') :
    RunsAmid other' step a state trace b state' := by
  induction runs with
  | refl => exact .refl _ _
  | step h _ ih => exact .step h ih
  | meanwhile h _ ih => exact .meanwhile (more _ _ h) ih

/-- To run alone is to run. -/
theorem RunsAmid.runs (runs : RunsAlone step a state trace b state') :
    Runs step a state trace b state' :=
  runs.mono fun _ _ => State.Elapses.meanwhile

/-- Before the first step of a run nothing happens but that time passes. -/
theorem RunsAlone.first (runs : RunsAlone step a state trace b state') :
    (b = a ∧ state.Elapses state') ∨
      ∃ between c state'' trace' trace'', state.Elapses between ∧ trace = trace' ++ trace'' ∧
        step a between trace' c state'' ∧ RunsAlone step c state'' trace'' b state' := by
  induction runs with
  | refl a state => exact .inl ⟨rfl, .refl state⟩
  | @step _ _ _ state _ _ _ _ first rest _ =>
    exact .inr ⟨state, _, _, _, _, .refl state, rfl, first, rest⟩
  | meanwhile first _ ih =>
    rcases ih with ⟨rfl, other⟩ | ⟨between, c, state'', trace', trace'', other, same, step, rest⟩
    · exact .inl ⟨rfl, first.trans other⟩
    · exact .inr ⟨between, c, state'', trace', trace'', first.trans other, same, step, rest⟩

/-- To advance is to run. -/
theorem Advances.runs (advances : Advances step a state trace b state') :
    RunsAlone step a state trace b state' := by
  obtain ⟨first, rest⟩ := advances
  exact .step first rest

/-- One step advances. -/
theorem Advances.single (first : step a state trace b state') :
    Advances step a state trace b state' := by
  simpa using Advances.mk first (.refl b state')

/-- To advance and then run is to advance. -/
theorem Advances.trans (first : Advances step a state trace b state')
    (second : RunsAlone step b state' trace' c state'') :
    Advances step a state (trace ++ trace') c state'' := by
  obtain ⟨first, rest⟩ := first
  rw [List.append_assoc]
  exact .mk first (rest.trans second)

/-- What is seen as a step of something else makes it advance. -/
theorem Advances.map (view : α → β)
    (lift : ∀ {a b state state' trace}, step a state trace b state' →
      step' (view a) state trace (view b) state')
    (advances : Advances step a state trace b state') :
    Advances step' (view a) state trace (view b) state' := by
  obtain ⟨first, rest⟩ := advances
  exact .mk (lift first) (rest.map view lift)

end

end RuleGraph
