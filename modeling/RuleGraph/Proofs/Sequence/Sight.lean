import RuleGraph.Proofs.Interleaving.Start
import RuleGraph.Proofs.Sequence.Reference

/-! # What others see of statements

Functions that compute values are invoked unseen; the statements invoked, the effects and the events
are what others see.

* **`State.Resembles`** — states that look the same but for the clock and for the functions that
  compute values.
* **`State.Alike`** — and that have the same clock.
* **`State.actAll`** — the state after several deeds.
* **`State.Moves`** — what becomes of a state while routines run that do given things.
-/

namespace RuleGraph

/-- Whether a function of a package and a name is bound as a statement. -/
def Executable.hasStatement (executable : Executable) (key : EntryKey) : Bool :=
  executable.functions.any fun bound => bound.2.isStatement && bound.2.key = key

/-- The invocations of statements among all invocations. -/
def Executable.statementInvocations (executable : Executable) (records : List InvocationRecord) :
    List InvocationRecord :=
  records.filter fun record => executable.hasStatement record.1

namespace State

/-- Two states look the same, whatever their clocks say: the effects, the events, and the statements
invoked. -/
structure Resembles (executable : Executable) (state state' : State) : Prop where
  /-- The same effects. -/
  manipulator : state.manipulator = state'.manipulator
  /-- The same events. -/
  events : state.timeline.events = state'.timeline.events
  /-- The same invocations of statements. -/
  invocations : executable.statementInvocations state.invocations =
    executable.statementInvocations state'.invocations

/-- Two states look the same, and so do their clocks. -/
structure Alike (executable : Executable) (state state' : State) : Prop
    extends state.Resembles executable state' where
  /-- The same time. -/
  now : state.now = state'.now

/-- The state after several deeds. -/
def actAll (state : State) (setting : Setting) (deeds : List Deed) : State :=
  deeds.foldl (fun state deed => state.act setting deed) state

variable {executable : Executable} {setting : Setting} {state state' state'' : State}
  {path : List Nat} {index : Nat} {deeds deeds' : List Deed} {touched : Nat → Prop}
  {outcome : Outcome}

namespace Resembles

/-- A state looks like itself. -/
theorem refl : state.Resembles executable state := ⟨rfl, rfl, rfl⟩

/-- What looks the same as something that looks the same. -/
theorem trans (first : state.Resembles executable state')
    (second : state'.Resembles executable state'') : state.Resembles executable state'' :=
  ⟨first.manipulator.trans second.manipulator, first.events.trans second.events,
    first.invocations.trans second.invocations⟩

/-- What nobody sees looks the same. -/
theorem of_unseen (unseen : state'.Unseen state) : state'.Resembles executable state :=
  ⟨unseen.manipulator, congrArg Timeline.events unseen.timeline,
    congrArg executable.statementInvocations unseen.invocations⟩

/-- The same deed leaves states resembling each other. -/
theorem act (resembles : state.Resembles executable state') (deed : Deed) :
    (state.act setting deed).Resembles executable (state'.act setting deed) := by
  obtain ⟨manipulator, events, invocations⟩ := resembles
  cases deed with
  | invoke function args =>
    refine ⟨manipulator, events, ?_⟩
    simp only [State.act, State.invoke, Executable.statementInvocations, List.filter_append]
      at invocations ⊢
    rw [invocations]
  | perform effect =>
    cases effect with
    | log => exact ⟨manipulator, congrArg (· ++ _) events, invocations⟩
    | emit => exact ⟨manipulator, congrArg (· ++ _) events, invocations⟩
    | queue | report | track =>
      exact ⟨congrArg (Option.map _) manipulator, events, invocations⟩

/-- So do the same deeds. -/
theorem actAll (resembles : state.Resembles executable state') (deeds : List Deed) :
    (state.actAll setting deeds).Resembles executable (state'.actAll setting deeds) := by
  induction deeds generalizing state state' with
  | nil => exact resembles
  | cons deed rest ih => exact ih (resembles.act deed)

/-- Invoking a function that is no statement leaves a state looking the same. -/
theorem invoke {function : EntryKey} (value : executable.hasStatement function = false)
    (args : List Value) : (state.invoke function args).Resembles executable state := by
  refine ⟨rfl, rfl, ?_⟩
  rw [State.invoke, Executable.statementInvocations, Executable.statementInvocations,
    List.filter_append, List.filter_singleton, value, Bool.cond_false, List.append_nil]

/-- The clock does not matter. -/
theorem moveClock (time : Nat) : (state.moveClock time).Resembles executable state :=
  ⟨rfl, rfl, rfl⟩

end Resembles

/-- First some deeds, then others. -/
theorem actAll_append : state.actAll setting (deeds ++ deeds') =
    (state.actAll setting deeds).actAll setting deeds' :=
  List.foldl_append

/-- Deeds leave cells and waits alone, and take no time. -/
theorem cells_actAll (deeds : List Deed) :
    (state.actAll setting deeds).cells = state.cells ∧
      (state.actAll setting deeds).waits = state.waits ∧
      (state.actAll setting deeds).now = state.now := by
  induction deeds generalizing state with
  | nil => exact ⟨rfl, rfl, rfl⟩
  | cons deed rest ih =>
    obtain ⟨cells, waits, now⟩ := @ih (state.act setting deed)
    cases deed with
    | perform effect =>
      refine ⟨cells.trans cells_perform, waits.trans waits_perform, now.trans ?_⟩
      cases effect <;> rfl
    | invoke function args => exact ⟨cells, waits, now⟩

/-- What is invoked by deeds comes behind what was invoked before. -/
theorem invocations_actAll (deeds : List Deed) : (state.actAll setting deeds).invocations =
    state.invocations ++ deeds.filterMap Deed.invocation? := by
  induction deeds generalizing state with
  | nil => exact (List.append_nil _).symm
  | cons deed rest ih =>
    refine (@ih (state.act setting deed)).trans ?_
    cases deed with
    | invoke function args =>
      exact List.append_assoc _ [(function, args)] _
    | perform effect =>
      cases effect <;> rfl

/-! ## What becomes of a state -/

/-- What becomes of a state while routines run that do given things: others see these and nothing
else, no time passes, and of the slots that are not plain only certain ones are computed. -/
structure Moves (setting : Setting) (touched : Nat → Prop) (deeds : List Deed)
    (state state' : State) : Prop where
  /-- Other slots stay as they are. -/
  cells : ∀ index, ¬setting.graph.IsPlain index → ¬touched index →
    state'.cell index = state.cell index
  /-- Others see the deeds, and nothing else. -/
  resembles : state'.Resembles setting.executable (state.actAll setting deeds)
  /-- No time passes. -/
  now : state'.now = state.now

namespace Moves

/-- Nothing happens. -/
theorem refl : Moves setting touched [] state state := ⟨fun _ _ _ => rfl, .refl, rfl⟩

/-- Nobody sees that a slot is computed that may be. -/
theorem of_unseen (unseen : state'.Unseen state)
    (cells : ∀ index, ¬setting.graph.IsPlain index → ¬touched index →
      state'.cell index = state.cell index) : Moves setting touched [] state state' :=
  ⟨cells, .of_unseen unseen, congrArg Timeline.now unseen.timeline⟩

/-- First one thing and then another. -/
theorem trans (first : Moves setting touched deeds state state')
    (second : Moves setting touched deeds' state' state'') :
    Moves setting touched (deeds ++ deeds') state state'' := by
  refine ⟨fun index other untouched => ?_, ?_, second.now.trans first.now⟩
  · rw [second.cells index other untouched, first.cells index other untouched]
  · rw [actAll_append]
    exact second.resembles.trans (first.resembles.actAll deeds')

end Moves

end State

end RuleGraph
