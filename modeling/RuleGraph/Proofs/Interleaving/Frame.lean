import RuleGraph.Execution.Thread

/-! # What operations change

Each operation on the state of an execution changes what it is about and leaves everything else
alone.

* **`State.cell_setCell_ne`** — only the cell that is set changes.
* **`State.cells_perform`**, **`State.waits_answer`**, … — what is left alone.
* **`State.Unseen`** — what others can see stays as it is.
* **`Thread.outcomes?_eq_some_iff`** — threads that are all finished.
* **`Thread.cell_cancel_of_mem`** — abandoning a thread releases the cells that it computes.
-/

namespace RuleGraph

namespace State

variable {state : State} {setting : Setting} {path : List Nat} {index other : Nat} {cell : Cell}
  {outcome : Outcome} {effect : Effect} {function : EntryKey} {args : List Value}

/-! ## Cells -/

/-- The cell that is set. -/
theorem cell_setCell_self (bound : index < state.cells.length) :
    (state.setCell index cell).cell index = cell := by
  rw [State.cell, setCell, List.getElem?_set_self bound, Option.getD_some]

/-- Every other cell. -/
theorem cell_setCell_ne (apart : other ≠ index) :
    (state.setCell index cell).cell other = state.cell other := by
  rw [State.cell, State.cell, setCell, List.getElem?_set_ne (Ne.symm apart)]

/-- Noting a wait leaves cells alone. -/
@[simp] theorem cells_addWait : (state.addWait path index).cells = state.cells := by
  rw [addWait]
  split <;> rfl

/-- Ending a wait leaves cells alone. -/
@[simp] theorem cells_removeWait : (state.removeWait path index).cells = state.cells := by
  rw [removeWait]
  split <;> rfl

/-- Effects leave cells alone. -/
@[simp] theorem cells_perform : (state.perform setting effect).cells = state.cells := by
  cases effect <;> rfl

/-- Invocations leave cells alone. -/
@[simp] theorem cells_invoke : (state.invoke function args).cells = state.cells := rfl

/-- Finding that a slot is late leaves cells alone. -/
@[simp] theorem cells_timeOut : (state.timeOut setting index).2.cells = state.cells := rfl

/-- Beginning sets a cell. -/
@[simp] theorem cells_begin : (state.begin index).cells = state.cells.set index .computing := rfl

/-- Giving up sets a cell. -/
@[simp] theorem cells_release :
    (state.release index).cells = state.cells.set index (.idle state.mark) := rfl

/-- Answering sets a cell. -/
@[simp] theorem cells_answer : (state.answer path index outcome).cells =
    state.cells.set index (.settled outcome state.mark) := by
  rw [answer, cells_removeWait]
  rfl

/-- Cells are what they are in the list of cells. -/
theorem cell_congr {state' : State} (same : state'.cells = state.cells) :
    state'.cell index = state.cell index := by
  rw [State.cell, State.cell, same]

/-- The cell of a slot whose computation begins. -/
theorem cell_begin_self (bound : index < state.cells.length) :
    (state.begin index).cell index = .computing :=
  cell_setCell_self bound

/-- The cell of a slot whose outcome is kept. -/
theorem cell_answer_self (bound : index < state.cells.length) :
    (state.answer path index outcome).cell index = .settled outcome state.mark := by
  rw [State.cell, cells_answer, List.getElem?_set_self bound, Option.getD_some]

/-- The cells of all other slots, when an outcome is kept. -/
theorem cell_answer_ne (apart : other ≠ index) :
    (state.answer path index outcome).cell other = state.cell other := by
  rw [State.cell, State.cell, cells_answer, List.getElem?_set_ne (Ne.symm apart)]

/-- The cell of a slot that is given up. -/
theorem cell_release_self (bound : index < state.cells.length) :
    (state.release index).cell index = .idle state.mark :=
  cell_setCell_self bound

/-- An idle cell stays idle when any slot is given up. -/
theorem idle_release (h : ∃ since, state.cell index = .idle since) :
    ∃ since, (state.release other).cell index = .idle since := by
  by_cases same : index = other
  · subst same
    by_cases bound : index < state.cells.length
    · exact ⟨_, cell_release_self bound⟩
    -- A slot that is not there is idle from the start, whatever is set.
    · refine ⟨0, ?_⟩
      rw [State.cell, cells_release, List.getElem?_eq_none, Option.getD_none]
      simpa using bound
  · obtain ⟨since, idle⟩ := h
    have still : (state.release other).cell index = state.cell index := cell_setCell_ne same
    exact ⟨since, still.trans idle⟩

/-! ## Waits -/

/-- Effects leave waits alone. -/
@[simp] theorem waits_perform : (state.perform setting effect).waits = state.waits := by
  cases effect <;> rfl

/-- Invocations leave waits alone. -/
@[simp] theorem waits_invoke : (state.invoke function args).waits = state.waits := rfl

/-- Beginning leaves waits alone. -/
@[simp] theorem waits_begin : (state.begin index).waits = state.waits := rfl

/-- Giving up leaves waits alone. -/
@[simp] theorem waits_release : (state.release index).waits = state.waits := rfl

/-- Finding that a slot is late leaves waits alone. -/
@[simp] theorem waits_timeOut : (state.timeOut setting index).2.waits = state.waits := rfl

/-- Answering ends one wait. -/
@[simp] theorem waits_answer :
    (state.answer path index outcome).waits = (state.removeWait path index).waits := by
  rw [answer, removeWait, removeWait]
  split <;> rfl

/-- As many slots have waits as before. -/
@[simp] theorem length_waits_addWait :
    (state.addWait path index).waits.length = state.waits.length := by
  rw [addWait]
  split
  · exact List.length_set
  · rfl

/-- As many slots have waits as before. -/
@[simp] theorem length_waits_removeWait :
    (state.removeWait path index).waits.length = state.waits.length := by
  rw [removeWait]
  split
  · exact List.length_set
  · rfl

/-! ## What others see -/

/-- Others see the same in one state as in another. -/
structure Unseen (after before : State) : Prop where
  /-- The same effects. -/
  manipulator : after.manipulator = before.manipulator
  /-- The same clock and events. -/
  timeline : after.timeline = before.timeline
  /-- The same invocations. -/
  invocations : after.invocations = before.invocations

/-- Others see the same in the same state. -/
theorem Unseen.refl (state : State) : state.Unseen state :=
  ⟨rfl, rfl, rfl⟩

/-- What others do not see in two steps, they do not see in both. -/
theorem Unseen.trans {state state' state'' : State} (second : state''.Unseen state')
    (first : state'.Unseen state) : state''.Unseen state :=
  ⟨second.manipulator.trans first.manipulator, second.timeline.trans first.timeline,
    second.invocations.trans first.invocations⟩

/-- Noting a wait is seen by nobody. -/
theorem Unseen.addWait : (state.addWait path index).Unseen state := by
  rw [State.addWait]
  split <;> exact ⟨rfl, rfl, rfl⟩

/-- Ending a wait is seen by nobody. -/
theorem Unseen.removeWait : (state.removeWait path index).Unseen state := by
  rw [State.removeWait]
  split <;> exact ⟨rfl, rfl, rfl⟩

/-- Answering is seen by nobody. -/
theorem Unseen.answer : (state.answer path index outcome).Unseen state :=
  .trans .removeWait ⟨rfl, rfl, rfl⟩

end State

namespace Thread

/-- Induction on threads, with a hypothesis for every thread that runs side by side. -/
@[induction_eliminator]
theorem induction {motive : Thread → Prop}
    (finished : ∀ outcome, motive (.finished outcome))
    (resting : ∀ mark next, motive (.resting mark next))
    (sleeping : ∀ mark wakeAt next, motive (.sleeping mark wakeAt next))
    (waiting : ∀ mark index next, motive (.waiting mark index next))
    (computing : ∀ mark index body next, motive body → motive (.computing mark index body next))
    (limited : ∀ mark endsAt body next, motive body → motive (.limited mark endsAt body next))
    (joining : ∀ breadth threads next, (∀ thread ∈ threads, motive thread) →
      motive (.joining breadth threads next))
    (thread : Thread) : motive thread := by
  -- The recursor has a motive of its own for lists of threads: that it holds of all of them.
  refine @Thread.rec motive (fun threads => ∀ thread ∈ threads, motive thread)
    finished resting sleeping waiting computing limited joining ?_ ?_ thread
  · intro thread none
    cases none
  · intro head tail onHead onTail thread member
    rcases List.mem_cons.1 member with rfl | later
    · exact onHead
    · exact onTail thread later

/-- A thread has an outcome once it is finished. -/
theorem outcome?_eq_some_iff {thread : Thread} {outcome : Outcome} :
    thread.outcome? = some outcome ↔ thread = .finished outcome := by
  cases thread <;> simp [outcome?]

/-- Threads have outcomes once all of them are finished. -/
theorem outcomes?_eq_some_iff {threads : List Thread} {outcomes : List Outcome} :
    outcomes? threads = some outcomes ↔ threads = outcomes.map .finished := by
  induction threads generalizing outcomes with
  | nil =>
    rw [outcomes?, List.mapM_nil]
    cases outcomes with
    | nil => exact ⟨fun _ => rfl, fun _ => rfl⟩
    | cons outcome rest => constructor <;> intro h <;> cases h
  | cons thread rest ih =>
    rw [outcomes?, List.mapM_cons, ← outcomes?]
    constructor
    · intro h
      obtain ⟨outcome, first, h⟩ := Option.bind_eq_some_iff.1 h
      obtain ⟨others, later, h⟩ := Option.bind_eq_some_iff.1 h
      cases h
      rw [ih.1 later]
      cases thread with
      | finished =>
        cases first
        rfl
      | _ => cases first
    · intro h
      cases outcomes with
      | nil => cases h
      | cons outcome others =>
        obtain ⟨rfl, same⟩ := List.cons.inj h
        rw [ih.2 same]
        rfl

/-- Threads in a row are finished once both rows are. -/
theorem outcomes?_append {before after : List Thread} :
    outcomes? (before ++ after) = do return (← outcomes? before) ++ (← outcomes? after) := by
  rw [outcomes?, List.mapM_append]
  rfl

/-! ## Ends -/

variable {setting : Setting} {path : List Nat} {outcome : Outcome}

/-- A routine that is at its end is finished when it starts. -/
theorem startWith_done {enter : List Nat → Nat → StateM State Thread} :
    startWith setting enter path (.done outcome) = pure (.finished outcome) := by
  rw [startWith]

/-- A finished thread stays as it is when it is resumed. -/
theorem resume_finished :
    resume setting path (.finished outcome) = pure (.finished outcome) := by
  rw [resume]

/-! ## Abandoning -/

mutual

/-- The slots being computed within a thread. -/
def computes : Thread → List Nat
  | .computing _ index body _ => index :: computes body
  | .limited _ _ body _ => computes body
  | .joining _ threads _ => computesOfAll threads
  | .finished _ | .resting _ _ | .sleeping _ _ _ | .waiting _ _ _ => []

/-- The slots being computed within several threads. -/
def computesOfAll : List Thread → List Nat
  | [] => []
  | thread :: rest => computes thread ++ computesOfAll rest

end

variable {setting : Setting} {thread : Thread} {threads : List Thread} {path : List Nat}
  {state : State} {index : Nat}

/-- What is computed within several threads is computed within one of them. -/
theorem mem_computesOfAll :
    index ∈ computesOfAll threads ↔ ∃ thread ∈ threads, index ∈ thread.computes := by
  induction threads with
  | nil => simp [computesOfAll]
  | cons thread rest ih => simp [computesOfAll, ih]

/-- What each of several threads keeps when it is abandoned, all of them keep. -/
theorem cancelAll_keeps {motive : State → Prop}
    (each : ∀ thread ∈ threads, ∀ state, motive state → motive (cancel path thread state))
    (h : motive state) : motive (cancelAll path threads state) := by
  induction threads generalizing state with
  | nil =>
    rw [cancelAll]
    exact h
  | cons thread rest ih =>
    rw [cancelAll]
    exact ih (fun later member => each later (by simp [member])) (each thread (by simp) state h)

/-- **What ending waits and releasing cells keep, abandoning a thread keeps.** Only cells that the
thread computes are released. -/
theorem cancel_keeps {motive : State → Prop}
    (removeWait : ∀ state path index, motive state → motive (state.removeWait path index))
    (release : ∀ state, ∀ index ∈ thread.computes, motive state → motive (state.release index))
    (h : motive state) : motive (cancel path thread state) := by
  induction thread generalizing path state with
  | finished | resting | sleeping =>
    rw [cancel]
    exact h
  | waiting mark index next =>
    rw [cancel]
    exact removeWait _ _ _ h
  | computing mark index body next ih =>
    rw [cancel]
    -- What is inside is abandoned first, then the slot itself is given up, then its wait ends.
    refine removeWait _ _ _ (release _ index (by simp [computes]) ?_)
    exact ih (fun state other member => release state other (by simp [computes, member])) h
  | limited mark endsAt body next ih =>
    rw [cancel]
    exact ih (fun state other member => release state other (by rwa [computes])) h
  | joining breadth threads next ih =>
    rw [cancel]
    refine cancelAll_keeps (fun thread member state => ih thread member fun state other inside =>
      release state other ?_) h
    rw [computes]
    exact mem_computesOfAll.2 ⟨thread, member, inside⟩

/-- A cell that an abandoned thread does not compute is left alone. -/
theorem cell_cancel_of_not_mem (h : index ∉ thread.computes) :
    (cancel path thread state).cell index = state.cell index := by
  refine cancel_keeps (motive := fun state' => state'.cell index = state.cell index) ?_ ?_ rfl
  · intro state' path other same
    rw [State.cell_congr State.cells_removeWait, same]
  · intro state' other member same
    have apart : index ≠ other := fun equal => h (equal ▸ member)
    rw [← same]
    exact State.cell_setCell_ne apart

/-- As many cells remain as there were. -/
@[simp] theorem length_cells_cancel :
    (cancel path thread state).cells.length = state.cells.length := by
  refine cancel_keeps (motive := fun state' => state'.cells.length = state.cells.length) ?_ ?_ rfl
  · intro state' path index same
    rw [State.cells_removeWait, same]
  · intro state' index _ same
    rw [State.cells_release, List.length_set, same]

/-- As many slots have waits as before. -/
@[simp] theorem length_waits_cancel :
    (cancel path thread state).waits.length = state.waits.length := by
  refine cancel_keeps (motive := fun state' => state'.waits.length = state.waits.length) ?_
    (fun _ _ _ same => same) rfl
  intro state' path index same
  rw [State.length_waits_removeWait, same]

/-- Abandoning a thread is seen by nobody. -/
theorem unseen_cancel : (cancel path thread state).Unseen state := by
  refine cancel_keeps (motive := fun state' => state'.Unseen state) ?_
    (fun _ _ _ unseen => ⟨unseen.1, unseen.2, unseen.3⟩) (.refl state)
  exact fun state' path index unseen => .trans .removeWait unseen

/-- A cell that is idle stays idle when a thread is abandoned. -/
theorem cell_cancel_of_idle (h : ∃ since, state.cell index = .idle since) :
    ∃ since, (cancel path thread state).cell index = .idle since := by
  refine cancel_keeps (motive := fun state' => ∃ since, state'.cell index = .idle since) ?_ ?_ h
  · intro state' path other idle
    rwa [State.cell_congr State.cells_removeWait]
  · exact fun state' other _ idle => State.idle_release idle

/-- A cell that an abandoned thread computes may begin anew. -/
theorem cell_cancel_of_mem (bound : index < state.cells.length) (h : index ∈ thread.computes) :
    ∃ since, (cancel path thread state).cell index = .idle since := by
  induction thread generalizing path state with
  | finished | resting | sleeping | waiting => simp [computes] at h
  | computing mark index' body next ih =>
    rw [cancel]
    rw [State.cell_congr State.cells_removeWait]
    -- Given up within the computation, or with it.
    by_cases inner : index ∈ body.computes
    · exact State.idle_release (ih bound inner)
    · have same : index = index' := by
        rw [computes, List.mem_cons] at h
        exact h.resolve_right inner
      subst same
      exact ⟨_, State.cell_release_self (by simpa using bound)⟩
  | limited mark endsAt body next ih =>
    rw [cancel]
    rw [computes] at h
    exact ih bound h
  | joining breadth threads next ih =>
    rw [cancel]
    rw [computes] at h
    induction threads generalizing state with
    | nil => simp [computesOfAll] at h
    | cons thread rest onRest =>
      rw [cancelAll]
      by_cases here : index ∈ thread.computes
      -- Abandoning the other threads does not begin it again.
      · exact cancelAll_keeps (motive := fun state => ∃ since, state.cell index = .idle since)
          (fun _ _ _ idle => cell_cancel_of_idle idle) (ih thread (by simp) bound here)
      · rw [computesOfAll, List.mem_append] at h
        exact onRest (fun later member => ih later (by simp [member])) (by simpa using bound)
          (h.resolve_left here)

end Thread

end RuleGraph
