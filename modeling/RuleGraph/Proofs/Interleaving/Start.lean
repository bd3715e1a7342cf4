import RuleGraph.Proofs.Interleaving.Fits
import RuleGraph.Proofs.Interleaving.Frame

/-! # Starting routines

To start a routine is to make steps of a thread at rest before it, as many as can be made without
waiting for others.

* **`Thread.Enters`** — what entering a slot has to come to.
* **`Thread.startWith_advances`** — then starting a routine is to make steps.
* **`Thread.start_advances`** — so it is, since there is depth enough to enter slots.
-/

namespace RuleGraph

/-! ## Computations with a state -/

section

variable {σ α β : Type}

/-- A computation goes on with the value and the state that it has come to. -/
theorem bind_apply (first : StateM σ α) (next : α → StateM σ β) (s : σ) :
    (first >>= next) s = next (first s).1 (first s).2 := rfl

/-- A value leaves the state alone. -/
theorem pure_apply (a : α) (s : σ) : (pure a : StateM σ α) s = (a, s) := rfl

/-- The state may be looked at. -/
theorem get_apply (s : σ) : (get : StateM σ σ) s = (s, s) := rfl

/-- The state may be changed. -/
theorem modify_apply (change : σ → σ) (s : σ) :
    (modify change : StateM σ PUnit) s = (⟨⟩, change s) := rfl

/-- The state may be changed and something be learnt. -/
theorem modifyGet_apply (change : σ → α × σ) (s : σ) :
    (modifyGet change : StateM σ α) s = change s := rfl

end

namespace Thread

variable {setting : Setting} {path : List Nat} {index mark breadth : Nat}
  {thread thread' : Thread} {threads threads' rest : List Thread} {next : Outcome → Routine}
  {state state' : State} {trace : Trace} {other : State → State → Prop}

/-- A step of the first of several threads. -/
theorem SideStep.head (step : Step setting path thread state trace thread' state') :
    SideStep setting path (thread :: rest) state trace (thread' :: rest) state' :=
  @SideStep.mk setting path [] thread thread' rest state state' trace step

/-- A step of one of several threads, wherever it stands. -/
theorem SideStep.set {place : Nat} (found : threads[place]? = some thread)
    (step : Step setting path thread state trace thread' state') :
    SideStep setting path threads state trace (threads.set place thread') state' := by
  obtain ⟨bound, rfl⟩ := List.getElem?_eq_some_iff.1 found
  -- What stands before the thread and what stands behind it stay.
  have split := List.take_append_drop place threads
  rw [List.drop_eq_getElem_cons bound] at split
  rw [List.set_eq_take_append_cons_drop, if_pos bound]
  conv => arg 3; rw [← split]
  exact .mk step

/-- A step of one of several threads behind others. -/
theorem SideStep.append (step : SideStep setting path threads state trace threads' state')
    (earlier : List Thread) :
    SideStep setting path (earlier ++ threads) state trace (earlier ++ threads') state' := by
  induction earlier with
  | nil => exact step
  | cons thread rest ih => exact ih.cons

/-- A step of one of the threads side by side. -/
theorem SideStep.joining {next : List Outcome → Routine}
    (step : SideStep setting path threads state trace threads' state') :
    Step setting path (.joining breadth threads next) state trace
      (.joining breadth threads' next) state' := by
  obtain ⟨step⟩ := step
  exact .side step

/-- The thread that computes a slot runs within the thread that requested it. -/
theorem runs_inside {body body' : Thread}
    (runs : RunsAmid other (Step setting (path ++ [index])) body state trace body' state') :
    RunsAmid other (Step setting path) (.computing mark index body next) state trace
      (.computing mark index body' next) state' :=
  runs.map (fun body => Thread.computing mark index body next) fun step => .inside step

/-- What is run for some time runs within the thread that runs it. -/
theorem runs_beneath {endsAt : Nat} {body body' : Thread} {next : Option Outcome → Routine}
    (runs : RunsAmid other (Step setting path) body state trace body' state') :
    RunsAmid other (Step setting path) (.limited mark endsAt body next) state trace
      (.limited mark endsAt body' next) state' :=
  runs.map (fun body => Thread.limited mark endsAt body next) fun step => .beneath step

/-- Threads side by side run within the thread that spread out. -/
theorem runs_joining {next : List Outcome → Routine}
    (runs : RunsAmid other (SideStep setting path) threads state trace threads' state') :
    RunsAmid other (Step setting path) (.joining breadth threads next) state trace
      (.joining breadth threads' next) state' :=
  runs.map (fun threads => Thread.joining breadth threads next) fun step => step.joining

/-- The first of several threads runs. -/
theorem runs_head (runs : RunsAmid other (Step setting path) thread state trace thread' state') :
    RunsAmid other (SideStep setting path) (thread :: rest) state trace (thread' :: rest) state' :=
  runs.map (fun thread => thread :: rest) fun step => SideStep.head step

/-- Several threads run behind a further one. -/
theorem runs_tail
    (runs : RunsAmid other (SideStep setting path) threads state trace threads' state') :
    RunsAmid other (SideStep setting path) (thread :: threads) state trace (thread :: threads')
      state' :=
  runs.map (fun threads => thread :: threads) fun step => step.cons

/-! ## The clock -/

/-- No step moves the clock. -/
theorem Step.now_eq (step : Step setting path thread state trace thread' state') :
    state'.now = state.now := by
  have unseen : ∀ {state state' : State}, state'.Unseen state → state'.now = state.now :=
    fun same => congrArg Timeline.now same.timeline
  induction step with
  | inside _ ih | beneath _ ih | side _ ih => exact ih
  | drop => exact unseen unseen_cancel
  | @perform _ _ _ effect => cases effect <;> rfl
  | await => exact unseen .addWait
  | hear => exact unseen .removeWait
  | giveUp | answer => exact unseen (.trans .answer ⟨rfl, rfl, rfl⟩)
  | complete => exact unseen .answer
  | expire => exact unseen (.trans .answer ⟨unseen_cancel.1, unseen_cancel.2, unseen_cancel.3⟩)
  | _ => rfl

/-- The clock does not go back while a thread runs. -/
theorem now_le_of_runs
    (runs : RunsAlone (Step setting path) thread state trace thread' state') :
    state.now ≤ state'.now := by
  induction runs with
  | refl => exact Nat.le_refl _
  | step first _ ih => exact first.now_eq ▸ ih
  | meanwhile other _ ih => exact Nat.le_trans other.now ih

/-! ## Starting -/

/-- What `enter` does is to make steps: it ends at once with an outcome that is at hand, and makes
steps of the routine of the slot otherwise. -/
structure Enters (setting : Setting) (path : List Nat)
    (enter : List Nat → Nat → StateM State Thread) : Prop where
  /-- An outcome that is at hand. -/
  atOnce : ∀ index, index < setting.graph.size → index ∉ path → ∀ outcome,
    setting.slotRoutine index = .done outcome →
    ∀ state, enter path index state = (.finished outcome, state)
  /-- A computation. -/
  steps : ∀ index, index < setting.graph.size → index ∉ path → ∀ mark state, ∃ trace,
    RunsAlone (Step setting (path ++ [index])) (.resting mark (setting.slotRoutine index)) state
      trace (enter path index state).1 (enter path index state).2

variable {enter : List Nat → Nat → StateM State Thread}

/-- What `compute` does when it is too late. -/
theorem compute_of_late (late : state.isOverdue setting index = true) :
    compute setting enter path index state =
      (.finished (.error (setting.timeoutError index)),
        (state.timeOut setting index).2.answer path index
          (.error (setting.timeoutError index))) := by
  simp only [compute, bind_apply, get_apply, late, ↓reduceIte, modifyGet_apply, modify_apply,
    pure_apply]
  rfl

/-- What `compute` does otherwise. -/
theorem compute_of_early (early : state.isOverdue setting index = false) :
    compute setting enter path index state =
      match enter path index (state.begin index) with
      | (.finished outcome, after) => (.finished outcome, after.answer path index outcome)
      | (body, after) => (body, after) := by
  simp only [compute, bind_apply, get_apply, early, modify_apply, Bool.false_eq_true, ↓reduceIte]
  generalize enter path index (state.begin index) = entered
  obtain ⟨body, after⟩ := entered
  cases body <;> rfl

/-- **What `compute` does is to make steps** of a thread that waits for the slot. -/
theorem compute_advances (enters : Enters setting path enter) (bound : index < setting.graph.size)
    (fresh : index ∉ path) {since : Nat} (idle : state.cell index = .idle since)
    (mark mark' : Nat) (next : Outcome → Routine) :
    ∃ trace, match compute setting enter path index state with
      | (.finished outcome, state') =>
        Advances (Step setting path) (.waiting mark index next) state trace
          (.resting mark' (next outcome)) state'
      | (body, state') =>
        Advances (Step setting path) (.waiting mark index next) state trace
          (.computing mark' index body next) state' := by
  cases late : state.isOverdue setting index with
  | true =>
    rw [compute_of_late late]
    exact ⟨_, .single (.giveUp idle late)⟩
  | false =>
    rw [compute_of_early late]
    by_cases plain : ∃ outcome, setting.slotRoutine index = .done outcome
    · obtain ⟨outcome, plain⟩ := plain
      rw [enters.atOnce index bound fresh outcome plain]
      exact ⟨_, .single (.answer idle late plain)⟩
    · have long : ∀ outcome, setting.slotRoutine index ≠ .done outcome :=
        fun outcome same => plain ⟨outcome, same⟩
      obtain ⟨trace, steps⟩ := enters.steps index bound fresh mark (state.begin index)
      have first : Step setting path (.waiting mark index next) state [.begun index]
          (.computing mark' index (.resting mark (setting.slotRoutine index)) next)
          (state.begin index) := .compute idle late long
      -- First the slot is begun, then its routine runs within the thread.
      have inner := (Advances.single first).trans (runs_inside steps)
      generalize enter path index (state.begin index) = entered at inner
      obtain ⟨body, after⟩ := entered
      cases body with
      | finished outcome => exact ⟨_, inner.trans (.step .complete (.refl _ _))⟩
      | _ => exact ⟨_, inner⟩

/-- A thread that takes over a computation makes steps, whether the slot is then done or not. -/
theorem takeOver_advances (enters : Enters setting path enter) (bound : index < setting.graph.size)
    (fresh : index ∉ path) {since : Nat} (idle : state.cell index = .idle since)
    (go : ∀ outcome state, ∃ trace,
      Advances (Step setting path) (.resting mark (next outcome)) state trace
        (startWith setting enter path (next outcome) state).1
        (startWith setting enter path (next outcome) state).2) :
    let run : StateM State Thread := do
      match ← compute setting enter path index with
      | .finished outcome => startWith setting enter path (next outcome)
      | body => return .computing (← newMark) index body next
    ∃ trace, Advances (Step setting path) (.waiting mark index next) state trace
      (run state).1 (run state).2 := by
  simp only [bind_apply]
  -- A new mark stands in the thread only if the slot is not done at once.
  obtain ⟨trace, first⟩ := compute_advances enters bound fresh idle mark
    (match compute setting enter path index state with
      | (.finished _, _) => mark
      | (_, after) => after.mark) next
  generalize compute setting enter path index state = computed at first
  obtain ⟨body, after⟩ := computed
  cases body with
  | finished outcome =>
    obtain ⟨_, rest⟩ := go outcome after
    exact ⟨_, first.trans rest.runs⟩
  | _ => exact ⟨_, first.trans (.meanwhile after.elapses_tick (.refl _ _))⟩

/-- Several routines make steps one after the other if each of them does. -/
theorem startAllWith_runs {routines : List Routine}
    (each : ∀ routine ∈ routines, ∀ state, ∃ trace,
      Advances (Step setting path) (.resting mark routine) state trace
        (startWith setting enter path routine state).1
        (startWith setting enter path routine state).2) (state : State) :
    ∃ trace, RunsAlone (SideStep setting path) (routines.map (.resting mark)) state trace
      (startAllWith setting enter path routines state).1
      (startAllWith setting enter path routines state).2 := by
  induction routines generalizing state with
  | nil =>
    rw [startAllWith]
    exact ⟨[], .refl _ _⟩
  | cons routine rest ih =>
    obtain ⟨_, first⟩ := each routine (by simp) state
    obtain ⟨_, others⟩ := ih (fun later member => each later (by simp [member]))
      (startWith setting enter path routine state).2
    rw [startAllWith]
    simp only [bind_apply, pure_apply]
    exact ⟨_, (runs_head first.runs).trans (runs_tail others)⟩

/-- A routine that fetches a slot makes steps if what it goes on with does, whatever the answer. -/
theorem startFetch_advances (enters : Enters setting path enter)
    (request : setting.MayRequest path index)
    (go : ∀ outcome state, ∃ trace,
      Advances (Step setting path) (.resting mark (next outcome)) state trace
        (startWith setting enter path (next outcome) state).1
        (startWith setting enter path (next outcome) state).2) (state : State) :
    ∃ trace, Advances (Step setting path) (.resting mark (.fetch index next)) state trace
      (startWith setting enter path (.fetch index next) state).1
      (startWith setting enter path (.fetch index next) state).2 := by
  rw [startWith]
  simp only [bind_apply, modifyGet_apply, State.request]
  cases known : state.outcome? index with
  | some outcome =>
    obtain ⟨_, rest⟩ := go outcome state
    exact ⟨_, (Advances.single (.reuse known)).trans rest.runs⟩
  | none =>
    cases cycle : state.cycleOf? setting path index with
    | some refusal =>
      obtain ⟨_, rest⟩ := go refusal state
      exact ⟨_, (Advances.single (.refuse known cycle)).trans rest.runs⟩
    | none =>
      have await (mark' : Nat) : Step setting path (.resting mark (.fetch index next)) state []
          (.waiting mark' index next) (state.addWait path index) := .await known cycle
      cases here : state.cell index with
      | computing =>
        -- Another thread computes the slot, and this one waits until it is resumed.
        have marked := (state.addWait path index).elapses_tick
        exact ⟨_, (Advances.single (await _)).trans (.meanwhile marked (.refl _ _))⟩
      | idle since =>
        -- Nobody computes the slot, so this thread does, right after noting the wait.
        have fresh := State.not_mem_of_cycleOf? cycle
        have idle : (state.addWait path index).cell index = .idle since := by
          rw [State.cell_congr State.cells_addWait, here]
        obtain ⟨_, rest⟩ := takeOver_advances enters request.1 fresh idle go
        exact ⟨_, (Advances.single (await mark)).trans rest.runs⟩
      | settled outcome since =>
        -- An outcome that is kept would have been known.
        rw [State.outcome?, here] at known
        cases known

/-- A routine that runs another one for some time makes steps if that one and what it goes on with
do. -/
theorem startWithin_advances {milliseconds : Nat} {child : Routine}
    {next : Option Outcome → Routine} (state : State)
    (first : ∃ trace, Advances (Step setting path) (.resting mark child) state trace
      (startWith setting enter path child state).1 (startWith setting enter path child state).2)
    (go : ∀ outcome state, ∃ trace,
      Advances (Step setting path) (.resting mark (next outcome)) state trace
        (startWith setting enter path (next outcome) state).1
        (startWith setting enter path (next outcome) state).2) :
    ∃ trace, Advances (Step setting path) (.resting mark (.within milliseconds child next)) state
      trace (startWith setting enter path (.within milliseconds child next) state).1
      (startWith setting enter path (.within milliseconds child next) state).2 := by
  rw [startWith]
  simp only [bind_apply, get_apply]
  have limit (mark' : Nat) : Step setting path (.resting mark (.within milliseconds child next))
      state [] (.limited mark' (state.now + milliseconds) (.resting mark child) next) state := .limit
  obtain ⟨_, first⟩ := first
  have clock := now_le_of_runs first.runs
  have begun (mark' : Nat) :=
    (Advances.single (limit mark')).trans (runs_beneath first.runs)
  generalize startWith setting enter path child state = started at begun clock
  obtain ⟨body, after⟩ := started
  -- A limit of no length is over as soon as the routine has had its turn.
  have dropped (brief : milliseconds = 0) : ∃ trace, Advances (Step setting path)
      (.resting mark (.within milliseconds child next)) state trace
      (startWith setting enter path (next none) (cancel path body after)).1
      (startWith setting enter path (next none) (cancel path body after)).2 := by
    obtain ⟨_, rest⟩ := go none (cancel path body after)
    exact ⟨_, (begun mark).trans (.step (.drop (by omega)) rest.runs)⟩
  cases body with
  | finished outcome =>
    obtain ⟨_, rest⟩ := go (some outcome) after
    exact ⟨_, (begun mark).trans (.step .conclude rest.runs)⟩
  | _ =>
    dsimp only
    split
    · rename_i brief
      exact dropped brief
    · exact ⟨_, (begun after.mark).trans (.meanwhile after.elapses_tick (.refl _ _))⟩

/-- A routine that spreads out makes steps if its children and what it goes on with do. -/
theorem startJoin_advances {children : List Routine} {next : List Outcome → Routine}
    (state : State)
    (side : ∃ trace, RunsAlone (SideStep setting path) (children.map (.resting mark)) state trace
      (startAllWith setting enter path children state).1
      (startAllWith setting enter path children state).2)
    (go : ∀ outcomes state, ∃ trace,
      Advances (Step setting path) (.resting mark (next outcomes)) state trace
        (startWith setting enter path (next outcomes) state).1
        (startWith setting enter path (next outcomes) state).2) :
    ∃ trace, Advances (Step setting path) (.resting mark (.join breadth children next)) state trace
      (startWith setting enter path (.join breadth children next) state).1
      (startWith setting enter path (.join breadth children next) state).2 := by
  obtain ⟨_, side⟩ := side
  rw [startWith]
  simp only [bind_apply]
  have spread : Step setting path (.resting mark (.join breadth children next)) state []
      (.joining breadth (children.map (.resting mark)) next) state := .join
  have apart := (Advances.single spread).trans (runs_joining side)
  generalize startAllWith setting enter path children state = started at apart
  obtain ⟨threads, after⟩ := started
  cases gathered : outcomes? threads with
  | some outcomes =>
    -- All of them end at once, so the routine goes on.
    obtain ⟨_, rest⟩ := go outcomes after
    exact ⟨_, apart.trans (.step (.gather gathered) rest.runs)⟩
  | none => exact ⟨_, apart⟩

/-- **What `startWith` does is to make steps** of a thread at rest before the routine. -/
theorem startWith_advances (enters : Enters setting path enter) {routine : Routine}
    (permits : setting.Permits path routine) (mark : Nat) (state : State) :
    ∃ trace, Advances (Step setting path) (.resting mark routine) state trace
      (startWith setting enter path routine state).1
      (startWith setting enter path routine state).2 := by
  induction routine generalizing state with
  | done outcome =>
    rw [startWith_done]
    exact ⟨_, .single .finish⟩
  | perform effect next ih =>
    obtain ⟨_, rest⟩ := ih (fun _ h => permits _ (.perform h)) (state.perform setting effect)
    rw [startWith]
    exact ⟨_, (Advances.single .perform).trans rest.runs⟩
  | invoke function args next ih =>
    obtain ⟨_, rest⟩ := ih _ (fun _ h => permits _ (.invoke h)) (state.invoke function args)
    rw [startWith]
    exact ⟨_, (Advances.single .invoke).trans rest.runs⟩
  | pause next ih =>
    rw [startWith]
    exact ⟨_, (Advances.single .pause).trans (.meanwhile state.elapses_tick (.refl _ _))⟩
  | sleep milliseconds next ih =>
    rw [startWith]
    split
    · -- A sleep of no length is over as soon as it begins.
      rename_i none
      obtain ⟨_, rest⟩ := ih (fun _ h => permits _ (.sleep h)) state
      have asleep : Step setting path (.resting mark (.sleep milliseconds next)) state []
          (.sleeping mark (state.now + milliseconds) next) state := .sleep
      have awake : Step setting path (.sleeping mark (state.now + milliseconds) next) state []
          (.resting mark next) state := .wake (by omega)
      exact ⟨_, (Advances.single asleep).trans (.step awake rest.runs)⟩
    · exact ⟨_, (Advances.single .sleep).trans (.meanwhile state.elapses_tick (.refl _ _))⟩
  | fetch index next ih =>
    exact startFetch_advances enters (permits index .here)
      (fun outcome state => ih outcome (fun _ h => permits _ (.fetch h)) state) state
  | within milliseconds child next onChild onNext =>
    exact startWithin_advances state (onChild (fun _ h => permits _ (.inner h)) state)
      fun outcome state => onNext outcome (fun _ h => permits _ (.within h)) state
  | join breadth children next onChildren onNext =>
    have side := startAllWith_runs
      (fun child member state => onChildren child member
        (fun _ h => permits _ (.child member h)) state) state
    exact startJoin_advances state side
      fun outcomes state => onNext outcomes (fun _ h => permits _ (.join h)) state

/-- There is always depth enough to enter a slot. -/
theorem enters_enter (linked : setting.graph.Linked) {depth : Nat}
    (isPath : setting.graph.IsPath path) (enough : depth + path.length = setting.graph.size) :
    Enters setting path (Thread.enter setting depth) := by
  induction depth generalizing path with
  | zero =>
    refine ⟨fun index bound fresh => ?_, fun index bound fresh => ?_⟩
    -- The path has as many slots as there are, so no further one is to be entered.
    all_goals
      have shorter := isPath.length_lt bound fresh
      omega
  | succ depth ih =>
    refine ⟨fun index bound fresh outcome plain state => ?_,
      fun index bound fresh mark state => ?_⟩
    · rw [Thread.enter, plain, startWith]
      rfl
    · have deeper := ih (isPath.concat bound fresh) (by simp; omega)
      obtain ⟨trace, advances⟩ := startWith_advances deeper
        (setting.permits_slotRoutine linked) mark state
      exact ⟨trace, advances.runs⟩

/-- There is depth enough from every path. -/
theorem enters_of_isPath (linked : setting.graph.Linked) (isPath : setting.graph.IsPath path) :
    Enters setting path (Thread.enter setting (setting.graph.size - path.length)) :=
  enters_enter linked isPath (Nat.sub_add_cancel isPath.length_le)

/-- **To start a routine is to make steps.** -/
theorem start_advances (linked : setting.graph.Linked) (isPath : setting.graph.IsPath path)
    {routine : Routine} (permits : setting.Permits path routine) (mark : Nat) (state : State) :
    ∃ trace, Advances (Step setting path) (.resting mark routine) state trace
      (start setting path routine state).1 (start setting path routine state).2 :=
  startWith_advances (enters_of_isPath linked isPath) permits mark state

end Thread

end RuleGraph
