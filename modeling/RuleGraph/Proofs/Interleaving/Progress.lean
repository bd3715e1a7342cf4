import RuleGraph.Proofs.Interleaving.Memo
import RuleGraph.Proofs.Waits.Acyclic

/-! # Progress

As long as a request is not answered, some request can come a step further, at the latest when time
has passed. Since waits form no cycle, requests do not wait for each other forever.

* **`Thread.Moves`** — a thread can take a step.
* **`Thread.moves_or_waits`** — a thread that cannot waits for time to pass or for another slot.
* **`Session.Goes`** — one of the requests comes a step further.
* **`Execution.Reaches.exists_goes`** — one of them can, if not all of them are answered.
-/

namespace RuleGraph

open Relation

namespace Thread

/-- A thread of the last slot of a path can take a step. -/
def Moves (setting : Setting) (path : List Nat) (thread : Thread) (state : State) : Prop :=
  ∃ trace thread' state', Step setting path thread state trace thread' state'

/-- A thread of the last slot of a path waits for a slot that is being computed. -/
def WaitsFor (state : State) (path : List Nat) (thread : Thread) (target : Nat) : Prop :=
  state.cell target = .computing ∧ ∀ slot ∈ path.getLast?, (slot, target) ∈ thread.awaits path

variable {setting : Setting} {path : List Nat} {thread body : Thread} {threads : List Thread}
  {state : State} {slot : Nat}

/-- Whatever its routine is, a thread at rest can take a step. -/
theorem moves_resting {mark : Nat} {next : Routine} :
    (Thread.resting mark next).Moves setting path state := by
  cases next with
  | done => exact ⟨_, _, _, .finish⟩
  | perform => exact ⟨_, _, _, @Step.perform _ _ _ mark _ _ _⟩
  | invoke => exact ⟨_, _, _, @Step.invoke _ _ _ mark _ _ _ _⟩
  | pause => exact ⟨_, _, _, @Step.pause _ _ _ mark _ _⟩
  | sleep => exact ⟨_, _, _, @Step.sleep _ _ _ mark _ _ _⟩
  | within => exact ⟨_, _, _, @Step.limit _ _ _ mark mark _ _ _ _⟩
  | join => exact ⟨_, _, _, @Step.join _ _ _ mark _ _ _ _⟩
  | fetch index next =>
    -- Every request is answered, refused or left waiting.
    cases known : state.outcome? index with
    | some outcome => exact ⟨_, _, _, @Step.reuse _ _ _ mark _ _ _ _ known⟩
    | none =>
      cases cycle : state.cycleOf? setting path index with
      | some outcome => exact ⟨_, _, _, @Step.refuse _ _ _ mark _ _ _ _ known cycle⟩
      | none => exact ⟨_, _, _, @Step.await _ _ _ mark _ _ _ known cycle⟩

/-- A thread that waits for a slot can take a step unless that slot is being computed. -/
theorem moves_waiting {mark index : Nat} {next : Outcome → Routine}
    (free : state.cell index ≠ .computing) :
    (Thread.waiting mark index next).Moves setting path state := by
  cases here : state.cell index with
  | computing => exact absurd here free
  | settled outcome since => exact ⟨_, _, _, @Step.hear _ _ _ mark _ _ _ _ _ here⟩
  | idle since =>
    cases late : state.isOverdue setting index with
    | true => exact ⟨_, _, _, @Step.giveUp _ _ _ mark _ _ _ _ here late⟩
    | false =>
      by_cases plain : ∃ outcome, setting.slotRoutine index = .done outcome
      · obtain ⟨outcome, plain⟩ := plain
        exact ⟨_, _, _, @Step.answer _ _ _ mark _ _ _ _ _ here late plain⟩
      · refine ⟨_, _, _, @Step.compute _ _ _ mark mark _ _ _ _ here late fun outcome same => ?_⟩
        exact plain ⟨outcome, same⟩

/-- A thread moves with the computation below it. -/
theorem Moves.inside {mark index : Nat} {next : Outcome → Routine}
    (moves : body.Moves setting (path ++ [index]) state) :
    (Thread.computing mark index body next).Moves setting path state := by
  obtain ⟨_, _, _, step⟩ := moves
  exact ⟨_, _, _, .inside step⟩

/-- A thread moves with what it runs for some time. -/
theorem Moves.beneath {mark endsAt : Nat} {next : Option Outcome → Routine}
    (moves : body.Moves setting path state) :
    (Thread.limited mark endsAt body next).Moves setting path state := by
  obtain ⟨_, _, _, step⟩ := moves
  exact ⟨_, _, _, .beneath step⟩

/-- A thread moves with each of the threads side by side. -/
theorem Moves.side {breadth : Nat} {next : List Outcome → Routine} (member : thread ∈ threads)
    (moves : thread.Moves setting path state) :
    (Thread.joining breadth threads next).Moves setting path state := by
  obtain ⟨before, after, rfl⟩ := List.append_of_mem member
  obtain ⟨_, _, _, step⟩ := moves
  exact ⟨_, _, _, .side step⟩

/-- What several threads wait for, one of them waits for. -/
theorem mem_timersOfAll {time : Nat} :
    time ∈ timersOfAll setting threads ↔ ∃ thread ∈ threads, time ∈ thread.timers setting := by
  induction threads with
  | nil => simp [timersOfAll]
  | cons thread rest ih => simp [timersOfAll, ih]

/-- Threads that are not all finished. -/
theorem exists_unfinished (unfinished : outcomes? threads = none) :
    ∃ thread ∈ threads, thread.outcome? = none := by
  induction threads with
  | nil => cases unfinished
  | cons thread rest ih =>
    cases first : thread.outcome? with
    | none => exact ⟨thread, List.mem_cons_self, first⟩
    | some outcome =>
      have others : outcomes? rest = none := by
        rw [outcomes?, List.mapM_cons, first, ← outcomes?] at unfinished
        cases later : outcomes? rest with
        | none => rfl
        | some outcomes =>
          rw [later] at unfinished
          cases unfinished
      obtain ⟨thread', member, open'⟩ := ih others
      exact ⟨thread', List.mem_cons_of_mem _ member, open'⟩

/-- **An unfinished thread can take a step, or waits for time to pass, or for a slot that is being
computed.** -/
theorem moves_or_waits (unfinished : thread.outcome? = none)
    (busy : ∀ slot ∈ thread.computes, state.cell slot = .computing) :
    thread.Moves setting path state ∨ thread.timers setting ≠ [] ∨
      ∃ target, thread.WaitsFor state path target := by
  induction thread with
  | finished => cases unfinished
  | resting => exact .inl moves_resting
  -- A sleeping thread waits for its sleep to be over.
  | sleeping => exact .inr (.inl (by simp [timers]))
  | waiting mark index next =>
    by_cases here : state.cell index = .computing
    · exact .inr (.inr ⟨index, here, fun slot last => by simpa [awaits, waitOf] using last⟩)
    · exact .inl (moves_waiting here)
  | computing mark index body next =>
    -- How far its computation has come makes no difference: it waits for the slot itself.
    refine .inr (.inr ⟨index, busy index (by simp [computes]), fun slot last => ?_⟩)
    rw [awaits]
    exact List.mem_append_left _ (by simpa [waitOf] using last)
  -- The limit is a time to wait for.
  | limited => exact .inr (.inl (by simp [timers]))
  | joining breadth threads next ih =>
    cases gathered : outcomes? threads with
    | some outcomes => exact .inl ⟨_, _, _, @Step.gather _ _ 0 _ _ _ _ _ gathered⟩
    | none =>
      obtain ⟨thread, member, unfinished⟩ := exists_unfinished gathered
      rw [computes] at busy
      rcases ih thread member unfinished
          (fun slot inner => busy slot (mem_computesOfAll.2 ⟨thread, member, inner⟩)) with
        moves | timed | ⟨target, computing, recorded⟩
      · exact .inl (moves.side member)
      · obtain ⟨time, listed⟩ := List.exists_mem_of_ne_nil _ timed
        refine .inr (.inl (List.ne_nil_of_mem (a := time) ?_))
        rw [timers]
        exact mem_timersOfAll.2 ⟨thread, member, listed⟩
      · refine .inr (.inr ⟨target, computing, fun slot last => ?_⟩)
        rw [awaits]
        exact mem_awaitsOfAll.2 ⟨thread, member, recorded slot last⟩

/-- **A thread can take a step when a time that it waits for has come.** -/
theorem moves_of_mem_timers {time : Nat} (waits : time ∈ thread.timers setting)
    (past : time ≤ state.now) : thread.Moves setting path state := by
  induction thread generalizing path with
  | finished | resting | waiting => simp [timers] at waits
  | sleeping mark wakeAt next =>
    simp only [timers, List.mem_singleton] at waits
    subst waits
    exact ⟨_, _, _, @Step.wake _ _ _ mark _ _ _ past⟩
  | computing mark index body next ih =>
    simp only [timers, List.mem_append, Option.mem_toList] at waits
    rcases waits with inner | deadline
    · exact (ih inner).inside
    · refine ⟨_, _, _, @Step.expire _ _ _ mark _ _ _ _ ?_⟩
      rw [State.isOverdue, deadline]
      exact decide_eq_true past
  | limited mark endsAt body next ih =>
    rw [timers, List.mem_append, List.mem_singleton] at waits
    rcases waits with inner | rfl
    · exact (ih inner).beneath
    · exact ⟨_, _, _, @Step.drop _ _ _ mark _ _ _ _ past⟩
  | joining breadth threads next ih =>
    rw [timers] at waits
    obtain ⟨thread, member, listed⟩ := mem_timersOfAll.1 waits
    exact (ih thread member listed).side member

/-- What a computation within a thread does, waits for and has on record, so does the thread. -/
theorem Holds.exists_way (holds : thread.Holds slot body) (path : List Nat) :
    ∃ way, (body.Moves setting (way ++ [slot]) state → thread.Moves setting path state) ∧
      (∀ time ∈ body.timers setting, time ∈ thread.timers setting) ∧
      (∀ wait ∈ body.awaits (way ++ [slot]), wait ∈ thread.awaits path) ∧
      ∀ other ∈ body.computes, other ∈ thread.computes := by
  induction holds generalizing path with
  | here =>
    refine ⟨path, Moves.inside, fun time listed => ?_, fun wait listed => ?_,
      fun other listed => ?_⟩
    · rw [timers]
      exact List.mem_append_left _ listed
    · rw [awaits]
      exact List.mem_append_right _ listed
    · rw [computes]
      exact List.mem_cons_of_mem _ listed
  | @inside _ index _ _ _ _ _ ih =>
    obtain ⟨way, moves, timed, recorded, computed⟩ := ih (path ++ [index])
    refine ⟨way, fun inner => (moves inner).inside, fun time listed => ?_, fun wait listed => ?_,
      fun other listed => ?_⟩
    · rw [timers]
      exact List.mem_append_left _ (timed time listed)
    · rw [awaits]
      exact List.mem_append_right _ (recorded wait listed)
    · rw [computes]
      exact List.mem_cons_of_mem _ (computed other listed)
  | beneath _ ih =>
    obtain ⟨way, moves, timed, recorded, computed⟩ := ih path
    refine ⟨way, fun inner => (moves inner).beneath, fun time listed => ?_, fun wait listed => ?_,
      fun other listed => ?_⟩
    · rw [timers]
      exact List.mem_append_left _ (timed time listed)
    · rw [awaits]
      exact recorded wait listed
    · rw [computes]
      exact computed other listed
  | side member _ ih =>
    obtain ⟨way, moves, timed, recorded, computed⟩ := ih path
    refine ⟨way, fun inner => (moves inner).side member, fun time listed => ?_,
      fun wait listed => ?_, fun other listed => ?_⟩
    · rw [timers]
      exact mem_timersOfAll.2 ⟨_, member, timed time listed⟩
    · rw [awaits]
      exact mem_awaitsOfAll.2 ⟨_, member, recorded wait listed⟩
    · rw [computes]
      exact mem_computesOfAll.2 ⟨_, member, computed other listed⟩

/-- A thread whose computation of a slot is done can take a step. -/
theorem Holds.moves_of_finished {outcome : Outcome}
    (holds : thread.Holds slot (.finished outcome)) :
    thread.Moves setting path state := by
  induction thread generalizing path with
  | finished | resting | sleeping | waiting => cases holds
  | computing mark index body next ih =>
    cases holds with
    | here => exact ⟨_, _, _, @Step.complete _ _ _ mark _ _ _ _⟩
    | inside holds => exact (ih holds).inside
  | limited mark endsAt body next ih =>
    cases holds with
    | beneath holds => exact (ih holds).beneath
  | joining breadth threads next ih =>
    cases holds with
    | side member holds => exact (ih _ member holds).side member

end Thread

/-! ## Sessions -/

/-- One of the requests of a session comes a step further, after whatever else has happened. -/
inductive Session.Goes (setting : Setting) : Session → Trace → Session → Prop where
  /-- Nothing but time may have to pass before the step. -/
  | mk {names threads threads' state between state' trace} (other : state.Meanwhile between)
    (step : Thread.SideStep setting [] threads between trace threads' state') :
    Goes setting ⟨names, threads, state⟩ trace ⟨names, threads', state'⟩

namespace Execution

variable {execution : Execution} {trace trace' : Trace} {session session' : Session}

/-- Where a request leads to can be reached. -/
theorem Reaches.goes (reaches : execution.Reaches trace session)
    (goes : session.Goes execution.setting trace' session') :
    execution.Reaches (trace ++ trace') session' := by
  obtain ⟨other, step⟩ := goes
  have between := reaches.step (.meanwhile other)
  rw [List.append_nil] at between
  exact between.step (.go step)

/-- **Requests do not wait for each other forever.** Taken together they can take a step, or wait
for time to pass. -/
theorem Reaches.moves_or_timers (started : execution.Started)
    (reaches : execution.Reaches trace session) :
    session.requests.Moves execution.setting [] session.state ∨
      session.requests.timers execution.setting ≠ [] := by
  have balanced := reaches.isBalanced started
  by_contra stuck
  obtain ⟨still, timeless⟩ := not_or.1 stuck
  rw [not_not] at timeless
  -- Assume that nothing moves and that nothing waits for time to pass.
  have busy : ∀ slot ∈ session.requests.computes, session.state.cell slot = .computing := by
    intro slot member
    obtain ⟨body, holds⟩ := Thread.mem_computes_iff.1 member
    exact balanced.cell_of_holds holds
  -- Some request waits for a slot, so slots are being computed.
  have nonempty : {slot | session.state.cell slot = .computing}.Nonempty := by
    rcases @Thread.moves_or_waits execution.setting [] session.requests _ rfl busy with
      moves | timed | ⟨target, computing, -⟩
    · exact absurd moves still
    · exact absurd timeless timed
    · exact ⟨target, computing⟩
  -- One of them waits for none of the others.
  obtain ⟨slot, computing, free⟩ := reaches.exists_free started nonempty
  obtain ⟨body, holds⟩ := balanced.exists_holds computing
  obtain ⟨way, moves, timed, recorded, computed⟩ :=
    @Thread.Holds.exists_way execution.setting _ _ session.state _ holds []
  cases ended : body.outcome? with
  | some outcome =>
    cases body with
    | finished => exact still holds.moves_of_finished
    | _ => cases ended
  | none =>
    rcases @Thread.moves_or_waits execution.setting (way ++ [slot]) body _ ended
        (fun other inner => busy other (computed other inner)) with
      inner | inner | ⟨target, computing', record⟩
    · exact still (moves inner)
    · obtain ⟨time, listed⟩ := List.exists_mem_of_ne_nil _ inner
      have listed' := timed time listed
      rw [timeless] at listed'
      cases listed'
    -- It waits for a slot that is being computed, so for one of the others after all.
    · refine free target computing' ((reaches.edge_iff started).2 ?_)
      exact recorded _ (record slot List.getLast?_concat)

/-- **As long as a request is not answered, some request can come a step further**, at the latest
when time has passed. -/
theorem Reaches.exists_goes (started : execution.Started)
    (reaches : execution.Reaches trace session) (unquiet : ¬session.IsQuiet) :
    ∃ trace' session', session.Goes execution.setting trace' session' := by
  -- At once, or when the clock has moved to a time that a request waits for.
  have later : ∃ state, session.state.Meanwhile state ∧
      session.requests.Moves execution.setting [] state := by
    rcases reaches.moves_or_timers started with moves | timed
    · exact ⟨session.state, .refl _, moves⟩
    · obtain ⟨time, listed⟩ := List.exists_mem_of_ne_nil _ timed
      refine ⟨session.state.moveClock time, session.state.meanwhile_moveClock time,
        Thread.moves_of_mem_timers listed ?_⟩
      change time ≤ session.state.now + (time - session.state.now)
      omega
  obtain ⟨state, other, trace', thread', state', step⟩ := later
  generalize same : session.requests = requests at step
  cases step with
  | side step =>
    -- The step is one of the requests. That they come together is no step of a session.
    obtain ⟨names, threads, _⟩ := session
    cases same
    exact ⟨_, ⟨names, _, state'⟩, .mk other (.mk step)⟩
  | gather finished =>
    cases same
    exact absurd ⟨_, finished⟩ unquiet
  | _ => cases same

end Execution

end RuleGraph
