import RuleGraph.Proofs.Interleaving.Schedule
import RuleGraph.Proofs.Reference.Agreement

/-! # The parts of a run

A thread that comes to its outcome while nobody else does anything does so part by part, as its
routine is made: the threads side by side come to theirs before the routine goes on, and a slot is
computed before the request for it is answered.

* **`Thread.of_runs_join`** — a routine that spreads out, and what comes after it.
* **`Thread.of_runs_computing`** — the computation of a slot, and what comes after it.
* **`Thread.of_runs_fetch`** — the host requests an idle slot.
-/

namespace RuleGraph

namespace Thread

variable {setting : Setting} {path : List Nat} {index mark breadth : Nat}
  {thread thread' : Thread} {threads threads' : List Thread} {state state' : State}
  {trace : Trace} {outcome outcome' : Outcome}

/-- A single thread runs by itself. -/
theorem runs_of_singleton
    (runs : RunsAlone (SideStep setting path) [thread] state trace threads' state') :
    ∃ thread', threads' = [thread'] ∧
      RunsAlone (Step setting path) thread state trace thread' state' := by
  generalize here : [thread] = threads at runs
  induction runs generalizing thread with
  | refl => exact ⟨thread, here.symm, .refl _ _⟩
  | step first _ ih =>
    obtain @⟨before, _, _, after, _, _, _, step⟩ := first
    -- The thread that makes the step is the only one.
    obtain ⟨rfl, same⟩ | ⟨_, _, rest⟩ := List.append_eq_cons_iff.1 here.symm
    · obtain ⟨rfl, rfl⟩ := List.cons.inj same
      obtain ⟨thread', rfl, runs⟩ := ih rfl
      exact ⟨thread', rfl, .step step runs⟩
    · simp at rest
  | meanwhile other _ ih =>
    obtain ⟨thread', rfl, runs⟩ := ih here
    exact ⟨thread', rfl, .meanwhile other runs⟩

/-- Once the routine is at its end only time passes. -/
theorem of_runs_done
    (runs : RunsAlone (Step setting path) (.resting mark (.done outcome)) state trace
      (.finished outcome') state') : outcome' = outcome ∧ state.Elapses state' := by
  rcases runs.first with ⟨same, -⟩ | ⟨between, _, _, _, _, before, -, step, rest⟩
  · cases same
  · cases step with
    | finish =>
      rcases rest.first with ⟨same, after⟩ | ⟨_, _, _, _, _, -, -, step, -⟩
      · cases same
        exact ⟨rfl, before.trans after⟩
      · cases step

/-- Threads side by side come to their outcomes, and then the routine goes on. -/
theorem of_runs_joining {next : List Outcome → Routine}
    (runs : RunsAlone (Step setting path) (.joining breadth threads next) state trace
      (.finished outcome) state') :
    ∃ outcomes between mark' trace' trace'',
      RunsAlone (SideStep setting path) threads state trace' (outcomes.map .finished) between ∧
      RunsAlone (Step setting path) (.resting mark' (next outcomes)) between trace''
        (.finished outcome) state' := by
  generalize here : Thread.joining breadth threads next = thread at runs
  generalize there : Thread.finished outcome = thread' at runs
  induction runs generalizing threads with
  | refl =>
    subst here
    cases there
  | step first rest ih =>
    subst here
    cases first with
    | side step =>
      obtain ⟨outcomes, between, mark', _, _, side, later⟩ := ih rfl there
      exact ⟨outcomes, between, mark', _, _, .step (.mk step) side, later⟩
    | @gather _ mark' _ _ outcomes _ _ finished =>
      subst there
      rw [outcomes?_eq_some_iff] at finished
      subst finished
      exact ⟨outcomes, _, mark', _, _, .refl _ _, rest⟩
  | meanwhile other _ ih =>
    obtain ⟨outcomes, between, mark', _, _, side, later⟩ := ih here there
    exact ⟨outcomes, between, mark', _, _, .meanwhile other side, later⟩

/-- **A routine that spreads out** comes to the outcomes of all routines side by side, and then goes
on. -/
theorem of_runs_join {children : List Routine} {next : List Outcome → Routine}
    (runs : RunsAlone (Step setting path) (.resting mark (.join breadth children next)) state trace
      (.finished outcome) state') :
    ∃ outcomes between first mark' mark'' trace' trace'', state.Elapses first ∧
      RunsAlone (SideStep setting path) (children.map (.resting mark')) first trace'
        (outcomes.map .finished) between ∧
      RunsAlone (Step setting path) (.resting mark'' (next outcomes)) between trace''
        (.finished outcome) state' := by
  rcases runs.first with ⟨same, -⟩ | ⟨first, _, _, _, _, before, -, step, rest⟩
  · cases same
  · cases step with
    | @join _ _ mark' =>
      obtain ⟨outcomes, between, mark'', _, _, side, later⟩ := of_runs_joining rest
      exact ⟨outcomes, between, first, mark', mark'', _, _, before, side, later⟩

/-- Routines side by side that run to their outcomes make a routine that spreads out go on. -/
theorem runs_of_join {children : List Routine} {next : List Outcome → Routine} {mark' : Nat}
    {outcomes : List Outcome}
    (side : RunsAlone (SideStep setting path) (children.map (.resting mark')) state trace
      (outcomes.map .finished) state') (mark'' : Nat) :
    RunsAlone (Step setting path) (.resting mark (.join breadth children next)) state
      ([] ++ (trace ++ ([] ++ []))) (.resting mark'' (next outcomes)) state' :=
  .step .join <| (runs_joining side).trans <|
    .step (.gather (outcomes?_eq_some_iff.2 rfl)) (.refl _ _)

/-- Without a deadline, **a slot is computed before the request for it is answered**. -/
theorem of_runs_computing (timeless : setting.featureTimeout = none) {body : Thread}
    {next : Outcome → Routine}
    (runs : RunsAlone (Step setting path) (.computing mark index body next) state trace
      (.finished outcome) state') :
    ∃ own between mark' trace' trace'',
      RunsAlone (Step setting (path ++ [index])) body state trace' (.finished own) between ∧
      RunsAlone (Step setting path) (.resting mark' (next own)) (between.answer path index own)
        trace'' (.finished outcome) state' := by
  generalize here : Thread.computing mark index body next = thread at runs
  generalize there : Thread.finished outcome = thread' at runs
  induction runs generalizing body with
  | refl =>
    subst here
    cases there
  | step first rest ih =>
    subst here
    cases first with
    | inside step =>
      obtain ⟨own, between, mark', _, _, inner, later⟩ := ih rfl there
      exact ⟨own, between, mark', _, _, .step step inner, later⟩
    | @complete _ _ mark' _ _ own =>
      subst there
      exact ⟨own, _, mark', _, _, .refl _ _, rest⟩
    | expire late => simp [State.isOverdue_eq_false timeless] at late
  | meanwhile other _ ih =>
    obtain ⟨own, between, mark', _, _, inner, later⟩ := ih here there
    exact ⟨own, between, mark', _, _, .meanwhile other inner, later⟩

/-- **The host requests an idle slot** that takes its time and knows no cycle: the slot is computed
and answered. -/
theorem of_runs_fetch (timeless : setting.featureTimeout = none)
    (runs : RunsAlone (Step setting []) (.resting mark (.fetch index .done)) state trace
      (.finished outcome) state') {since : Nat} (idle : state.cell index = .idle since)
    (acyclic : setting.graph.cycleFrom? index = none)
    (long : ∀ outcome, setting.slotRoutine index ≠ .done outcome) :
    ∃ first last mark' trace', state.Elapses first ∧
      RunsAlone (Step setting [index]) (.resting mark' (setting.slotRoutine index))
        (first.begin index) trace' (.finished outcome) last ∧
      (last.answer [] index outcome).Elapses state' := by
  rcases runs.first with ⟨same, -⟩ | ⟨asked, _, _, _, _, before, -, step, rest⟩
  · cases same
  have idle' : asked.cell index = .idle since := (State.cell_congr before.cells).trans idle
  have free : asked.cycleOf? setting [] index = none := by
    rw [State.cycleOf?, acyclic]
    rfl
  cases step with
  | reuse known => simp [State.outcome?, idle', Cell.outcome?] at known
  | refuse _ cycle => simp [free] at cycle
  | await =>
    -- The slot is computed by the request itself.
    rcases rest.first with ⟨same, -⟩ | ⟨first, _, _, _, _, between, -, step, rest⟩
    · cases same
    have idle'' : first.cell index = .idle since := (State.cell_congr between.cells).trans idle'
    cases step with
    | hear settled => simp [idle''] at settled
    | giveUp _ late => simp [State.isOverdue_eq_false timeless] at late
    | answer _ _ plain => exact absurd plain (long _)
    | @compute _ _ _ mark' =>
      obtain ⟨own, last, _, _, _, inner, later⟩ := of_runs_computing timeless rest
      obtain ⟨rfl, after⟩ := of_runs_done later
      exact ⟨first, last, mark', _, before.trans between, inner, after⟩

end Thread

/-! ## A request of the host -/

/-- Running requests leads from session to session. -/
theorem Session.Leads.runs {setting : Setting} {first : Session} {trace trace' : Trace}
    {names : List String} {threads threads' : List Thread} {state state' : State}
    (before : Leads setting first trace ⟨names, threads, state⟩)
    (runs : Runs (Thread.SideStep setting []) threads state trace' threads' state') :
    Leads setting first (trace ++ trace') ⟨names, threads', state'⟩ := by
  induction runs generalizing trace with
  | refl => simpa using before
  | step first _ ih =>
    rw [← List.append_assoc]
    exact ih (before.step (.go first))
  | meanwhile first _ ih => exact ih (by simpa using before.step (.meanwhile first))

namespace Execution

variable {execution execution' : Execution} {session : Session} {trace : Trace} {name : String}
  {outcome : Outcome} {passes : Nat}

/-- A request that the host makes by itself runs to its outcome. -/
theorem runs_of_fetch (linked : execution.setting.graph.Linked)
    (fetched : execution.fetch passes name = (some outcome, execution')) :
    ∃ trace, RunsAlone (Thread.Step execution.setting [])
      (.resting 0 (execution.setting.fetchNamed name)) execution.state trace (.finished outcome)
      execution'.state := by
  obtain ⟨trace, threads, runs, same⟩ := runSide_runs linked passes 1 [name]
  obtain ⟨thread, rfl, alone⟩ := Thread.runs_of_singleton runs
  have answered : (execution.runSide passes 1 ([name].map execution.setting.fetchNamed)).1 >>=
      List.head? = some outcome := congrArg Prod.fst fetched
  have left : (execution.runSide passes 1 ([name].map execution.setting.fetchNamed)).2 =
      execution' := congrArg Prod.snd fetched
  -- The only thread is the one whose outcome the host gets.
  rw [left] at alone
  rw [same] at answered
  cases ended : thread.outcome? with
  | none => simp [Thread.outcomes?, ended] at answered
  | some own =>
    have only : own = outcome := by simpa [Thread.outcomes?, ended] using answered
    rw [Thread.outcome?_eq_some_iff, only] at ended
    subst ended
    exact ⟨trace, alone⟩

/-- A request for the slot at a place runs to its outcome, from whatever state. -/
theorem runs_of_fetch_place (linked : execution.setting.graph.Linked) {index : Nat}
    (place : execution.setting.graph.indexOf? name = some index) {state : State}
    (fetched : { execution with state }.fetch passes name = (some outcome, execution')) :
    ∃ trace, RunsAlone (Thread.Step execution.setting []) (.resting 0 (.fetch index .done)) state
      trace (.finished outcome) execution'.state := by
  have runs := @runs_of_fetch { execution with state } _ _ _ _ linked fetched
  rwa [Setting.fetchNamed, place] at runs

/-- **A request that the host makes by itself leads from session to session**, and is answered. -/
theorem Reaches.leads_of_fetch (started : execution.Started)
    (reaches : execution.Reaches trace session)
    (fetched : { execution with state := session.state }.fetch passes name =
      (some outcome, execution')) :
    ∃ trace' session', Session.Leads execution.setting session trace' session' ∧
      session'.state = execution'.state ∧
      session'.state.Answers execution.setting name outcome := by
  obtain ⟨trace', alone⟩ :=
    @runs_of_fetch { execution with state := session.state } _ _ _ _ started.linked fetched
  have beside := (@Thread.runs_head _ _ _ _ [] _ _ _ _ alone).runs.map
    (fun threads => session.threads ++ threads) fun step => step.append _
  have called : Session.Leads execution.setting session ([] ++ []) _ :=
    .step .refl (.call name 0)
  have leads := called.runs beside
  refine ⟨_, _, leads, rfl, ?_⟩
  -- The further request stands behind the earlier ones, whose names and threads are as many.
  have all := List.forall₂_drop session.names.length ((reaches.leads leads).isRequest started)
  have aligned := (reaches.isRequest started).length_eq
  rw [List.drop_left, aligned, List.drop_left] at all
  cases all with
  | cons isRequest _ =>
    cases isRequest with
    | finished answer => exact answer

end Execution

end RuleGraph
