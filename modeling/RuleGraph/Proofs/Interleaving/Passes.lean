import RuleGraph.Proofs.Interleaving.Termination

/-! # Enough passes

`Thread.gather` stops after a number of passes whether it is done or not. Every pass makes at least
one step, so there is a number of passes with which it is done.

* **`Thread.IsTidy`** — how threads are left when they have run.
* **`Thread.isTidy_start`**, **`Thread.isTidy_resume`** — starting and resuming leave them so.
* **`Thread.woken_of_step`** — a tidy thread that can take a step was woken by something.
* **`Execution.Reaches.runSide_returns`** — with enough passes, requests side by side have outcomes.
-/

namespace RuleGraph

namespace Thread

/-! ## Tidy threads -/

/-- A thread is left so that nothing is finished in it that it could go on from at once. -/
inductive IsTidy : Thread → Prop where
  /-- It is finished itself. -/
  | finished {outcome} : IsTidy (.finished outcome)
  /-- It is at rest. -/
  | resting {mark next} : IsTidy (.resting mark next)
  /-- It is asleep. -/
  | sleeping {mark wakeAt next} : IsTidy (.sleeping mark wakeAt next)
  /-- It waits. -/
  | waiting {mark index next} : IsTidy (.waiting mark index next)
  /-- The slot that it computes is not done. -/
  | computing {mark index body next} (inner : IsTidy body) (unfinished : body.outcome? = none) :
    IsTidy (.computing mark index body next)
  /-- What it runs for some time is not done. -/
  | limited {mark endsAt body next} (inner : IsTidy body) (unfinished : body.outcome? = none) :
    IsTidy (.limited mark endsAt body next)
  /-- Not all threads side by side are finished. -/
  | joining {breadth threads next} (inner : ∀ thread ∈ threads, IsTidy thread)
    (unfinished : outcomes? threads = none) : IsTidy (.joining breadth threads next)

variable {setting : Setting} {path : List Nat} {index : Nat} {thread thread' : Thread}
  {threads : List Thread} {next : Outcome → Routine} {state state' : State} {trace : Trace}
  {enter : List Nat → Nat → StateM State Thread}

/-- Computing a slot leaves a tidy thread if entering it does. -/
theorem isTidy_compute (entered : ∀ state, (enter path index state).1.IsTidy) (state : State) :
    (compute setting enter path index state).1.IsTidy := by
  cases late : state.isOverdue setting index with
  | true =>
    rw [compute_of_late late]
    exact .finished
  | false =>
    rw [compute_of_early late]
    have tidy := entered (state.begin index)
    generalize enter path index (state.begin index) = result at tidy
    obtain ⟨body, after⟩ := result
    cases body with
    | finished => exact .finished
    | _ => exact tidy

/-- Taking over the computation of a slot leaves a tidy thread. -/
theorem isTidy_takeOver (entered : ∀ state, (enter path index state).1.IsTidy)
    (go : ∀ outcome state, (startWith setting enter path (next outcome) state).1.IsTidy)
    (state : State) :
    let run : StateM State Thread := do
      match ← compute setting enter path index with
      | .finished outcome => startWith setting enter path (next outcome)
      | body => return .computing (← newMark) index body next
    (run state).1.IsTidy := by
  simp only [bind_apply]
  -- If the slot is done the thread goes on, and else what computes it is not finished.
  have tidy := @isTidy_compute setting _ _ _ entered state
  generalize compute setting enter path index state = computed at tidy
  obtain ⟨body, after⟩ := computed
  cases body with
  | finished outcome => exact go outcome after
  | _ => exact .computing tidy rfl

/-- Threads side by side are left tidy whether they come together or not. -/
theorem isTidy_together {breadth : Nat} {next : List Outcome → Routine}
    {go : Routine → StateM State Thread} (tidy : ∀ thread ∈ threads, thread.IsTidy)
    (each : ∀ outcomes state, (go (next outcomes) state).1.IsTidy) (state : State) :
    let run : StateM State Thread :=
      match outcomes? threads with
      | some outcomes => go (next outcomes)
      | none => return .joining breadth threads next
    (run state).1.IsTidy := by
  cases gathered : outcomes? threads with
  | some outcomes => exact each outcomes state
  | none => exact .joining tidy gathered

/-- Threads that are made one after the other are tidy if each of them is. -/
theorem isTidy_mapM {α : Type} {run : α → StateM State Thread} {items : List α}
    (each : ∀ item ∈ items, ∀ state, (run item state).1.IsTidy) (state : State) :
    ∀ thread ∈ (items.mapM run state).1, thread.IsTidy := by
  induction items generalizing state with
  | nil =>
    rw [List.mapM_nil]
    simp [pure_apply]
  | cons item rest ih =>
    rw [List.mapM_cons]
    simp only [bind_apply, pure_apply]
    intro thread member
    rcases List.mem_cons.1 member with rfl | later
    · exact each item List.mem_cons_self state
    · exact ih (fun other listed => each other (List.mem_cons_of_mem _ listed)) _ thread later

/-- Several routines are started one after the other. -/
theorem startAllWith_eq_mapM {routines : List Routine} :
    startAllWith setting enter path routines = routines.mapM (startWith setting enter path) := by
  induction routines with
  | nil => rw [startAllWith, List.mapM_nil]
  | cons routine rest ih => rw [startAllWith, ih, List.mapM_cons]

/-- **Starting a routine leaves a tidy thread** if entering slots does. -/
theorem isTidy_startWith (entered : ∀ path index state, (enter path index state).1.IsTidy)
    (routine : Routine) (state : State) :
    (startWith setting enter path routine state).1.IsTidy := by
  induction routine generalizing state with
  | done =>
    rw [startWith_done]
    exact .finished
  | perform _ _ ih =>
    rw [startWith]
    exact ih _
  | invoke _ _ _ ih =>
    rw [startWith]
    exact ih _ _
  | pause =>
    rw [startWith]
    exact .resting
  | sleep _ _ ih =>
    rw [startWith]
    split
    · exact ih state
    · exact .sleeping
  | fetch index next ih =>
    rw [startWith]
    simp only [bind_apply, modifyGet_apply]
    generalize state.request setting path index = requested
    obtain ⟨request, after⟩ := requested
    cases request with
    | answered outcome => exact ih outcome after
    | delayed => exact .waiting
    | granted => exact isTidy_takeOver (entered path index) ih after
  | within milliseconds child next onChild onNext =>
    rw [startWith]
    simp only [bind_apply, get_apply]
    have tidy := onChild state
    generalize startWith setting enter path child state = started at tidy
    obtain ⟨body, after⟩ := started
    -- What is not done is left only if its limit has some length.
    cases body with
    | finished outcome => exact onNext _ after
    | _ =>
      dsimp only
      split
      · exact onNext _ _
      · exact .limited tidy rfl
  | join breadth children next onChildren onNext =>
    rw [startWith, startAllWith_eq_mapM]
    simp only [bind_apply]
    exact isTidy_together (isTidy_mapM onChildren state) onNext _

/-- Entering a slot leaves a tidy thread. -/
theorem isTidy_enter (depth : Nat) (path : List Nat) (index : Nat) (state : State) :
    (Thread.enter setting depth path index state).1.IsTidy := by
  induction depth generalizing path index state with
  | zero =>
    rw [Thread.enter]
    exact .finished
  | succ depth ih =>
    rw [Thread.enter]
    exact isTidy_startWith ih _ state

/-- Starting a routine leaves a tidy thread. -/
theorem isTidy_start (routine : Routine) (state : State) :
    (start setting path routine state).1.IsTidy :=
  isTidy_startWith (isTidy_enter _) routine state

/-- Resuming those of several threads that can go on leaves them tidy. -/
theorem isTidy_resumeWoken {resumers : List (StateM State Thread)}
    (each : ∀ run ∈ resumers, ∀ state, (run state).1.IsTidy) {count : Nat} {places : List Nat}
    (tidy : ∀ thread ∈ threads, thread.IsTidy) (state : State) :
    ∀ thread ∈ (resumeWoken setting resumers count places threads state).1, thread.IsTidy := by
  induction count generalizing places threads state with
  | zero =>
    rw [resumeWoken]
    exact tidy
  | succ count ih =>
    rw [resumeWoken]
    simp only [bind_apply, get_apply]
    cases firstWoken? setting state threads places with
    | none => exact tidy
    | some place =>
      simp only
      cases found : resumers[place]? with
      | none => exact tidy
      | some run =>
        refine ih (fun thread member => ?_) _
        -- The thread at the place is the one that was resumed, and all others are as they were.
        rcases List.mem_or_eq_of_mem_set member with old | rfl
        · exact tidy thread old
        · exact each run (List.mem_of_getElem? found) state

/-- A pass over tidy threads leaves tidy threads. -/
theorem isTidy_resumeSide {breadth : Nat} (tidy : ∀ thread ∈ threads, thread.IsTidy)
    (each : ∀ thread ∈ threads, ∀ state, (resume setting path thread state).1.IsTidy)
    (state : State) :
    ∀ thread ∈ (resumeSide setting breadth threads (resumers setting path threads) state).1,
      thread.IsTidy := by
  have runs : ∀ run ∈ threads.map (resume setting path), ∀ state, (run state).1.IsTidy := by
    intro run listed state
    obtain ⟨thread, member, rfl⟩ := List.mem_map.1 listed
    exact each thread member state
  rw [resumers_eq_map, resumeSide]
  split
  · exact isTidy_mapM runs state
  · exact isTidy_resumeWoken runs tidy state

/-- **Resuming a tidy thread leaves a tidy thread.** -/
theorem isTidy_resume (tidy : thread.IsTidy) (path : List Nat) (state : State) :
    (resume setting path thread state).1.IsTidy := by
  induction tidy generalizing path state with
  | finished =>
    rw [resume_finished]
    exact .finished
  | resting =>
    rw [resume]
    exact isTidy_start _ state
  | @sleeping mark wakeAt next =>
    rw [resume_sleeping]
    split
    · exact isTidy_start _ state
    · exact .sleeping
  | @waiting mark index next =>
    rw [resume]
    simp only [bind_apply, get_apply]
    cases state.cell index with
    | settled outcome => exact isTidy_start _ _
    | computing => exact .waiting
    | idle =>
      exact isTidy_takeOver (isTidy_enter _ path index) (fun outcome => isTidy_start (next outcome))
        state
  | @computing mark index body next _ _ ih =>
    rw [resume_computing]
    have inner := ih (path ++ [index]) state
    generalize resume setting (path ++ [index]) body state = resumed at inner
    obtain ⟨body', after⟩ := resumed
    dsimp only at inner ⊢
    -- A computation that is finished or late is left, so it stays only if it is neither.
    cases ended : body'.outcome? with
    | some outcome => exact isTidy_start _ _
    | none =>
      dsimp only
      split
      · exact isTidy_start _ _
      · exact .computing inner ended
  | @limited mark endsAt body next _ _ ih =>
    rw [resume_limited]
    have inner := ih path state
    generalize resume setting path body state = resumed at inner
    obtain ⟨body', after⟩ := resumed
    dsimp only at inner ⊢
    cases ended : body'.outcome? with
    | some outcome => exact isTidy_start _ _
    | none =>
      dsimp only
      split
      · exact isTidy_start _ _
      · exact .limited inner ended
  | joining inner _ ih =>
    rw [resume]
    simp only [bind_apply]
    exact isTidy_together
      (isTidy_resumeSide inner (fun thread member => ih thread member path) state)
      (fun outcomes => isTidy_start _) _

/-! ## Woken threads -/

/-- **A tidy thread that can take a step was woken by something.** -/
theorem woken_of_step (step : Step setting path thread state trace thread' state')
    (tidy : thread.IsTidy) : wakeKey? setting state thread ≠ none := by
  induction step with
  | finish | perform | invoke | pause | sleep | reuse | refuse | await | limit | join =>
    simp [wakeKey?]
  | wake late => simp [wakeKey?, late]
  | hear settled => simp [wakeKey?, settled]
  | giveUp idle | answer idle | compute idle => simp [wakeKey?, idle]
  | complete =>
    cases tidy with
    | computing _ unfinished => cases unfinished
  | expire late =>
    rw [State.isOverdue] at late
    rw [wakeKey?, ne_eq, WakeKey.least?_eq_none_iff]
    -- The deadline has passed, so it is among the keys.
    rintro ⟨-, never⟩
    split at late
    · rename_i deadline found
      rw [found] at never
      simp only [of_decide_eq_true late, ↓reduceIte, reduceCtorEq] at never
    · cases late
  | inside _ ih =>
    cases tidy with
    | computing inner =>
      rw [wakeKey?, ne_eq, WakeKey.least?_eq_none_iff]
      rintro ⟨asleep, -⟩
      exact ih inner asleep
  | beneath _ ih =>
    cases tidy with
    | limited inner =>
      rw [wakeKey?, ne_eq, WakeKey.least?_eq_none_iff]
      rintro ⟨asleep, -⟩
      exact ih inner asleep
  | conclude =>
    cases tidy with
    | limited _ unfinished => cases unfinished
  | drop late =>
    rw [wakeKey?, ne_eq, WakeKey.least?_eq_none_iff]
    -- The limit has passed, so it is among the keys.
    rintro ⟨-, never⟩
    simp only [late, ↓reduceIte, reduceCtorEq] at never
  | side _ ih =>
    cases tidy with
    | joining inner =>
      rw [wakeKey?, ne_eq, firstWakeKey?_eq_none_iff]
      exact fun asleep => ih (inner _ (by simp)) (asleep _ (by simp))
  | gather finished =>
    cases tidy with
    | joining _ unfinished =>
      rw [finished] at unfinished
      cases unfinished

/-- Nothing wakes finished threads, and they wait for nothing. -/
theorem asleep_of_outcomes? {outcomes : List Outcome} (finished : outcomes? threads = some outcomes)
    (member : thread ∈ threads) :
    wakeKey? setting state thread = none ∧ thread.timers setting = [] := by
  rw [outcomes?_eq_some_iff.1 finished] at member
  obtain ⟨outcome, -, rfl⟩ := List.mem_map.1 member
  exact ⟨by rw [wakeKey?], by rw [timers]⟩

/-- **Something wakes tidy threads once time has passed**, if something woke them before or they
wait for time to pass. -/
theorem woken_passTime (tidy : ∀ thread ∈ threads, thread.IsTidy)
    (alive : firstWakeKey? setting state threads ≠ none ∨ timersOfAll setting threads ≠ []) :
    firstWakeKey? setting (passTime setting threads state) threads ≠ none := by
  rw [passTime]
  split
  · rename_i woken
    exact Option.isSome_iff_ne_none.1 woken
  · rename_i asleep
    cases earliest : (timersOfAll setting threads).min? with
    | none =>
      -- Nothing woke them and they wait for no time, against the hypothesis.
      have timed := alive.resolve_left fun woken => asleep (Option.isSome_iff_ne_none.2 woken)
      exact absurd (List.min?_eq_none_iff.1 earliest) timed
    | some time =>
      obtain ⟨thread, member, listed⟩ := mem_timersOfAll.1 (List.min?_mem earliest)
      -- The clock moves to the least time that one of them waits for, and that one can take a step.
      have past : time ≤ (state.moveClock time).now := by
        change time ≤ state.now + (time - state.now)
        omega
      obtain ⟨_, _, _, step⟩ := @moves_of_mem_timers _ [] _ _ _ listed past
      rw [ne_eq, firstWakeKey?_eq_none_iff]
      exact fun never => woken_of_step step (tidy thread member) (never thread member)

end Thread

/-! ## Passes -/

namespace Execution

variable {execution : Execution} {trace trace' : Trace} {session : Session}

/-- Requests that are not all answered were woken, or wait for time to pass, once all earlier ones
are answered. -/
theorem Reaches.alive (started : execution.Started) {names : List String}
    {earlier threads : List Thread} {outcomes : List Outcome} {state : State}
    (reaches : execution.Reaches trace ⟨names, earlier ++ threads, state⟩)
    (quiet : Thread.outcomes? earlier = some outcomes)
    (unfinished : Thread.outcomes? threads = none)
    (tidy : ∀ thread ∈ threads, thread.IsTidy) :
    Thread.firstWakeKey? execution.setting state threads ≠ none ∨
      Thread.timersOfAll execution.setting threads ≠ [] := by
  -- Earlier requests are finished, so whatever can happen happens to the further ones.
  have all : ∀ thread ∈ earlier ++ threads, thread.IsTidy := by
    intro thread member
    rcases List.mem_append.1 member with old | new
    · rw [Thread.outcomes?_eq_some_iff.1 quiet] at old
      obtain ⟨outcome, -, rfl⟩ := List.mem_map.1 old
      exact .finished
    · exact tidy thread new
  have unquiet : Thread.outcomes? (earlier ++ threads) = none := by
    rw [Thread.outcomes?_append, quiet, unfinished]
    rfl
  rcases reaches.moves_or_timers started with ⟨_, _, _, step⟩ | timed
  · have woken := Thread.woken_of_step step (.joining all unquiet)
    refine .inl fun asleep => woken ?_
    rw [Session.requests, Thread.wakeKey?, Thread.firstWakeKey?_eq_none_iff]
    intro thread member
    rcases List.mem_append.1 member with old | new
    · exact (Thread.asleep_of_outcomes? quiet old).1
    · exact Thread.firstWakeKey?_eq_none_iff.1 asleep thread new
  · obtain ⟨time, listed⟩ := List.exists_mem_of_ne_nil _ timed
    rw [Session.requests, Thread.timers] at listed
    obtain ⟨thread, member, waits⟩ := Thread.mem_timersOfAll.1 listed
    rcases List.mem_append.1 member with old | new
    · rw [(@Thread.asleep_of_outcomes? _ _ _ state _ quiet old).2] at waits
      cases waits
    · exact .inr (List.ne_nil_of_mem (Thread.mem_timersOfAll.2 ⟨thread, new, waits⟩))

/-- **With enough passes, threads of the host are gathered**, once all earlier requests are
answered. -/
theorem Reaches.gather_returns (started : execution.Started) {names : List String}
    {earlier threads threads' : List Thread} {before : List Outcome} {state state' : State}
    (reaches : execution.Reaches trace ⟨names, earlier ++ threads, state⟩)
    (quiet : Thread.outcomes? earlier = some before)
    (runs : RunsAlone (Thread.SideStep execution.setting []) threads state trace' threads' state')
    (tidy : ∀ thread ∈ threads', thread.IsTidy) (breadth : Nat) :
    ∃ enough outcomes last, ∀ passes, enough ≤ passes →
      Thread.gather execution.setting breadth passes threads' state' = (some outcomes, last) := by
  -- Requests come to an end, so there are only finitely many passes that do something.
  have ends := reaches.ends started
  generalize same : Session.mk names (earlier ++ threads) state = session at ends
  induction ends generalizing trace threads state threads' state' trace' with
  | intro session _ ih =>
    subst same
    rcases runs.first with ⟨rfl, other⟩ | ⟨between, _, _, _, _, other, -, step, rest⟩
    · -- Nothing has happened yet, so the next pass makes the first step.
      cases ended : Thread.outcomes? threads' with
      | some outcomes =>
        refine ⟨0, outcomes, state', fun passes _ => ?_⟩
        cases passes with
        | zero => rw [Thread.gather, ended]; rfl
        | succ passes => rw [Thread.gather, ended]; rfl
      | none =>
        have here := reaches.step (.meanwhile other.meanwhile)
        have fits : ∀ thread ∈ threads', thread.Fits execution.setting [] := fun thread member =>
          reaches.fits started.linked thread (List.mem_append_right _ member)
        -- Not all are finished, so something wakes them, and the pass makes a step.
        have woken := Thread.woken_passTime tidy (here.alive started quiet ended tidy)
        rcases Thread.pass_proceeds started.linked breadth fits
            (Thread.passTime execution.setting threads' state') with
          ⟨-, -, asleep⟩ | ⟨_, first, rest⟩
        · exact absurd asleep woken
        · have goes : Session.Goes execution.setting ⟨names, earlier ++ threads', state⟩ _ _ :=
            .mk (other.trans Thread.elapses_passTime).meanwhile (first.append earlier)
          obtain ⟨enough, outcomes, last, done⟩ := ih _ ⟨_, goes⟩ (reaches.goes goes) rest
            (Thread.isTidy_resumeSide tidy
              (fun thread member => Thread.isTidy_resume (tidy thread member) []) _) rfl
          refine ⟨enough + 1, outcomes, last, fun passes more => ?_⟩
          -- The first pass is this one, and the others are enough for the rest.
          obtain ⟨passes, rfl⟩ : ∃ fewer, passes = fewer + 1 := ⟨passes - 1, by omega⟩
          rw [Thread.gather, ended]
          exact done passes (by omega)
    · have goes : Session.Goes execution.setting ⟨names, earlier ++ threads, state⟩ _ _ :=
        .mk other.meanwhile (step.append earlier)
      exact ih _ ⟨_, goes⟩ (reaches.goes goes) rest tidy rfl

/-- **With enough passes, requests made side by side have outcomes**, and more passes change
nothing, if all earlier requests are answered. -/
theorem Reaches.runSide_returns (started : execution.Started)
    (reaches : execution.Reaches trace session) (quiet : session.IsQuiet) (breadth : Nat)
    (names : List String) :
    ∃ enough outcomes last, ∀ passes, enough ≤ passes →
      { execution with state := session.state }.runSide passes breadth
        (names.map execution.setting.fetchNamed) =
          (some outcomes, { execution with state := last }) := by
  obtain ⟨before, quiet⟩ := quiet
  -- Starting the requests in turn is the first part of the run.
  have called := reaches.calls names 0
  have fits : ∀ thread ∈ (names.map execution.setting.fetchNamed).map (Thread.resting 0),
      thread.Fits execution.setting [] := fun thread member =>
    called.fits started.linked thread (List.mem_append_right _ member)
  obtain ⟨_, first⟩ := (Thread.mapM_resume_proceeds
    (fun thread member state =>
      Thread.resume_proceeds started.linked .nil (fits thread member) state) session.state).runs
  rw [← Thread.mapM_start] at first
  have tidy : ∀ thread ∈ ((names.map execution.setting.fetchNamed).mapM
      (Thread.start execution.setting []) session.state).1, thread.IsTidy :=
    Thread.isTidy_mapM (fun routine _ => Thread.isTidy_start routine) session.state
  obtain ⟨enough, outcomes, last, done⟩ := called.gather_returns started quiet first tidy breadth
  refine ⟨enough, outcomes, last, fun passes more => ?_⟩
  have gathered := done passes more
  rw [runSide]
  simp only [StateT.run, bind_apply, gathered]

end Execution

end RuleGraph
