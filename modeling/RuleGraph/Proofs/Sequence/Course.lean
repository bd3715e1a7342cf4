import RuleGraph.Proofs.Interleaving.Passes
import RuleGraph.Proofs.Sequence.Sound

/-! # Threads on their course

What a routine comes to, the threads that it leaves behind come to as well, however often they
suspend.

* **`Thread.start_join`**, **`Thread.takeUp`**, … — what starting and resuming come down to.
* **`Thread.HeadsFor`** — a thread comes to where a routine starts.
* **`Setting.Comes`** — a thread is there, or it has suspended on its course.
* **`Setting.start_comes`**, **`Setting.resume_comes`** — started or resumed, so does every thread.
-/

namespace RuleGraph

open Relation

/-! ## Starting and resuming -/

namespace Thread

variable {setting : Setting} {state state' : State} {path : List Nat} {index mark breadth : Nat}
  {outcome : Outcome} {next : Outcome → Routine} {routine : Routine}

/-- A routine that has ended. -/
theorem start_done : start setting path (.done outcome) state = (.finished outcome, state) := rfl

/-- An effect first. -/
theorem start_perform {effect : Effect} {rest : Routine} :
    start setting path (.perform effect rest) state =
      start setting path rest (state.perform setting effect) := by
  rw [start, startWith]
  rfl

/-- An invocation first. -/
theorem start_invoke {function : EntryKey} {args : List Value} {rest : Nat → Routine} :
    start setting path (.invoke function args rest) state =
      start setting path (rest ((state.invoke function args).invocationCount function))
        (state.invoke function args) := by
  rw [start, startWith]
  rfl

/-- A pause comes before the rest. -/
theorem start_pause : start setting path (.pause routine) state =
    (.resting state.mark routine, state.tick) := by
  rw [start, startWith]
  rfl

/-- A sleep of no length does not suspend. -/
theorem start_sleep {milliseconds : Nat} : start setting path (.sleep milliseconds routine) state =
    if milliseconds = 0 then start setting path routine state
    else (.sleeping state.mark (state.now + milliseconds) routine, state.tick) := by
  rw [start, startWith]
  exact apply_ite (fun run : StateM State Thread => run state) _ _ _

/-- Routines side by side are started one after the other. Once all of them are done, what follows
is started. -/
theorem start_join {children : List Routine} {rest : List Outcome → Routine}
    {threads : List Thread}
    (ran : children.mapM (start setting path) state = (threads, state')) :
    start setting path (.join breadth children rest) state =
      match outcomes? threads with
      | some outcomes => start setting path (rest outcomes) state'
      | none => (.joining breadth threads rest, state') := by
  rw [start, startWith, startAllWith_eq_mapM]
  simp only [bind_apply]
  rw [show children.mapM (startWith setting (enter setting (setting.graph.size - path.length))
    path) state = _ from ran]
  cases outcomes? threads <;> rfl

/-- A request for a slot whose outcome is kept is answered at once. -/
theorem start_fetch_of_kept (kept : state.outcome? index = some outcome) :
    start setting path (.fetch index next) state = start setting path (next outcome) state := by
  rw [start, startWith]
  simp only [bind_apply, modifyGet_apply, State.request, kept]
  rfl

/-- A request for a slot that is being computed has to wait. -/
theorem start_fetch_of_delayed (delayed : state.request setting path index = (.delayed, state')) :
    start setting path (.fetch index next) state =
      (.waiting state'.mark index next, state'.tick) := by
  rw [start, startWith]
  simp only [bind_apply, modifyGet_apply, delayed]
  rfl

/-- Compute a slot for a request, and go on with its outcome once it is there. -/
def takeUp (setting : Setting) (path : List Nat) (index : Nat) (next : Outcome → Routine)
    (state : State) : Thread × State :=
  let ran := start setting (path ++ [index]) (setting.slotRoutine index) (state.begin index)
  match ran.1.outcome? with
  | some outcome => start setting path (next outcome) (ran.2.answer path index outcome)
  | none => (.computing ran.2.mark index ran.1 next, ran.2.tick)

/-- To enter a slot is to start its routine, as long as the path leaves room for more. -/
theorem enter_eq_start (shorter : path.length < setting.graph.size) (state : State) :
    enter setting (setting.graph.size - path.length) path index state =
      start setting (path ++ [index]) (setting.slotRoutine index) state := by
  obtain ⟨depth, deep⟩ : ∃ depth, setting.graph.size - path.length = depth + 1 :=
    ⟨setting.graph.size - path.length - 1, by omega⟩
  have less : setting.graph.size - (path ++ [index]).length = depth := by
    rw [List.length_append, List.length_singleton]
    omega
  rw [deep, enter, ← less]
  rfl

/-- What follows the computation of a slot for a request. -/
theorem compute_then {enter : List Nat → Nat → StateM State Thread}
    (timeless : setting.featureTimeout = none)
    (entered : enter path index (state.begin index) =
      start setting (path ++ [index]) (setting.slotRoutine index) (state.begin index)) :
    (let ran := compute setting enter path index state
     match ran.1 with
     | .finished outcome => start setting path (next outcome) ran.2
     | body => (.computing ran.2.mark index body next, ran.2.tick)) =
      takeUp setting path index next state := by
  rw [compute_of_early (State.isOverdue_eq_false timeless), entered, takeUp]
  generalize start setting (path ++ [index]) (setting.slotRoutine index) (state.begin index) = ran
  obtain ⟨body, after⟩ := ran
  cases body <;> rfl

/-- A request that is granted is taken up. -/
theorem start_fetch_of_granted (timeless : setting.featureTimeout = none)
    (shorter : path.length < setting.graph.size)
    (granted : state.request setting path index = (.granted, state')) :
    start setting path (.fetch index next) state = takeUp setting path index next state' := by
  rw [← compute_then timeless (enter_eq_start shorter _), start, startWith]
  simp only [bind_apply, modifyGet_apply, granted]
  generalize compute setting (enter setting (setting.graph.size - path.length)) path index state' =
    ran
  obtain ⟨body, after⟩ := ran
  cases body <;> rfl

/-- A thread that waits goes on once the slot is done, or takes it up if nobody computes it. -/
theorem resume_waiting (timeless : setting.featureTimeout = none)
    (shorter : path.length < setting.graph.size) :
    resume setting path (.waiting mark index next) state =
      match state.cell index with
      | .settled outcome _ => start setting path (next outcome) (state.removeWait path index)
      | .computing => (.waiting mark index next, state)
      | .idle _ => takeUp setting path index next state := by
  have entered : enterFrom setting path index (state.begin index) =
      start setting (path ++ [index]) (setting.slotRoutine index) (state.begin index) :=
    enter_eq_start shorter _
  rw [← compute_then timeless entered, resume]
  simp only [bind_apply, get_apply]
  cases state.cell index with
  | settled => rfl
  | computing => rfl
  | idle =>
    simp only [bind_apply]
    generalize compute setting (enterFrom setting) path index state = ran
    obtain ⟨body, after⟩ := ran
    cases body <;> rfl

/-! ## Passes -/

/-- What holds of a member of one list and the member of the other list in the same place. -/
theorem exists_getElem?_of_forall₂ {α β : Type} {r : α → β → Prop} {as : List α} {bs : List β}
    {place : Nat} {a : α} (all : List.Forall₂ r as bs) (found : as[place]? = some a) :
    ∃ b, bs[place]? = some b ∧ r a b := by
  obtain ⟨bound, rfl⟩ := List.getElem?_eq_some_iff.1 found
  have bound' := all.length_eq ▸ bound
  exact ⟨bs[place], List.getElem?_eq_getElem bound', all.get bound bound'⟩

/-- What holds of the members of two lists in the same places, with another member in one place. -/
theorem forall₂_set {α β : Type} {r : α → β → Prop} {as : List α} {bs : List β} {place : Nat}
    {a' : α} (length : as.length = bs.length) (here : ∀ b, bs[place]? = some b → r a' b)
    (others : ∀ other a b, other ≠ place → as[other]? = some a → bs[other]? = some b → r a b) :
    List.Forall₂ r (as.set place a') bs := by
  refine List.forall₂_iff_get.2 ⟨List.length_set.trans length, fun other bound bound' => ?_⟩
  rw [List.get_eq_getElem, List.get_eq_getElem]
  by_cases same : other = place
  · subst same
    rw [List.getElem_set_self]
    exact here _ (List.getElem?_eq_getElem bound')
  · rw [List.getElem_set_ne (Ne.symm same)]
    exact others other _ _ same (List.getElem?_eq_getElem _) (List.getElem?_eq_getElem bound')

/-- Something is kept when any of several threads is resumed, wherever it stands among others. -/
def ResumeKeeps (setting : Setting) (path : List Nat) (motive : List Thread → State → Prop)
    (threads : List Thread) : Prop :=
  ∀ current state place, ∀ thread ∈ threads, motive current state →
    current[place]? = some thread →
      motive (current.set place (resume setting path thread state).1)
        (resume setting path thread state).2

section

variable {motive : List Thread → State → Prop} {threads current : List Thread}

/-- What is kept when one thread after the other is resumed. -/
theorem mapM_resume_keeps
    (each : ResumeKeeps setting path motive threads) (before : List Thread)
    (now : motive (before ++ threads) state) :
    motive (before ++ ((threads.map (resume setting path)).mapM id state).1)
      ((threads.map (resume setting path)).mapM id state).2 := by
  induction threads generalizing before state with
  | nil => exact now
  | cons thread rest ih =>
    have here := each _ _ before.length thread List.mem_cons_self now (by simp)
    rw [List.set_append_right _ _ (Nat.le_refl _), Nat.sub_self, List.set_cons_zero,
      List.append_cons] at here
    have later := ih (fun current state place thread member =>
      each current state place thread (List.mem_cons_of_mem _ member)) _ here
    rw [List.append_assoc] at later
    rw [List.map_cons, List.mapM_cons]
    exact later

/-- What is kept when those threads are resumed that can go on. -/
theorem resumeWoken_keeps
    (each : ResumeKeeps setting path motive threads)
    {resumers : List (StateM State Thread)} {places : List Nat} (nodup : places.Nodup)
    (fits : ∀ place ∈ places, ∃ thread ∈ threads, current[place]? = some thread ∧
      resumers[place]? = some (resume setting path thread)) (count : Nat)
    (now : motive current state) :
    motive (resumeWoken setting resumers count places current state).1
      (resumeWoken setting resumers count places current state).2 := by
  induction count generalizing places current state with
  | zero =>
    rw [resumeWoken]
    exact now
  | succ count ih =>
    rw [resumeWoken]
    simp only [bind_apply, get_apply]
    cases woken : firstWoken? setting state current places with
    | none => exact now
    | some place =>
      obtain ⟨thread, member, found, resumer⟩ := fits place (mem_of_firstWoken? woken)
      simp only [resumer, bind_apply]
      -- The place is not asked again, so all others still hold the threads that they held.
      refine ih (nodup.erase place) (fun other later => ?_)
        (each _ _ place thread member now found)
      obtain ⟨distinct, listed⟩ := nodup.mem_erase_iff.1 later
      rw [List.getElem?_set_ne (Ne.symm distinct)]
      exact fits other listed

/-- **What every thread keeps when it is resumed, a pass over threads side by side keeps.** -/
theorem resumeSide_keeps
    (each : ResumeKeeps setting path motive threads) (breadth : Nat) (now : motive threads state) :
    motive (resumeSide setting breadth threads (resumers setting path threads) state).1
      (resumeSide setting breadth threads (resumers setting path threads) state).2 := by
  rw [resumers_eq_map, resumeSide]
  split
  · exact mapM_resume_keeps each [] now
  · refine resumeWoken_keeps each List.nodup_range (fun place member => ?_) _ now
    have found := List.getElem?_eq_getElem (List.mem_range.1 member)
    refine ⟨_, List.getElem_mem _, found, ?_⟩
    rw [List.getElem?_map, found, Option.map_some]

end

end Thread

/-! ## Heading for something -/

/-- A thread of a slot comes to where a routine starts. -/
inductive Thread.HeadsFor (setting : Setting) (results : Results) :
    Nat → Thread → Routine → Prop where
  /-- It has ended. -/
  | finished {slot outcome} : HeadsFor setting results slot (.finished outcome) (.done outcome)
  /-- Its routine comes there. -/
  | resting {slot mark next goal} (rest : setting.HeadsFor results slot next goal) :
    HeadsFor setting results slot (.resting mark next) goal
  /-- Its routine comes there. -/
  | sleeping {slot mark wakeAt next goal} (rest : setting.HeadsFor results slot next goal) :
    HeadsFor setting results slot (.sleeping mark wakeAt next) goal
  /-- It waits for a plain slot. -/
  | waiting {slot mark index next goal} (edge : Leads setting.graph.edges slot index)
    (plain : setting.graph.IsPlain index)
    (rest : setting.HeadsFor results slot (next (setting.known results (setting.graph.name index)))
      goal) : HeadsFor setting results slot (.waiting mark index next) goal
  /-- It computes a plain slot. -/
  | computing {slot mark index body next goal} (edge : Leads setting.graph.edges slot index)
    (plain : setting.graph.IsPlain index) (waits : setting.MayWait index)
    (inner : HeadsFor setting results index body
      (.done (setting.known results (setting.graph.name index))))
    (rest : setting.HeadsFor results slot (next (setting.known results (setting.graph.name index)))
      goal) : HeadsFor setting results slot (.computing mark index body next) goal
  /-- It runs threads side by side. -/
  | joining {slot breadth threads outcomes next goal}
    (length : threads.length = outcomes.length)
    (each : ∀ {thread outcome}, (thread, outcome) ∈ threads.zip outcomes →
      HeadsFor setting results slot thread (.done outcome))
    (rest : setting.HeadsFor results slot (next outcomes) goal) :
    HeadsFor setting results slot (.joining breadth threads next) goal

/-- What has become of a thread of the last slot of a path: it is where a routine starts, or it has
suspended on its course. Nobody has seen it. -/
inductive Setting.Comes (setting : Setting) (results : Results) (path : List Nat) (slot : Nat)
    (goal : Routine) (state : State) (ran : Thread × State) : Prop where
  /-- It is there. -/
  | there {state' : State} (moves : State.Moves setting (fun _ => False) [] state state')
    (sound : state'.IsSound setting results path)
    (same : ran = Thread.start setting path goal state')
  /-- It has suspended. -/
  | suspended (waits : setting.MayWait slot) (heads : ran.1.HeadsFor setting results slot goal)
    (unfinished : ran.1.outcome? = none)
    (moves : State.Moves setting (fun _ => False) [] state ran.2)
    (sound : ran.2.IsSound setting results path)

namespace Setting

open Thread

variable {setting : Setting} {results : Results} {state state' : State} {path : List Nat}
  {slot index mark : Nat} {ran : Thread × State} {routine goal : Routine} {outcome : Outcome}
  {outcomes : List Outcome} {thread : Thread} {threads : List Thread}

namespace Comes

/-- What happens before is not seen either. -/
theorem after (moves : State.Moves setting (fun _ => False) [] state state')
    (comes : setting.Comes results path slot goal state' ran) :
    setting.Comes results path slot goal state ran := by
  cases comes with
  | there moves' sound same => exact .there (moves.trans moves') sound same
  | suspended waits heads unfinished moves' sound =>
    exact .suspended waits heads unfinished (moves.trans moves') sound

/-- A thread that comes to an end is finished, or it may have to wait. -/
theorem of_done (comes : setting.Comes results path slot (.done outcome) state ran) :
    ran.1.HeadsFor setting results slot (.done outcome) ∧
      (¬setting.MayWait slot → ran.1 = .finished outcome) ∧
      State.Moves setting (fun _ => False) [] state ran.2 ∧
      ran.2.IsSound setting results path := by
  cases comes with
  | there moves sound same =>
    rw [same]
    exact ⟨.finished, fun _ => rfl, moves, sound⟩
  | suspended waits heads _ moves sound =>
    exact ⟨heads, fun prompt => absurd waits prompt, moves, sound⟩

end Comes

/-- Threads that have ended are those of the outcomes that they head for. -/
theorem eq_of_outcomes? {outcomes' : List Outcome} (ended : outcomes? threads = some outcomes')
    (each : List.Forall₂ (fun thread outcome =>
      thread.HeadsFor setting results slot (.done outcome)) threads outcomes) :
    outcomes' = outcomes := by
  rw [outcomes?_eq_some_iff.1 ended, List.forall₂_map_left_iff] at each
  rw [← List.forall₂_eq_eq_eq]
  refine each.imp fun outcome outcome' heads => ?_
  cases heads
  rfl

/-- What follows threads side by side that head for outcomes. -/
theorem comes_joined {breadth : Nat} {next : List Outcome → Routine}
    (each : List.Forall₂ (fun thread outcome =>
      thread.HeadsFor setting results slot (.done outcome)) threads outcomes)
    (prompt : ¬setting.MayWait slot → threads = outcomes.map .finished)
    (rest : setting.HeadsFor results slot (next outcomes) goal)
    (sound : state.IsSound setting results path)
    (go : setting.Comes results path slot goal state (start setting path (next outcomes) state)) :
    setting.Comes results path slot goal state
      (match outcomes? threads with
      | some outcomes => start setting path (next outcomes) state
      | none => (.joining breadth threads next, state)) := by
  cases ended : outcomes? threads with
  | some outcomes' =>
    rw [eq_of_outcomes? ended each]
    exact go
  | none =>
    obtain ⟨length, each⟩ := List.forall₂_iff_zip.1 each
    refine .suspended ?_ (.joining length each rest) rfl .refl sound
    by_contra waits
    rw [prompt waits, outcomes?_eq_some_iff.2 rfl] at ended
    cases ended

/-- Routines that head for outcomes do so one after the other. -/
theorem mapM_comes {children : List Routine}
    (each : ∀ child ∈ children, ∀ goal state, setting.HeadsFor results slot child goal →
      state.IsSound setting results path →
      setting.Comes results path slot goal state (start setting path child state))
    (heads : List.Forall₂ (fun child outcome =>
      setting.HeadsFor results slot child (.done outcome)) children outcomes)
    (sound : state.IsSound setting results path) :
    ∃ threads state', children.mapM (start setting path) state = (threads, state') ∧
      List.Forall₂ (fun thread outcome => thread.HeadsFor setting results slot (.done outcome))
        threads outcomes ∧
      (¬setting.MayWait slot → threads = outcomes.map .finished) ∧
      State.Moves setting (fun _ => False) [] state state' ∧
      state'.IsSound setting results path := by
  induction heads generalizing state with
  | nil => exact ⟨[], state, rfl, .nil, fun _ => rfl, .refl, sound⟩
  | cons first _ ih =>
    obtain ⟨heads, prompt, moves, sound'⟩ := (each _ List.mem_cons_self _ state first sound).of_done
    obtain ⟨threads, state'', others, each', prompt', moves', sound''⟩ :=
      ih (fun child member => each child (List.mem_cons_of_mem _ member)) sound'
    refine ⟨_, state'', ?_, .cons heads each', fun waits => ?_, moves.trans moves', sound''⟩
    · rw [List.mapM_cons]
      simp only [bind_apply, others]
      rfl
    · rw [prompt waits, prompt' waits, List.map_cons]

/-- Threads that head for outcomes do so in a pass. -/
theorem resumeSide_comes
    (each : ∀ thread ∈ threads, ∀ outcome state,
      thread.HeadsFor setting results slot (.done outcome) →
      state.IsSound setting results path →
      setting.Comes results path slot (.done outcome) state (resume setting path thread state))
    (breadth : Nat) (heads : List.Forall₂ (fun thread outcome =>
      thread.HeadsFor setting results slot (.done outcome)) threads outcomes)
    (sound : state.IsSound setting results path) :
    List.Forall₂ (fun thread outcome => thread.HeadsFor setting results slot (.done outcome))
        (resumeSide setting breadth threads (resumers setting path threads) state).1 outcomes ∧
      State.Moves setting (fun _ => False) [] state
        (resumeSide setting breadth threads (resumers setting path threads) state).2 ∧
      (resumeSide setting breadth threads (resumers setting path threads) state).2.IsSound
        setting results path := by
  refine @resumeSide_keeps setting state path (fun threads state' =>
    List.Forall₂ (fun thread outcome => thread.HeadsFor setting results slot (.done outcome))
        threads outcomes ∧ State.Moves setting (fun _ => False) [] state state' ∧
      state'.IsSound setting results path) threads ?_ breadth ⟨heads, .refl, sound⟩
  rintro current state' place thread member ⟨heads, moves, sound⟩ found
  obtain ⟨outcome, named, head⟩ := exists_getElem?_of_forall₂ heads found
  obtain ⟨head', -, moves', sound'⟩ := (each thread member outcome state' head sound).of_done
  refine ⟨forall₂_set heads.length_eq (fun other same => ?_) fun place other outcome _ found' => ?_,
    moves.trans moves', sound'⟩
  · rw [named, Option.some_inj] at same
    exact same ▸ head'
  · intro named'
    obtain ⟨_, same, head⟩ := exists_getElem?_of_forall₂ heads found'
    rw [named', Option.some_inj] at same
    exact same ▸ head

section

variable (orderly : setting.IsOrderly results)
include orderly

/-- A plain slot that is taken up comes to what the reference evaluator says, and what follows goes
on with it. -/
theorem comes_takeUp {next : Outcome → Routine}
    (edge : Leads setting.graph.edges slot index) (plain : setting.graph.IsPlain index)
    (below : ∀ goal state, setting.HeadsFor results index (setting.slotRoutine index) goal →
      state.IsSound setting results (path ++ [index]) →
      setting.Comes results (path ++ [index]) index goal state
        (start setting (path ++ [index]) (setting.slotRoutine index) state))
    (rest : setting.HeadsFor results slot
      (next (setting.known results (setting.graph.name index))) goal)
    (go : ∀ state, state.IsSound setting results path → setting.Comes results path slot goal state
      (start setting path (next (setting.known results (setting.graph.name index))) state))
    (sound : state.IsSound setting results path) :
    setting.Comes results path slot goal state (takeUp setting path index next state) := by
  have begun : State.Moves setting (fun _ => False) [] state (state.begin index) :=
    .of_unseen ⟨rfl, rfl, rfl⟩ fun other apart _ =>
      State.cell_setCell_ne fun same => apart (same ▸ plain)
  have comes := below _ _ (headsFor_slotRoutine orderly plain) (sound.begin plain.bound)
  rw [takeUp]
  generalize start setting (path ++ [index]) (setting.slotRoutine index) (state.begin index) = ran
    at comes
  cases comes with
  | @there state' moves sound' same =>
    subst same
    have answered : State.Moves setting (fun _ => False) [] state' (state'.answer path index
        (setting.known results (setting.graph.name index))) :=
      .of_unseen .answer fun other apart _ =>
        State.cell_answer_ne fun same => apart (same ▸ plain)
    exact (go _ (sound'.answer plain.bound fun _ => rfl)).after
      ((begun.trans moves).trans answered)
  | suspended waits heads unfinished moves sound' =>
    simp only [unfinished]
    refine .suspended (waits.of_leads edge) (.computing edge plain waits heads rest) rfl
      ((begun.trans moves).trans (.of_unseen ⟨rfl, rfl, rfl⟩ fun _ _ _ => rfl)) ?_
    exact (sound'.beside waits).congr rfl rfl

/-- **A routine that is started comes to where it heads for**, or suspends on its course. -/
theorem start_comes (way : setting.graph.IsWay path) (last : path.getLast? = some slot)
    (heads : setting.HeadsFor results slot routine goal)
    (sound : state.IsSound setting results path) :
    setting.Comes results path slot goal state (start setting path routine state) := by
  have grounded : Grounded setting.graph.edges slot :=
    orderly.grounded (way.bound slot (List.mem_of_getLast? last))
  -- Induction on what the slot depends on, and then on the routine.
  induction grounded generalizing path routine goal state with
  | intro slot _ below =>
    induction routine generalizing goal state with
    | done | perform | within =>
      cases heads
      exact .there .refl sound rfl
    | invoke function args next ih =>
      cases heads with
      | here => exact .there .refl sound rfl
      | invoke value rest =>
        have invoked : (state.invoke function args).IsSound setting results path :=
          sound.congr rfl rfl
        have moves : State.Moves setting (fun _ => False) [] state (state.invoke function args) :=
          ⟨fun _ _ _ => rfl, .invoke value args, rfl⟩
        rw [start_invoke]
        exact (ih _ (rest _) invoked).after moves
    | pause next ih =>
      cases heads with
      | here => exact .there .refl sound rfl
      | pause waits rest =>
        rw [start_pause]
        exact .suspended waits (.resting rest) rfl (.of_unseen ⟨rfl, rfl, rfl⟩ fun _ _ _ => rfl)
          (sound.congr rfl rfl)
    | sleep milliseconds next ih =>
      cases heads with
      | here => exact .there .refl sound rfl
      | sleep waits rest =>
        rw [start_sleep]
        split
        · exact ih rest sound
        · rename_i long
          exact .suspended (waits.resolve_left long) (.sleeping rest) rfl
            (.of_unseen ⟨rfl, rfl, rfl⟩ fun _ _ _ => rfl) (sound.congr rfl rfl)
    | fetch index next ih =>
      cases heads with
      | here => exact .there .refl sound rfl
      | fetch edge plain rest =>
        have along : ∀ other ∈ path.getLast?, Leads setting.graph.edges other index := by
          intro other here
          rw [last, Option.mem_some_iff] at here
          exact here ▸ edge
        have ahead := orderly.grounded plain.bound
        have longer := way.concat plain.bound ahead along
        have waiting : State.Moves setting (fun _ => False) [] state (state.addWait path index) :=
          .of_unseen .addWait fun _ _ _ => State.cell_congr State.cells_addWait
        cases kept : state.outcome? index with
        | some outcome =>
          rw [start_fetch_of_kept kept, sound.agrees index outcome plain kept]
          exact ih _ rest sound
        | none =>
          have asked := sound.request way ahead (orderly.acyclic index plain.bound) along kept
          by_cases busy : state.cell index = .computing
          · rw [busy] at asked
            rw [start_fetch_of_delayed asked]
            have waits : setting.MayWait index := by
              refine (sound.busy index busy).resolve_left fun member => ?_
              exact ahead.not_transGen (way.transGen along member)
            exact .suspended (waits.of_leads edge) (.waiting edge plain rest) rfl
              (waiting.trans (.of_unseen ⟨rfl, rfl, rfl⟩ fun _ _ _ => rfl))
              ((sound.addWait along).congr rfl rfl)
          · have granted : state.request setting path index =
                (.granted, state.addWait path index) := by
              rw [asked]
              cases here : state.cell index with
              | computing => exact absurd here busy
              | idle | settled => rfl
            rw [start_fetch_of_granted orderly.timeless longer.length_lt granted]
            refine (comes_takeUp orderly edge plain (fun goal state => ?_) rest
              (fun state => ih _ rest) (sound.addWait along)).after waiting
            exact below index edge longer List.getLast?_concat
    | join breadth children next onChildren ih =>
      cases heads with
      | here => exact .there .refl sound rfl
      | join each rest =>
        obtain ⟨threads, state', ran, heads, prompt, moves, sound'⟩ :=
          mapM_comes (fun child member goal state => onChildren child member) each sound
        rw [start_join ran]
        exact (comes_joined heads prompt rest sound' (ih _ rest sound')).after moves

/-- **A thread that is resumed comes to where it heads for**, or suspends on its course. -/
theorem resume_comes (way : setting.graph.IsWay path) (last : path.getLast? = some slot)
    (waits : setting.MayWait slot) (heads : thread.HeadsFor setting results slot goal)
    (sound : state.IsSound setting results path) :
    setting.Comes results path slot goal state (resume setting path thread state) := by
  induction thread generalizing slot path goal state with
  | finished outcome =>
    cases heads
    rw [resume_finished]
    exact .there .refl sound rfl
  | resting mark next =>
    cases heads with
    | resting rest =>
      rw [resume]
      exact start_comes orderly way last rest sound
  | sleeping mark wakeAt next =>
    cases heads with
    | sleeping rest =>
      rw [resume_sleeping]
      split
      · exact start_comes orderly way last rest sound
      · exact .suspended waits (.sleeping rest) rfl .refl sound
  | waiting mark index next =>
    cases heads with
    | waiting edge plain rest =>
      have along : ∀ other ∈ path.getLast?, Leads setting.graph.edges other index := by
        intro other here
        rw [last, Option.mem_some_iff] at here
        exact here ▸ edge
      have longer := way.concat plain.bound (orderly.grounded plain.bound) along
      rw [resume_waiting orderly.timeless longer.length_lt]
      cases here : state.cell index with
      | settled outcome since =>
        have known := sound.agrees index outcome plain (by rw [State.outcome?, here]; rfl)
        have moves : State.Moves setting (fun _ => False) [] state (state.removeWait path index) :=
          .of_unseen .removeWait fun _ _ _ => State.cell_congr State.cells_removeWait
        exact known ▸ (start_comes orderly way last rest sound.removeWait).after moves
      | computing => exact .suspended waits (.waiting edge plain rest) rfl .refl sound
      | idle since =>
        refine comes_takeUp orderly edge plain (fun goal state => ?_) rest
          (fun state => start_comes orderly way last rest) sound
        exact start_comes orderly longer List.getLast?_concat
  | computing mark index body next ih =>
    cases heads with
    | computing edge plain slow inner rest =>
      have along : ∀ other ∈ path.getLast?, Leads setting.graph.edges other index := by
        intro other here
        rw [last, Option.mem_some_iff] at here
        exact here ▸ edge
      have longer := way.concat plain.bound (orderly.grounded plain.bound) along
      have comes := ih longer List.getLast?_concat slow inner (sound.deeper index)
      rw [resume_computing]
      generalize resume setting (path ++ [index]) body state = ran at comes
      cases comes with
      | @there state' moves sound' same =>
        subst same
        have answered : State.Moves setting (fun _ => False) [] state' (state'.answer path index
            (setting.known results (setting.graph.name index))) :=
          .of_unseen .answer fun other apart _ =>
            State.cell_answer_ne fun same => apart (same ▸ plain)
        exact (start_comes orderly way last rest
          (sound'.answer plain.bound fun _ => rfl)).after (moves.trans answered)
      | suspended _ heads' unfinished moves sound' =>
        simp only [unfinished, State.isOverdue_eq_false orderly.timeless]
        exact .suspended waits (.computing edge plain slow heads' rest) rfl moves
          (sound'.beside slow)
  | limited => cases heads
  | joining breadth threads next ih =>
    cases heads with
    | @joining _ _ _ outcomes _ _ length each rest =>
      obtain ⟨heads, moves, sound'⟩ := resumeSide_comes
        (fun thread member outcome state => ih thread member way last waits) breadth
        (List.forall₂_iff_zip.2 ⟨length, each⟩) sound
      rw [resume_joining]
      exact (comes_joined heads (absurd waits) rest sound'
        (start_comes orderly way last rest sound')).after moves

end

end Setting

end RuleGraph
