import RuleGraph.Proofs.Interleaving.Start
import Mathlib.Data.List.Induction

/-! # The schedule

What `Thread.gather` does is one of the interleavings: resuming a thread and making a pass over
threads side by side come down to steps. Nothing happens only if nothing woke any of them.

* **`Proceeds`** — nothing happens, for some reason, or at least one step is made.
* **`Thread.resume_proceeds`** — to resume a thread is to make steps, unless nothing woke it.
* **`Thread.resumeSide_proceeds`** — so is a pass over threads side by side.
* **`Execution.reaches_of_runSide`** — requests made side by side lead to a session.
-/

namespace RuleGraph

/-! ## Proceeding -/

/-- Nothing happens, and there is a reason, or at least one step is made. -/
def Proceeds {α : Type} (step : α → State → Trace → α → State → Prop) (reason : Prop) (a : α)
    (state : State) (b : α) (state' : State) : Prop :=
  (b = a ∧ state' = state ∧ reason) ∨ ∃ trace, Advances step a state trace b state'

section

variable {α β : Type} {step : α → State → Trace → α → State → Prop}
  {step' : β → State → Trace → β → State → Prop} {reason reason' reason'' : Prop} {a b c : α}
  {state state' state'' : State} {trace : Trace}

/-- Nothing happens. -/
theorem Proceeds.refl (because : reason) : Proceeds step reason a state a state :=
  .inl ⟨rfl, rfl, because⟩

/-- To advance is to proceed. -/
theorem Advances.proceeds (advances : Advances step a state trace b state') :
    Proceeds step reason a state b state' := .inr ⟨trace, advances⟩

/-- To proceed is to run. -/
theorem Proceeds.runs (proceeds : Proceeds step reason a state b state') :
    ∃ trace, RunsAlone step a state trace b state' := by
  rcases proceeds with ⟨rfl, rfl, -⟩ | ⟨trace, advances⟩
  · exact ⟨[], .refl _ _⟩
  · exact ⟨trace, advances.runs⟩

/-- To proceed twice is to proceed. Nothing happens only if there are both reasons for it. -/
theorem Proceeds.trans (first : Proceeds step reason a state b state')
    (second : Proceeds step reason' b state' c state'')
    (both : state' = state → reason → reason' → reason'') :
    Proceeds step reason'' a state c state'' := by
  rcases first with ⟨rfl, rfl, because⟩ | ⟨trace, advances⟩
  · exact second.imp_left fun ⟨same, still, because'⟩ => ⟨same, still, both rfl because because'⟩
  · obtain ⟨_, runs⟩ := second.runs
    exact (advances.trans runs).proceeds

/-- To proceed and then advance is to advance. -/
theorem Proceeds.advances (first : Proceeds step reason a state b state')
    (second : Advances step b state' trace c state'') :
    Proceeds step reason' a state c state'' :=
  first.trans (@Advances.proceeds _ _ False _ _ _ _ _ second) fun _ _ never => never.elim

/-- What is seen as a step of something else makes it proceed. -/
theorem Proceeds.map (view : α → β)
    (lift : ∀ {a b state state' trace}, step a state trace b state' →
      step' (view a) state trace (view b) state')
    (proceeds : Proceeds step reason a state b state') :
    Proceeds step' reason (view a) state (view b) state' := by
  rcases proceeds with ⟨rfl, rfl, because⟩ | ⟨trace, advances⟩
  · exact .refl because
  · exact (advances.map view lift).proceeds

end

/-! ## Waking up -/

namespace Thread

/-- There is no least key only if there is no key at all. -/
theorem WakeKey.least?_eq_none_iff {a b : Option WakeKey} :
    WakeKey.least? a b = none ↔ a = none ∧ b = none := by
  cases a <;> cases b <;> simp [WakeKey.least?]

/-- The least of two keys is one of them. -/
theorem WakeKey.least?_eq_or (a b : Option WakeKey) :
    WakeKey.least? a b = a ∨ WakeKey.least? a b = b := by
  cases a with
  | none => exact .inr (by cases b <;> rfl)
  | some a =>
    cases b with
    | none => exact .inl rfl
    | some b =>
      rw [WakeKey.least?, WakeKey.least]
      split
      · exact .inl rfl
      · exact .inr rfl

/-- The least of several keys is one of them, and there is one if there are keys. -/
theorem WakeKey.of_foldl_least? {key? : Nat → Option WakeKey} {places : List Nat}
    {start found : Option WakeKey}
    (least : places.foldl (fun found place => WakeKey.least? found (key? place)) start = found) :
    (found = start ∨ ∃ place ∈ places, key? place = found) ∧
      (found = none → start = none ∧ ∀ place ∈ places, key? place = none) := by
  induction places generalizing start with
  | nil => exact ⟨.inl least.symm, fun none => ⟨least.trans none, by simp⟩⟩
  | cons place rest ih =>
    obtain ⟨one, all⟩ := ih least
    refine ⟨?_, fun none => ?_⟩
    · rcases one with same | ⟨later, member, same⟩
      · rcases WakeKey.least?_eq_or start (key? place) with first | second
        · exact .inl (same.trans first)
        · exact .inr ⟨place, List.mem_cons_self, (same.trans second).symm⟩
      · exact .inr ⟨later, List.mem_cons_of_mem _ member, same⟩
    · obtain ⟨both, others⟩ := all none
      obtain ⟨before, here⟩ := WakeKey.least?_eq_none_iff.1 both
      refine ⟨before, fun later member => ?_⟩
      rcases List.mem_cons.1 member with rfl | member
      · exact here
      · exact others later member

variable {setting : Setting} {path : List Nat} {index mark breadth : Nat}
  {thread thread' : Thread} {threads threads' rest : List Thread} {next : Outcome → Routine}
  {state state' : State} {trace : Trace}

/-- Nothing woke several threads if nothing woke any of them. -/
theorem firstWakeKey?_eq_none_iff : firstWakeKey? setting state threads = none ↔
    ∀ thread ∈ threads, wakeKey? setting state thread = none := by
  induction threads with
  | nil => simp [firstWakeKey?]
  | cons thread rest ih => simp [firstWakeKey?, WakeKey.least?_eq_none_iff, ih]

/-- If none of the threads asked for goes on first, nothing woke any of them. -/
theorem wakeKey?_of_firstWoken? {places : List Nat}
    (none : firstWoken? setting state threads places = none) {place : Nat} (member : place ∈ places)
    (found : threads[place]? = some thread) : wakeKey? setting state thread = .none := by
  rw [firstWoken?] at none
  generalize least : places.foldl _ _ = earliest at none
  obtain ⟨one, all⟩ := WakeKey.of_foldl_least? least
  cases earliest with
  | none =>
    have here := (all rfl).2 place member
    rwa [found] at here
  | some key =>
    rcases one with absurd | ⟨first, listed, same⟩
    · cases absurd
    -- The thread whose key is the least goes on first.
    · have nowhere := List.find?_eq_none.1 none first listed
      exact absurd same (by simpa using nowhere)

/-- What goes on first is one of the threads asked for. -/
theorem mem_of_firstWoken? {places : List Nat} {place : Nat}
    (woken : firstWoken? setting state threads places = some place) : place ∈ places := by
  obtain ⟨key, -, found⟩ := Option.bind_eq_some_iff.1 woken
  exact List.mem_of_find?_eq_some found

/-! ## Resuming -/

/-- Every thread is resumed the same way. -/
theorem resumers_eq_map : resumers setting path threads = threads.map (resume setting path) := by
  induction threads with
  | nil => rw [resumers, List.map_nil]
  | cons thread rest ih => rw [resumers, ih, List.map_cons]

/-- Threads proceed when all of them are resumed in turn. -/
theorem mapM_resume_proceeds
    (each : ∀ thread ∈ threads, ∀ state, Proceeds (Step setting path)
      (wakeKey? setting state thread = none) thread state
      (resume setting path thread state).1 (resume setting path thread state).2) (state : State) :
    Proceeds (SideStep setting path) (firstWakeKey? setting state threads = none) threads state
      ((threads.map (resume setting path)).mapM id state).1
      ((threads.map (resume setting path)).mapM id state).2 := by
  induction threads generalizing state with
  | nil => exact .refl rfl
  | cons thread rest ih =>
    have first := each thread (by simp) state
    have others := ih (fun later member => each later (by simp [member]))
      (resume setting path thread state).2
    rw [List.map_cons, List.mapM_cons]
    simp only [bind_apply, pure_apply, id]
    -- If nothing happened in the first thread, the others were asked in the state there was.
    refine (first.map (fun thread => thread :: rest) SideStep.head).trans
      (others.map (fun threads => _ :: threads) SideStep.cons) fun still here beyond => ?_
    rw [firstWakeKey?, WakeKey.least?_eq_none_iff]
    exact ⟨here, still ▸ beyond⟩

/-- Threads proceed when one of them does. -/
theorem proceeds_set {reason : Prop} {place : Nat} (found : threads[place]? = some thread)
    (proceeds : Proceeds (Step setting path) reason thread state thread' state') :
    Proceeds (SideStep setting path) reason threads state (threads.set place thread') state' := by
  obtain ⟨bound, here⟩ := List.getElem?_eq_some_iff.1 found
  have same : threads.set place thread = threads := by rw [← here, List.set_getElem_self]
  -- A step of the thread is one of all of them, with the thread put back in its place.
  have lifted := proceeds.map (fun thread => threads.set place thread)
    fun step => by
      have at_place := SideStep.set (List.getElem?_set_self bound) step
      rwa [List.set_set] at at_place
  rwa [same] at lifted

/-- Threads proceed when those of them that can go on are resumed. -/
theorem resumeWoken_proceeds {resumers : List (StateM State Thread)} {places : List Nat}
    (nodup : places.Nodup) {count : Nat} (enough : places.length ≤ count)
    (each : ∀ place ∈ places, ∃ thread, threads[place]? = some thread ∧
      resumers[place]? = some (resume setting path thread) ∧
      ∀ state, Proceeds (Step setting path) (wakeKey? setting state thread = none) thread state
        (resume setting path thread state).1 (resume setting path thread state).2)
    (state : State) :
    Proceeds (SideStep setting path)
      (∀ place ∈ places, ∀ thread, threads[place]? = some thread →
        wakeKey? setting state thread = none) threads state
      (resumeWoken setting resumers count places threads state).1
      (resumeWoken setting resumers count places threads state).2 := by
  induction count generalizing places threads state with
  | zero =>
    rw [resumeWoken, List.length_eq_zero_iff.1 (Nat.le_zero.1 enough)]
    exact .refl (by simp)
  | succ count ih =>
    rw [resumeWoken]
    simp only [bind_apply, get_apply]
    cases woken : firstWoken? setting state threads places with
    | none =>
      exact .refl fun place member thread found => wakeKey?_of_firstWoken? woken member found
    | some place =>
      have member := mem_of_firstWoken? woken
      -- The place is not asked again, so all others still hold the threads that they held.
      obtain ⟨thread, found, resumer, proceeds⟩ := each place member
      have fewer := List.length_erase_of_mem member
      simp only [resumer, bind_apply]
      refine (proceeds_set found (proceeds state)).trans
        (ih (nodup.erase place) (by omega) (fun other later => ?_) _)
        fun still here beyond other listed thread' found' => ?_
      · obtain ⟨distinct, listed⟩ := nodup.mem_erase_iff.1 later
        obtain ⟨thread', found', rest⟩ := each other listed
        exact ⟨thread', by rw [List.getElem?_set_ne (Ne.symm distinct), found'], rest⟩
      -- Nothing woke the first one, nor any of the others in the same state.
      · by_cases distinct : other = place
        · rw [distinct, found, Option.some_inj] at found'
          exact found' ▸ here
        · rw [still] at beyond
          refine beyond other (nodup.mem_erase_iff.2 ⟨distinct, listed⟩) thread' ?_
          rw [List.getElem?_set_ne (Ne.symm distinct), found']

/-- A pass over threads makes steps of them, or nothing happens since nothing woke them. -/
theorem resumeSide_proceeds (breadth : Nat)
    (each : ∀ thread ∈ threads, ∀ state, Proceeds (Step setting path)
      (wakeKey? setting state thread = none) thread state
      (resume setting path thread state).1 (resume setting path thread state).2) (state : State) :
    Proceeds (SideStep setting path) (firstWakeKey? setting state threads = none) threads state
      (resumeSide setting breadth threads (resumers setting path threads) state).1
      (resumeSide setting breadth threads (resumers setting path threads) state).2 := by
  rw [resumers_eq_map, resumeSide]
  split
  · exact mapM_resume_proceeds each state
  · have all_places : ∀ place ∈ List.range threads.length, ∃ thread,
        threads[place]? = some thread ∧
        (threads.map (resume setting path))[place]? = some (resume setting path thread) ∧
        ∀ state, Proceeds (Step setting path) (wakeKey? setting state thread = none) thread state
          (resume setting path thread state).1 (resume setting path thread state).2 := by
      intro place member
      have bound := List.mem_range.1 member
      have found := List.getElem?_eq_getElem bound
      exact ⟨threads[place], found, by rw [List.getElem?_map, found, Option.map_some],
        each _ (List.getElem_mem bound)⟩
    have all := resumeWoken_proceeds List.nodup_range (Nat.le_of_eq List.length_range) all_places
      state
    refine all.imp_left fun ⟨same, still, because⟩ => ⟨same, still, ?_⟩
    refine firstWakeKey?_eq_none_iff.2 fun thread member => ?_
    obtain ⟨place, bound, found⟩ := List.mem_iff_getElem.1 member
    exact because place (List.mem_range.2 bound) thread (List.getElem?_eq_some_iff.2 ⟨bound, found⟩)

/-- A step after which a routine is started makes a thread advance. -/
theorem start_after_advances (linked : setting.graph.Linked) (isPath : setting.graph.IsPath path)
    {routine : Routine} (permits : setting.Permits path routine) (mark : Nat)
    (first : Step setting path thread state trace (.resting mark routine) state') :
    ∃ trace, Advances (Step setting path) thread state trace
      (start setting path routine state').1 (start setting path routine state').2 := by
  obtain ⟨_, rest⟩ := start_advances linked isPath permits mark state'
  exact ⟨_, (Advances.single first).trans rest.runs⟩

/-- A sleeping thread is resumed once its sleep is over. -/
theorem resume_sleeping {wakeAt : Nat} {next : Routine} :
    resume setting path (.sleeping mark wakeAt next) state =
      if wakeAt ≤ state.now then start setting path next state
      else (.sleeping mark wakeAt next, state) := by
  rw [resume]
  exact apply_ite (fun run : StateM State Thread => run state) _ _ _

/-- A thread that computes a slot is resumed with the computation. Done, the computation completes;
late, it expires; else it goes on. -/
theorem resume_computing {body : Thread} :
    resume setting path (.computing mark index body next) state =
      let resumed := resume setting (path ++ [index]) body state
      match resumed.1.outcome? with
      | some outcome => start setting path (next outcome) (resumed.2.answer path index outcome)
      | none =>
        if resumed.2.isOverdue setting index then
          start setting path (next (.error (setting.timeoutError index)))
            (((cancel (path ++ [index]) resumed.1 resumed.2).timeOut setting index).2.answer path
              index (.error (setting.timeoutError index)))
        else (.computing mark index resumed.1 next, resumed.2) := by
  rw [resume]
  simp only [bind_apply]
  generalize resume setting (path ++ [index]) body state = resumed
  obtain ⟨body', after⟩ := resumed
  cases body' with
  | finished => rfl
  | _ => cases late : after.isOverdue setting index <;> simp [bind_apply, get_apply, late] <;> rfl

/-- What is run for some time is resumed. Done, it is over; past its limit, it is dropped; else it
goes on. -/
theorem resume_limited {endsAt : Nat} {body : Thread} {next : Option Outcome → Routine} :
    resume setting path (.limited mark endsAt body next) state =
      let resumed := resume setting path body state
      match resumed.1.outcome? with
      | some outcome => start setting path (next (some outcome)) resumed.2
      | none =>
        if endsAt ≤ resumed.2.now then
          start setting path (next none) (cancel path resumed.1 resumed.2)
        else (.limited mark endsAt resumed.1 next, resumed.2) := by
  rw [resume]
  simp only [bind_apply]
  generalize resume setting path body state = resumed
  obtain ⟨body', after⟩ := resumed
  cases body' with
  | finished => rfl
  | _ => by_cases late : endsAt ≤ after.now <;> simp [bind_apply, get_apply, late] <;> rfl

/-- Threads side by side are resumed together. Once all of them are done, what follows is
started. -/
theorem resume_joining {next : List Outcome → Routine} :
    resume setting path (.joining breadth threads next) state =
      let resumed := resumeSide setting breadth threads (resumers setting path threads) state
      match outcomes? resumed.1 with
      | some outcomes => start setting path (next outcomes) resumed.2
      | none => (.joining breadth resumed.1 next, resumed.2) := by
  rw [resume]
  simp only [bind_apply]
  generalize resumeSide setting breadth threads (resumers setting path threads) state = resumed
  obtain ⟨threads', after⟩ := resumed
  cases gathered : outcomes? threads' <;> rfl

/-- Nothing woke a thread if nothing woke its computation, which is not late either. -/
theorem wakeKey?_computing {body : Thread} (asleep : wakeKey? setting state body = none)
    (early : ¬state.isOverdue setting index) :
    wakeKey? setting state (.computing mark index body next) = none := by
  rw [State.isOverdue] at early
  rw [wakeKey?, asleep, WakeKey.least?_eq_none_iff]
  refine ⟨rfl, ?_⟩
  split
  · rename_i deadline found
    rw [found] at early
    rw [if_neg (by simpa using early)]
  · rfl

/-- A thread that computes a slot proceeds if the computation does. -/
theorem resume_computing_proceeds (linked : setting.graph.Linked)
    (isPath : setting.graph.IsPath path) {body : Thread}
    (permits : ∀ outcome, setting.Permits path (next outcome))
    (inner : Proceeds (Step setting (path ++ [index])) (wakeKey? setting state body = none)
      body state (resume setting (path ++ [index]) body state).1
      (resume setting (path ++ [index]) body state).2) :
    Proceeds (Step setting path)
      (wakeKey? setting state (.computing mark index body next) = none)
      (.computing mark index body next) state
      (resume setting path (.computing mark index body next) state).1
      (resume setting path (.computing mark index body next) state).2 := by
  have inside := inner.map (fun body => Thread.computing mark index body next)
    fun step => Step.inside step
  rw [resume_computing]
  generalize resume setting (path ++ [index]) body state = resumed at inside
  obtain ⟨body', after⟩ := resumed
  dsimp only at inside ⊢
  cases ended : body'.outcome? with
  | some outcome =>
    rw [outcome?_eq_some_iff] at ended
    subst ended
    obtain ⟨_, rest⟩ := start_after_advances linked isPath (permits outcome) mark
      (@Step.complete _ _ mark mark index next outcome after)
    exact inside.advances rest
  | none =>
    by_cases late : after.isOverdue setting index = true
    · obtain ⟨_, rest⟩ := start_after_advances linked isPath (permits _) mark
        (@Step.expire _ _ mark mark index body' next after late)
      simp only [late, ↓reduceIte]
      exact inside.advances rest
    · simp only [late, Bool.false_eq_true, ↓reduceIte]
      refine inside.trans (.refl late) fun still asleep early => ?_
      subst still
      exact wakeKey?_computing asleep early

/-- What is run for some time proceeds if its thread does. -/
theorem resume_limited_proceeds (linked : setting.graph.Linked)
    (isPath : setting.graph.IsPath path) {endsAt : Nat} {body : Thread}
    {next : Option Outcome → Routine}
    (permits : ∀ outcome, setting.Permits path (next outcome))
    (inner : Proceeds (Step setting path) (wakeKey? setting state body = none) body state
      (resume setting path body state).1 (resume setting path body state).2) :
    Proceeds (Step setting path)
      (wakeKey? setting state (.limited mark endsAt body next) = none)
      (.limited mark endsAt body next) state
      (resume setting path (.limited mark endsAt body next) state).1
      (resume setting path (.limited mark endsAt body next) state).2 := by
  have beneath := inner.map (fun body => Thread.limited mark endsAt body next)
    fun step => Step.beneath step
  rw [resume_limited]
  generalize resume setting path body state = resumed at beneath
  obtain ⟨body', after⟩ := resumed
  dsimp only at beneath ⊢
  cases ended : body'.outcome? with
  | some outcome =>
    rw [outcome?_eq_some_iff] at ended
    subst ended
    obtain ⟨_, rest⟩ := start_after_advances linked isPath (permits (some outcome)) mark
      (@Step.conclude setting path mark mark endsAt outcome next after)
    exact beneath.advances rest
  | none =>
    by_cases late : endsAt ≤ after.now
    · obtain ⟨_, rest⟩ := start_after_advances linked isPath (permits none) mark
        (@Step.drop setting path mark mark endsAt body' next after late)
      simp only [late, ↓reduceIte]
      exact beneath.advances rest
    · simp only [late, ↓reduceIte]
      refine beneath.trans (.refl late) fun still asleep early => ?_
      subst still
      rw [wakeKey?, asleep, if_neg early]
      rfl

/-- Threads side by side proceed together, and then come together if all of them are done. -/
theorem resume_joining_proceeds (linked : setting.graph.Linked)
    (isPath : setting.graph.IsPath path) {next : List Outcome → Routine}
    (permits : ∀ outcomes, setting.Permits path (next outcomes))
    (each : ∀ thread ∈ threads, ∀ state, Proceeds (Step setting path)
      (wakeKey? setting state thread = none) thread state
      (resume setting path thread state).1 (resume setting path thread state).2) :
    Proceeds (Step setting path) (wakeKey? setting state (.joining breadth threads next) = none)
      (.joining breadth threads next) state
      (resume setting path (.joining breadth threads next) state).1
      (resume setting path (.joining breadth threads next) state).2 := by
  have side := (resumeSide_proceeds breadth each state).map
    (fun threads => Thread.joining breadth threads next) SideStep.joining
  rw [resume_joining, wakeKey?]
  generalize resumeSide setting breadth threads (resumers setting path threads) state = resumed
    at side
  obtain ⟨threads', after⟩ := resumed
  dsimp only at side ⊢
  cases gathered : outcomes? threads' with
  | some outcomes =>
    obtain ⟨_, rest⟩ := start_after_advances linked isPath (permits outcomes) 0 (.gather gathered)
    exact side.advances rest
  | none => exact side

/-- **To resume a thread is to make steps**, unless nothing happens since nothing woke it. -/
theorem resume_proceeds (linked : setting.graph.Linked) (isPath : setting.graph.IsPath path)
    (fits : thread.Fits setting path) (state : State) :
    Proceeds (Step setting path) (wakeKey? setting state thread = none) thread state
      (resume setting path thread state).1 (resume setting path thread state).2 := by
  induction thread generalizing path state with
  | finished outcome =>
    rw [resume_finished]
    exact .refl (by rw [wakeKey?])
  | resting mark next =>
    cases fits with
    | resting permits =>
      rw [resume]
      exact .inr (start_advances linked isPath permits mark state)
  | sleeping mark wakeAt next =>
    cases fits with
    | sleeping permits =>
      rw [resume_sleeping]
      split
      · rename_i late
        exact .inr (start_after_advances linked isPath permits mark (.wake late))
      · rename_i early
        exact .refl (by rw [wakeKey?, if_neg early])
  | waiting mark index next =>
    cases fits with
    | waiting request fresh permits =>
      rw [resume]
      simp only [bind_apply, get_apply]
      cases here : state.cell index with
      | settled outcome since =>
        exact .inr (start_after_advances linked isPath (permits outcome) mark (.hear here))
      | computing => exact .refl (by rw [wakeKey?, here])
      | idle since =>
        exact .inr (takeOver_advances (enters_of_isPath linked isPath) request.1 fresh here
          fun outcome state => start_advances linked isPath (permits outcome) mark state)
  | computing mark index body next ih =>
    cases fits with
    | computing request fresh long permits inner =>
      have deeper := isPath.concat request.1 fresh
      exact resume_computing_proceeds linked isPath permits (ih deeper inner state)
  | limited mark endsAt body next ih =>
    cases fits with
    | limited permits inner =>
      exact resume_limited_proceeds linked isPath permits (ih isPath inner state)
  | joining breadth threads next ih =>
    cases fits with
    | joining inner permits =>
      exact resume_joining_proceeds linked isPath permits fun thread member state =>
        ih thread member isPath (inner thread member) state

/-! ## Passes -/

/-- Letting time pass is no computation. -/
theorem elapses_passTime : state.Elapses (passTime setting threads state) := by
  rw [passTime]
  split
  · exact .refl state
  · split
    · exact state.elapses_moveClock _
    · exact .refl state

/-- Threads that run keep their requests in their places. -/
theorem fits_of_runs (linked : setting.graph.Linked)
    (runs : RunsAlone (SideStep setting path) threads state trace threads' state')
    (fits : ∀ thread ∈ threads, thread.Fits setting path) :
    ∀ thread ∈ threads', thread.Fits setting path := by
  induction runs with
  | refl => exact fits
  | step first _ ih => exact ih (first.fits linked fits)
  | meanwhile _ _ ih => exact ih fits

/-- A pass over threads of the host makes steps of them, or nothing happens since nothing woke
them. -/
theorem pass_proceeds (linked : setting.graph.Linked) (breadth : Nat)
    (fits : ∀ thread ∈ threads, thread.Fits setting []) (state : State) :
    Proceeds (SideStep setting []) (firstWakeKey? setting state threads = none) threads state
      (resumeSide setting breadth threads (resumers setting [] threads) state).1
      (resumeSide setting breadth threads (resumers setting [] threads) state).2 :=
  resumeSide_proceeds breadth
    (fun thread member state => resume_proceeds linked .nil (fits thread member) state) state

/-- **What `gather` does is to make steps**, and its outcomes are those of the threads that it comes
to. -/
theorem gather_runs (linked : setting.graph.Linked) (passes : Nat)
    (fits : ∀ thread ∈ threads, thread.Fits setting []) (state : State) :
    ∃ trace threads', RunsAlone (SideStep setting []) threads state trace threads'
        (gather setting breadth passes threads state).2 ∧
      (gather setting breadth passes threads state).1 = outcomes? threads' := by
  induction passes generalizing threads state with
  | zero => exact ⟨[], threads, .refl _ _, rfl⟩
  | succ passes ih =>
    rw [gather]
    cases ended : outcomes? threads with
    | some outcomes => exact ⟨[], threads, .refl _ _, ended.symm⟩
    | none =>
      simp only [bind_apply, modify_apply]
      obtain ⟨_, pass⟩ :=
        (pass_proceeds linked breadth fits (passTime setting threads state)).runs
      obtain ⟨_, threads', rest, same⟩ := ih (fits_of_runs linked pass fits) _
      exact ⟨_, threads', .meanwhile elapses_passTime (pass.trans rest), same⟩

/-- Starting routines one after the other is resuming threads at rest. -/
theorem mapM_start (routines : List Routine) :
    routines.mapM (start setting path) =
      ((routines.map (.resting mark)).map (resume setting path)).mapM id := by
  -- To resume a thread at rest is to start its routine.
  have same : ∀ routine, resume setting path (.resting mark routine) =
      start setting path routine := fun routine => by rw [resume]
  rw [List.map_map, List.mapM_map]
  exact congrArg (fun run => routines.mapM run) (funext fun routine => (same routine).symm)

end Thread

/-! ## The host -/

namespace Execution

variable {execution : Execution} {trace : Trace} {session : Session}

/-- A thread of the host at rest before a request by name. -/
private theorem fits_fetchNamed {setting : Setting} {mark : Nat} {names : List String} :
    ∀ thread ∈ (names.map setting.fetchNamed).map (Thread.resting mark),
      thread.Fits setting [] := by
  intro thread member
  simp only [List.map_map, List.mem_map] at member
  obtain ⟨name, -, rfl⟩ := member
  exact .resting Setting.permits_fetchNamed

/-- Requests made side by side run as threads do. -/
theorem runSide_runs (linked : execution.setting.graph.Linked) (passes breadth : Nat)
    (names : List String) :
    ∃ trace threads, RunsAlone (Thread.SideStep execution.setting [])
        ((names.map execution.setting.fetchNamed).map (.resting 0)) execution.state trace threads
        (execution.runSide passes breadth (names.map execution.setting.fetchNamed)).2.state ∧
      (execution.runSide passes breadth (names.map execution.setting.fetchNamed)).1 =
        Thread.outcomes? threads := by
  have fits := @fits_fetchNamed execution.setting 0 names
  obtain ⟨_, started⟩ := (Thread.mapM_resume_proceeds
    (fun thread member state => Thread.resume_proceeds linked .nil (fits thread member) state)
    execution.state).runs
  rw [← Thread.mapM_start] at started
  obtain ⟨_, threads, gathered, same⟩ :=
    @Thread.gather_runs execution.setting breadth _ linked passes
      (Thread.fits_of_runs linked started fits) _
  exact ⟨_, threads, started.trans gathered, same⟩

/-- The host requests several slots by name. -/
theorem Reaches.calls (reaches : execution.Reaches trace session) (names : List String)
    (mark : Nat) :
    execution.Reaches trace ⟨session.names ++ names,
      session.threads ++ (names.map execution.setting.fetchNamed).map (.resting mark),
      session.state⟩ := by
  induction names using List.reverseRecOn with
  | nil => simpa using reaches
  | append_singleton names name ih =>
    simpa [List.append_assoc] using ih.step (.call name mark)

/-- **Requests made side by side lead from session to session**, whatever is still going on, and
their outcomes are those of their threads. -/
theorem reaches_of_runSide (linked : execution.setting.graph.Linked)
    (reaches : execution.Reaches trace session) (passes breadth : Nat) (names : List String) :
    ∃ trace' threads, execution.Reaches (trace ++ trace')
        ⟨session.names ++ names, session.threads ++ threads,
          ({ execution with state := session.state }.runSide passes breadth
            (names.map execution.setting.fetchNamed)).2.state⟩ ∧
      ({ execution with state := session.state }.runSide passes breadth
        (names.map execution.setting.fetchNamed)).1 = Thread.outcomes? threads := by
  obtain ⟨trace', threads, runs, same⟩ :=
    @runSide_runs { execution with state := session.state } linked passes breadth names
  refine ⟨trace', threads, ?_, same⟩
  -- What is still going on stays in front of the further requests.
  have beside := runs.map (fun threads => session.threads ++ threads) fun step => step.append _
  exact (reaches.calls names 0).runs beside.runs

/-- Running all statements is requesting the statement features by name. -/
theorem fetch_groups (linked : execution.setting.graph.Linked) :
    (execution.groups.map fun index => Routine.fetch index .done) =
      (execution.groups.map execution.graph.name).map execution.setting.fetchNamed := by
  rw [List.map_map]
  refine List.map_congr_left fun index member => ?_
  have bound : index < execution.setting.graph.size :=
    List.mem_range.1 (List.mem_filter.1 member).1
  have found : execution.setting.graph.indexOf? (execution.graph.name index) = some index :=
    Graph.indexOf?_name linked bound
  simp only [Function.comp, Setting.fetchNamed, found]

end Execution

end RuleGraph
