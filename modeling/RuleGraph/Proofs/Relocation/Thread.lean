import RuleGraph.Proofs.Relocation.State
import RuleGraph.Proofs.Interleaving.Schedule

/-! # Threads with slots at other places

Threads that differ in the places of slots only go on alike, from states that do.

* **`Relocates`** — computations that come to related values and keep states so.
* **`Thread.relocate`** — a thread whose slots have moved.
* **`Thread.relocates_start`** — a routine is started alike.
* **`Thread.relocates_resume`** — a thread is resumed alike.
* **`Thread.relocates_gather`** — threads run side by side to the same outcomes.
-/

namespace RuleGraph

/-! ## Computations -/

/-- Two computations come to related values, from states that differ in the places of slots only to
such states. -/
def Relocates {α β : Type} (move : Nat → Nat) (related : α → β → Prop) (run : StateM State α)
    (run' : StateM State β) : Prop :=
  ∀ ⦃state state' : State⦄, state.Relocated move state' →
    related (run state).1 (run' state').1 ∧ (run state).2.Relocated move (run' state').2

namespace Relocates

variable {α β γ δ : Type} {move : Nat → Nat} {related : α → β → Prop} {related' : γ → δ → Prop}

/-- Values. -/
theorem pure {a : α} {b : β} (same : related a b) :
    Relocates move related (Pure.pure a) (Pure.pure b) :=
  fun _ _ relocated => ⟨same, relocated⟩

/-- Computations that go on. -/
theorem bind {first : StateM State α} {first' : StateM State β} {next : α → StateM State γ}
    {next' : β → StateM State δ} (onFirst : Relocates move related first first')
    (onNext : ∀ a b, related a b → Relocates move related' (next a) (next' b)) :
    Relocates move related' (first >>= next) (first' >>= next') :=
  fun _ _ relocated =>
    let ⟨same, between⟩ := onFirst relocated
    onNext _ _ same between

/-- Looking at the state. -/
theorem get : Relocates move (State.Relocated move) MonadState.get MonadState.get :=
  fun _ _ relocated => ⟨relocated, relocated⟩

/-- Changing the state. -/
theorem change {change change' : State → State}
    (keeps : ∀ {state state' : State}, state.Relocated move state' →
      (change state).Relocated move (change' state')) :
    Relocates move (fun _ _ => True) (modify change) (modify change') :=
  fun _ _ relocated => ⟨trivial, keeps relocated⟩

/-- Changing the state and learning something. -/
theorem learn {change : State → α × State} {change' : State → β × State}
    (keeps : ∀ {state state' : State}, state.Relocated move state' →
      related (change state).1 (change' state').1 ∧
        (change state).2.Relocated move (change' state').2) :
    Relocates move related (modifyGet change) (modifyGet change') :=
  fun _ _ relocated => keeps relocated

/-- Taking a mark. -/
theorem newMark : Relocates move (· = ·) Thread.newMark Thread.newMark :=
  learn fun relocated => ⟨relocated.mark.symm, relocated.tick⟩

end Relocates

namespace Thread

/-! ## Threads -/

mutual

/-- A thread whose slots have moved. -/
def relocate (move : Nat → Nat) : Thread → Thread
  | .finished outcome => .finished outcome
  | .resting mark next => .resting mark (next.relocate move)
  | .sleeping mark wakeAt next => .sleeping mark wakeAt (next.relocate move)
  | .waiting mark index next =>
    .waiting mark (move index) fun outcome => (next outcome).relocate move
  | .computing mark index body next =>
    .computing mark (move index) (relocate move body) fun outcome => (next outcome).relocate move
  | .limited mark endsAt body next =>
    .limited mark endsAt (relocate move body) fun outcome => (next outcome).relocate move
  | .joining breadth threads next =>
    .joining breadth (relocateAll move threads) fun outcomes => (next outcomes).relocate move

/-- Several threads whose slots have moved. -/
def relocateAll (move : Nat → Nat) : List Thread → List Thread
  | [] => []
  | thread :: rest => relocate move thread :: relocateAll move rest

end

variable {move : Nat → Nat}

/-- The slots of every thread have moved. -/
theorem relocateAll_eq_map (threads : List Thread) :
    relocateAll move threads = threads.map (relocate move) := by
  induction threads with
  | nil => rw [relocateAll, List.map_nil]
  | cons thread rest ih => rw [relocateAll, ih, List.map_cons]

/-- A thread has the same outcome, if it is finished. -/
theorem outcome?_relocate (thread : Thread) :
    (thread.relocate move).outcome? = thread.outcome? := by
  cases thread <;> simp only [relocate, outcome?]

/-- So have several threads. -/
theorem outcomes?_map_relocate (threads : List Thread) :
    outcomes? (threads.map (relocate move)) = outcomes? threads := by
  rw [outcomes?, List.mapM_map]
  congr 1
  exact funext outcome?_relocate

/-- The slots of a thread have moved. -/
def IsMoved (move : Nat → Nat) (thread thread' : Thread) : Prop := thread' = thread.relocate move

/-- The slots of several threads have moved. -/
def AreMoved (move : Nat → Nat) (threads threads' : List Thread) : Prop :=
  threads' = threads.map (relocate move)

variable {setting setting' : Setting} (same : setting.Relocated move setting')

/-! ## Abandoning -/

include same in
/-- Threads are abandoned alike. -/
theorem relocated_cancel (thread : Thread) {path : List Nat} {state state' : State}
    (relocated : state.Relocated move state') :
    (cancel path thread state).Relocated move
      (cancel (path.map move) (thread.relocate move) state') := by
  have injective := same.graph.injective
  induction thread generalizing path state state' with
  | finished | resting | sleeping => exact relocated
  | waiting mark index next => exact relocated.removeWait injective path index
  | computing mark index body next ih =>
    rw [relocate, cancel, cancel, ← List.map_singleton, ← List.map_append]
    exact ((ih relocated).release injective index).removeWait injective path index
  | limited mark endsAt body next ih =>
    rw [relocate, cancel, cancel]
    exact ih relocated
  | joining breadth threads next ih =>
    rw [relocate, cancel, cancel]
    induction threads generalizing state state' with
    | nil => exact relocated
    | cons thread rest others =>
      obtain ⟨onThread, onRest⟩ := List.forall_mem_cons.1 ih
      rw [relocateAll, cancelAll, cancelAll]
      exact others onRest (onThread relocated)

/-! ## Starting -/

section

variable {enter enter' : List Nat → Nat → StateM State Thread}
  (enters : ∀ path index,
    Relocates move (IsMoved move) (enter path index) (enter' (path.map move) (move index)))

include same enters

/-- A slot is computed alike. -/
theorem relocates_compute (path : List Nat) (index : Nat) :
    Relocates move (IsMoved move) (compute setting enter path index)
      (compute setting' enter' (path.map move) (move index)) := by
  have injective := same.graph.injective
  rw [compute, compute]
  refine .bind .get fun state state' relocated => ?_
  rw [relocated.isOverdue same]
  split
  · refine .bind (.learn fun here => here.timeOut same index) ?_
    rintro outcome _ rfl
    refine .bind (.change fun here => here.answer injective path index outcome) fun _ _ _ => ?_
    exact .pure rfl
  · refine .bind (.change fun here => here.begin injective index) fun _ _ _ => ?_
    refine .bind (enters path index) ?_
    rintro thread _ rfl
    cases thread with
    | finished outcome =>
      refine .bind (.change fun here => here.answer injective path index outcome) fun _ _ _ => ?_
      exact .pure rfl
    | resting | sleeping | waiting | computing | limited | joining => exact .pure rfl

omit same enters in
/-- Several routines are started alike if each of them is. -/
theorem relocates_startAllWith {path : List Nat} {children : List Routine}
    (each : ∀ child ∈ children, Relocates move (IsMoved move) (startWith setting enter path child)
      (startWith setting' enter' (path.map move) (child.relocate move))) :
    Relocates move (AreMoved move) (startAllWith setting enter path children)
      (startAllWith setting' enter' (path.map move) (Routine.relocateAll move children)) := by
  induction children with
  | nil =>
    rw [Routine.relocateAll, startAllWith, startAllWith]
    exact .pure rfl
  | cons child rest ih =>
    obtain ⟨onChild, onRest⟩ := List.forall_mem_cons.1 each
    rw [Routine.relocateAll, startAllWith, startAllWith]
    refine .bind onChild ?_
    rintro thread _ rfl
    refine .bind (ih onRest) ?_
    rintro threads _ rfl
    exact .pure rfl

/-- Routines are started alike if the routines of slots are. -/
theorem relocates_startWith (path : List Nat) (routine : Routine) :
    Relocates move (IsMoved move) (startWith setting enter path routine)
      (startWith setting' enter' (path.map move) (routine.relocate move)) := by
  induction routine with
  | done outcome =>
    rw [Routine.relocate, startWith_done, startWith_done]
    exact .pure rfl
  | perform effect next ih =>
    rw [Routine.relocate, startWith, startWith]
    exact .bind (.change fun here => here.perform same effect) fun _ _ _ => ih
  | invoke function args next ih =>
    rw [Routine.relocate, startWith, startWith]
    refine .bind (.change fun here => here.invoke function args) fun _ _ _ => ?_
    refine .bind .get fun state state' relocated => ?_
    rw [relocated.invocationCount]
    exact ih _
  | pause next ih =>
    rw [Routine.relocate, startWith, startWith]
    refine .bind .newMark ?_
    rintro mark _ rfl
    exact .pure rfl
  | sleep milliseconds next ih =>
    rw [Routine.relocate, startWith, startWith]
    split
    · exact ih
    · refine .bind .get fun state state' relocated => ?_
      rw [relocated.now]
      refine .bind .newMark ?_
      rintro mark _ rfl
      exact .pure rfl
  | fetch index next ih =>
    rw [Routine.relocate, startWith, startWith]
    refine .bind (.learn fun here => here.request same path index) ?_
    rintro request _ rfl
    cases request with
    | answered outcome => exact ih outcome
    | delayed =>
      refine .bind .newMark ?_
      rintro mark _ rfl
      exact .pure rfl
    | granted =>
      refine .bind (relocates_compute same enters path index) ?_
      rintro thread _ rfl
      cases thread with
      | finished outcome => exact ih outcome
      | resting | sleeping | waiting | computing | limited | joining =>
        refine .bind .newMark ?_
        rintro mark _ rfl
        exact .pure rfl
  | within milliseconds child next onChild onNext =>
    rw [Routine.relocate, startWith, startWith]
    refine .bind .get fun state state' relocated => ?_
    rw [relocated.now]
    refine .bind onChild ?_
    rintro thread _ rfl
    cases thread with
    | finished outcome => exact onNext _
    | resting | sleeping | waiting | computing | limited | joining =>
      dsimp only [relocate]
      split
      · exact .bind (.change fun here => relocated_cancel same _ here) fun _ _ _ => onNext none
      · refine .bind .newMark ?_
        rintro mark _ rfl
        exact .pure rfl
  | join breadth children next onChildren onNext =>
    rw [Routine.relocate, startWith, startWith]
    refine .bind (relocates_startAllWith onChildren) ?_
    rintro threads _ rfl
    rw [outcomes?_map_relocate]
    split
    · exact onNext _
    · rw [← relocateAll_eq_map]
      exact .pure rfl

end

include same

/-- The routine of a slot is started alike. -/
theorem relocates_enter (depth : Nat) (path : List Nat) (index : Nat) :
    Relocates move (IsMoved move) (enter setting depth path index)
      (enter setting' depth (path.map move) (move index)) := by
  induction depth generalizing path index with
  | zero =>
    rw [enter, enter, ← List.map_singleton, ← List.map_append, State.Relocated.cycleError same]
    exact .pure rfl
  | succ depth ih =>
    rw [enter, enter, same.slotRoutine, ← List.map_singleton, ← List.map_append]
    exact relocates_startWith same ih _ _

/-- So it is from every path. -/
theorem relocates_enterFrom (path : List Nat) (index : Nat) :
    Relocates move (IsMoved move) (enterFrom setting path index)
      (enterFrom setting' (path.map move) (move index)) := by
  have size : setting'.graph.size = setting.graph.size := same.graph.size
  rw [enterFrom, enterFrom, size, List.length_map]
  exact relocates_enter same _ _ _

/-- **A routine is started alike.** -/
theorem relocates_start (path : List Nat) (routine : Routine) :
    Relocates move (IsMoved move) (start setting path routine)
      (start setting' (path.map move) (routine.relocate move)) := by
  have size : setting'.graph.size = setting.graph.size := same.graph.size
  rw [start, start, size, List.length_map]
  exact relocates_startWith same (relocates_enter same _) _ _

/-! ## Resuming -/

omit same in
/-- Threads can go on at the same time if each of them can. -/
theorem firstWakeKey?_of_forall {state state' : State} {threads : List Thread}
    (each : ∀ thread ∈ threads,
      wakeKey? setting' state' (thread.relocate move) = wakeKey? setting state thread) :
    firstWakeKey? setting' state' (threads.map (relocate move)) =
      firstWakeKey? setting state threads := by
  induction threads with
  | nil => rfl
  | cons thread rest ih =>
    obtain ⟨onThread, onRest⟩ := List.forall_mem_cons.1 each
    rw [List.map_cons, firstWakeKey?, firstWakeKey?, onThread, ih onRest]

/-- A thread can go on at the same time. -/
theorem wakeKey?_relocate {state state' : State} (relocated : state.Relocated move state')
    (thread : Thread) :
    wakeKey? setting' state' (thread.relocate move) = wakeKey? setting state thread := by
  induction thread with
  | finished | resting => rfl
  | sleeping mark wakeAt next =>
    rw [relocate, wakeKey?, wakeKey?, relocated.now, relocated.movedAt]
  | waiting mark index next => rw [relocate, wakeKey?, wakeKey?, relocated.cell]
  | computing mark index body next ih =>
    rw [relocate, wakeKey?, wakeKey?, ih, same.deadlineOf?, relocated.now, relocated.movedAt]
  | limited mark endsAt body next ih =>
    rw [relocate, wakeKey?, wakeKey?, ih, relocated.now, relocated.movedAt]
  | joining breadth threads next ih =>
    rw [relocate, wakeKey?, wakeKey?, relocateAll_eq_map, firstWakeKey?_of_forall ih]

omit same in
/-- The same times are waited for if each of several threads waits for the same. -/
theorem timersOfAll_of_forall {threads : List Thread}
    (each : ∀ thread ∈ threads,
      timers setting' (thread.relocate move) = timers setting thread) :
    timersOfAll setting' (threads.map (relocate move)) = timersOfAll setting threads := by
  induction threads with
  | nil => rfl
  | cons thread rest ih =>
    obtain ⟨onThread, onRest⟩ := List.forall_mem_cons.1 each
    rw [List.map_cons, timersOfAll, timersOfAll, onThread, ih onRest]

/-- A thread waits for the same times. -/
theorem timers_relocate (thread : Thread) :
    timers setting' (thread.relocate move) = timers setting thread := by
  induction thread with
  | finished | resting | sleeping | waiting => rfl
  | computing mark index body next ih => rw [relocate, timers, timers, ih, same.deadlineOf?]
  | limited mark endsAt body next ih => rw [relocate, timers, timers, ih]
  | joining breadth threads next ih =>
    rw [relocate, timers, timers, relocateAll_eq_map, timersOfAll_of_forall ih]

/-- The same of several threads goes on first. -/
theorem firstWoken?_relocate {state state' : State} (relocated : state.Relocated move state')
    (threads : List Thread) (places : List Nat) :
    firstWoken? setting' state' (threads.map (relocate move)) places =
      firstWoken? setting state threads places := by
  have keys : ∀ place : Nat, ((threads.map (relocate move))[place]? >>= wakeKey? setting' state') =
      (threads[place]? >>= wakeKey? setting state) := by
    intro place
    rw [List.getElem?_map]
    cases threads[place]? with
    | none => rfl
    | some thread => exact wakeKey?_relocate same relocated thread
  simp only [firstWoken?, keys]

section

variable {resumers resumers' : List (StateM State Thread)}
  (alike : List.Forall₂ (Relocates move (IsMoved move)) resumers resumers')

include alike

omit same in
/-- Threads are resumed in turn alike if each of them is resumed alike. -/
theorem relocates_mapM : Relocates move (AreMoved move) (resumers.mapM id) (resumers'.mapM id) := by
  induction alike with
  | nil => exact .pure rfl
  | cons first others ih =>
    rw [List.mapM_cons, List.mapM_cons]
    refine .bind first ?_
    rintro thread _ rfl
    refine .bind ih ?_
    rintro threads _ rfl
    exact .pure rfl

/-- So are threads that are resumed as they wake up. -/
theorem relocates_resumeWoken (count : Nat) (places : List Nat) (threads : List Thread) :
    Relocates move (AreMoved move) (resumeWoken setting resumers count places threads)
      (resumeWoken setting' resumers' count places (threads.map (relocate move))) := by
  induction count generalizing places threads with
  | zero =>
    rw [resumeWoken, resumeWoken]
    exact .pure rfl
  | succ count ih =>
    rw [resumeWoken, resumeWoken]
    refine .bind .get fun state state' relocated => ?_
    rw [firstWoken?_relocate same relocated]
    split
    · exact .pure rfl
    · rename_i place woken
      obtain ⟨length, resumed⟩ := List.forall₂_iff_get.1 alike
      by_cases bound : place < resumers.length
      · rw [List.getElem?_eq_getElem bound, List.getElem?_eq_getElem (length ▸ bound)]
        refine .bind (resumed place bound (length ▸ bound)) ?_
        rintro thread _ rfl
        rw [← List.map_set]
        exact ih _ _
      · rw [List.getElem?_eq_none (Nat.not_lt.1 bound),
          List.getElem?_eq_none (length ▸ Nat.not_lt.1 bound)]
        exact .pure rfl

end

/-- Threads side by side are resumed alike if each of them is. -/
theorem relocates_resumeSide {path : List Nat} {threads : List Thread}
    (each : ∀ thread ∈ threads, Relocates move (IsMoved move) (resume setting path thread)
      (resume setting' (path.map move) (thread.relocate move))) (breadth : Nat) :
    Relocates move (AreMoved move)
      (resumeSide setting breadth threads (resumers setting path threads))
      (resumeSide setting' breadth (threads.map (relocate move))
        (resumers setting' (path.map move) (threads.map (relocate move)))) := by
  have alike : List.Forall₂ (Relocates move (IsMoved move)) (resumers setting path threads)
      (resumers setting' (path.map move) (threads.map (relocate move))) := by
    rw [resumers_eq_map, resumers_eq_map, List.map_map, List.forall₂_map_left_iff,
      List.forall₂_map_right_iff, List.forall₂_same]
    exact each
  rw [resumeSide, resumeSide, List.length_map]
  split
  · exact relocates_mapM alike
  · exact relocates_resumeWoken same alike _ _ _

/-- **A thread is resumed alike.** -/
theorem relocates_resume (path : List Nat) (thread : Thread) :
    Relocates move (IsMoved move) (resume setting path thread)
      (resume setting' (path.map move) (thread.relocate move)) := by
  have injective := same.graph.injective
  induction thread generalizing path with
  | finished outcome =>
    rw [relocate, resume_finished, resume_finished]
    exact .pure rfl
  | resting mark next =>
    rw [relocate, resume, resume]
    exact relocates_start same path next
  | sleeping mark wakeAt next =>
    rw [relocate, resume, resume]
    refine .bind .get fun state state' relocated => ?_
    rw [relocated.now]
    split
    · exact relocates_start same path next
    · exact .pure rfl
  | waiting mark index next =>
    rw [relocate, resume, resume]
    refine .bind .get fun state state' relocated => ?_
    rw [relocated.cell]
    split
    · refine .bind (.change fun here => here.removeWait injective path index) fun _ _ _ => ?_
      exact relocates_start same path _
    · exact .pure rfl
    · refine .bind (relocates_compute same (relocates_enterFrom same) path index) ?_
      rintro thread _ rfl
      cases thread with
      | finished outcome => exact relocates_start same path _
      | resting | sleeping | waiting | computing | limited | joining =>
        refine .bind .newMark ?_
        rintro mark _ rfl
        exact .pure rfl
  | computing mark index body next ih =>
    rw [relocate, resume, resume, ← List.map_singleton, ← List.map_append]
    refine .bind (ih _) ?_
    rintro thread _ rfl
    cases thread with
    | finished outcome =>
      refine .bind (.change fun here => here.answer injective path index outcome) fun _ _ _ => ?_
      exact relocates_start same path _
    | resting | sleeping | waiting | computing | limited | joining =>
      refine .bind .get fun state state' relocated => ?_
      rw [relocated.isOverdue same]
      split
      · refine .bind (.change fun here => relocated_cancel same _ here) fun _ _ _ => ?_
        refine .bind (.learn fun here => here.timeOut same index) ?_
        rintro outcome _ rfl
        refine .bind (.change fun here => here.answer injective path index outcome)
          fun _ _ _ => ?_
        exact relocates_start same path _
      · exact .pure rfl
  | limited mark endsAt body next ih =>
    rw [relocate, resume, resume]
    refine .bind (ih path) ?_
    rintro thread _ rfl
    cases thread with
    | finished outcome => exact relocates_start same path _
    | resting | sleeping | waiting | computing | limited | joining =>
      refine .bind .get fun state state' relocated => ?_
      rw [relocated.now]
      split
      · refine .bind (.change fun here => relocated_cancel same _ here) fun _ _ _ => ?_
        exact relocates_start same path _
      · exact .pure rfl
  | joining breadth threads next ih =>
    rw [relocate, resume, resume, relocateAll_eq_map]
    refine .bind (relocates_resumeSide same (fun thread member => ih thread member path) breadth) ?_
    rintro threads _ rfl
    rw [outcomes?_map_relocate]
    split
    · exact relocates_start same path _
    · rw [← relocateAll_eq_map]
      exact .pure rfl

/-- Time passes alike. -/
theorem relocated_passTime (threads : List Thread) {state state' : State}
    (relocated : state.Relocated move state') :
    (passTime setting threads state).Relocated move
      (passTime setting' (threads.map (relocate move)) state') := by
  rw [passTime, passTime,
    firstWakeKey?_of_forall fun thread _ => wakeKey?_relocate same relocated thread,
    timersOfAll_of_forall fun thread _ => timers_relocate same thread]
  split
  · exact relocated
  · split
    · exact relocated.moveClock _
    · exact relocated

/-- **Threads run side by side to the same outcomes**, if they come to an end. -/
theorem relocates_gather (breadth passes : Nat) (threads : List Thread) :
    Relocates move (· = ·) (gather setting breadth passes threads)
      (gather setting' breadth passes (threads.map (relocate move))) := by
  induction passes generalizing threads with
  | zero =>
    rw [gather, gather, outcomes?_map_relocate]
    exact .pure rfl
  | succ passes ih =>
    rw [gather, gather, outcomes?_map_relocate]
    split
    · exact .pure rfl
    · refine .bind (.change fun here => relocated_passTime same threads here) fun _ _ _ => ?_
      refine .bind (relocates_resumeSide same
        (fun thread _ => relocates_resume same [] thread) breadth) ?_
      rintro threads _ rfl
      exact ih threads

end Thread

end RuleGraph
