import RuleGraph.Proofs.Interleaving.Schedule
import Mathlib.Data.List.Perm.Basic

/-! # What threads hold

A thread holds the waits that it noted and the cells that it began. Every step changes the records
of the state by just as much as it changes what the thread holds.

* **`Thread.awaits`** — which slots wait for which within a thread.
* **`Thread.computes`** — the slots being computed within a thread.
* **`Waits.times`**, **`State.busy`** — what the state has on record.
* **`Thread.Step.times_add`**, **`Thread.Step.busy_add`** — records and holdings change alike.
-/

namespace RuleGraph

/-! ## Records of waits -/

namespace Waits

variable {waits : Waits} {slot target member : Nat} {members : List Nat}

/-- How many times it is on record that a slot waits for another one. -/
def times (waits : Waits) (wait : Nat × Nat) : Nat :=
  (waits.targets wait.1).count wait.2

/-- What stands on record is a wait of the slot. -/
theorem times_pos {wait : Nat × Nat} : 0 < waits.times wait ↔ wait.2 ∈ waits.targets wait.1 :=
  List.count_pos_iff

/-- Up to order, a member is taken out once. -/
theorem withoutFirst_perm : (withoutFirst members member).Perm (members.erase member) := by
  rw [withoutFirst]
  split
  · rename_i place found
    obtain ⟨bound, here, earlier⟩ := List.idxOf?_eq_some_iff.1 found
    -- The place is the first one, so the member does not stand before it.
    have fresh : member ∉ members.take place := by
      intro again
      obtain ⟨other, inside, same⟩ := List.mem_take_iff_getElem.1 again
      exact earlier other (by omega) same
    have split := List.take_append_drop place members
    rw [List.drop_eq_getElem_cons bound, here] at split
    rw [List.set_eq_take_append_cons_drop, if_pos bound]
    -- What stands before the place and behind it matters only as such.
    generalize members.take place = before at split fresh
    generalize members.drop (place + 1) = after at split
    subst split
    rw [List.erase_append_right _ fresh, List.erase_cons_head]
    -- Either the member is the last one itself, or the last one takes its place.
    rcases List.eq_nil_or_concat after with rfl | ⟨rest, last, rfl⟩
    · simp
    · have moved : (before ++ member :: (rest ++ [last])).getLast?.getD member = last := by
        rw [← List.cons_append, ← List.append_assoc, List.getLast?_concat, Option.getD_some]
      rw [List.concat_eq_append, moved, ← List.cons_append, ← List.append_assoc,
        List.dropLast_concat]
      exact (List.perm_append_singleton last rest).symm.append_left before
  · rename_i missing
    rw [List.idxOf?_eq_none_iff] at missing
    rw [List.erase_of_not_mem missing]

/-- A noted wait is on record once more. -/
theorem times_add (bound : slot < waits.length) (wait : Nat × Nat) :
    (waits.add slot target).times wait = waits.times wait + [(slot, target)].count wait := by
  obtain ⟨slot', target'⟩ := wait
  by_cases same : slot = slot'
  · subst same
    simp only [times, targets, add, List.getElem?_set_self bound, Option.getD_some,
      List.count_append, List.count_singleton, Nat.add_left_cancel_iff]
    simp [Prod.ext_iff]
  · simp [times, targets, add, List.getElem?_set_ne same, same]

/-- A wait that ended is on record once less. -/
theorem times_remove (wait : Nat × Nat) :
    (waits.remove slot target).times wait = waits.times wait - [(slot, target)].count wait := by
  obtain ⟨slot', target'⟩ := wait
  by_cases same : slot = slot'
  · subst same
    -- Up to order the member is erased, so it is counted once less.
    have fewer : (withoutFirst (waits.targets slot) target).count target' =
        (waits.targets slot).count target' - [(slot, target)].count (slot, target') := by
      rw [withoutFirst_perm.count_eq, List.count_erase]
      simp [List.count_cons]
    by_cases bound : slot < waits.length
    · rw [times, times, ← fewer, targets, remove, List.getElem?_set_self bound, Option.getD_some]
    -- A slot that is not there has no waits, and none to take away.
    · have none : waits.targets slot = [] := by
        rw [targets, List.getElem?_eq_none (Nat.le_of_not_lt bound), Option.getD_none]
      have none' : (waits.remove slot target).targets slot = [] := by
        rw [targets, List.getElem?_eq_none (by simpa [remove] using Nat.le_of_not_lt bound),
          Option.getD_none]
      simp [times, none, none']
  · simp [times, targets, remove, List.getElem?_set_ne same, same]

end Waits

/-- The wait that a request leaves on record: a request of the host leaves none. -/
def waitOf (path : List Nat) (index : Nat) : List (Nat × Nat) :=
  path.getLast?.toList.map fun slot => (slot, index)

namespace State

variable {state : State} {setting : Setting} {path : List Nat} {index other : Nat}
  {outcome : Outcome}

/-- Noting a wait puts it on record. -/
theorem times_addWait (bound : ∀ slot ∈ path.getLast?, slot < state.waits.length)
    (wait : Nat × Nat) : (state.addWait path index).waits.times wait =
      state.waits.times wait + (waitOf path index).count wait := by
  rw [addWait, waitOf]
  split
  · rename_i slot last
    rw [last]
    exact Waits.times_add (bound slot (by simp [last])) wait
  · rename_i none
    simp [none]

/-- Ending a wait takes it off the record. -/
theorem times_removeWait (wait : Nat × Nat) : (state.removeWait path index).waits.times wait =
      state.waits.times wait - (waitOf path index).count wait := by
  rw [removeWait, waitOf]
  split
  · rename_i slot last
    rw [last]
    exact Waits.times_remove wait
  · rename_i none
    simp [none]

/-! ## Records of computations -/

/-- How many times it is on record that a slot is being computed: once or not at all. -/
def busy (state : State) (index : Nat) : Nat :=
  match state.cell index with
  | .computing => 1
  | .idle _ | .settled _ _ => 0

/-- A slot is being computed at most once. -/
theorem busy_le_one : state.busy index ≤ 1 := by
  rw [busy]
  split <;> omega

/-- A slot is on record as being computed when its cell says so. -/
theorem busy_pos : 0 < state.busy index ↔ state.cell index = .computing := by
  rw [busy]
  split <;> simp_all

/-- An idle slot is not on record. -/
theorem busy_of_idle {since : Nat} (idle : state.cell index = .idle since) :
    state.busy index = 0 := by
  rw [busy, idle]

/-- What is on record depends on cells only. -/
theorem busy_congr {state' : State} (same : state'.cells = state.cells) :
    state'.busy index = state.busy index := by
  rw [busy, busy, cell_congr same]

/-- Noting a wait is no computation. -/
@[simp] theorem busy_addWait : (state.addWait path index).busy other = state.busy other :=
  busy_congr cells_addWait

/-- Ending a wait is no computation. -/
@[simp] theorem busy_removeWait : (state.removeWait path index).busy other = state.busy other :=
  busy_congr cells_removeWait

/-- Having an effect is no computation. -/
@[simp] theorem busy_perform {effect : Effect} :
    (state.perform setting effect).busy index = state.busy index :=
  busy_congr cells_perform

/-- Being late is no computation. -/
@[simp] theorem busy_timeOut : (state.timeOut setting index).2.busy other = state.busy other :=
  rfl

/-- Beginning puts a computation on record. -/
theorem busy_begin (bound : index < state.cells.length) (free : state.busy index = 0) :
    (state.begin index).busy other = state.busy other + [index].count other := by
  by_cases same : other = index
  · subst same
    rw [free, busy, cell_begin_self bound]
    simp
  · have apart : (state.begin index).cell other = state.cell other := cell_setCell_ne same
    rw [busy, apart, ← busy]
    simp [Ne.symm same]

/-- Answering takes it off the record, if it is there. -/
theorem busy_answer (bound : index < state.cells.length) :
    (state.answer path index outcome).busy other = state.busy other - [index].count other := by
  by_cases same : other = index
  · subst same
    -- Once answered it is not on record, and it cannot have been there twice.
    have one := @State.busy_le_one state other
    rw [busy, cell_answer_self bound]
    simp
    omega
  · rw [busy, cell_answer_ne same, ← busy]
    simp [Ne.symm same]

/-- Answering for a slot that was not begun leaves the record alone. -/
theorem busy_answer_of_free (bound : index < state.cells.length) (free : state.busy index = 0) :
    (state.answer path index outcome).busy other = state.busy other := by
  rw [busy_answer bound]
  by_cases same : other = index
  · rw [same, free, Nat.zero_sub]
  · simp [Ne.symm same]

end State

namespace Thread

/-! ## Holdings -/

mutual

/-- Which slots wait for which within a thread of the last slot of a path, one entry for every
wait. -/
def awaits (path : List Nat) : Thread → List (Nat × Nat)
  | .waiting _ index _ => waitOf path index
  | .computing _ index body _ => waitOf path index ++ awaits (path ++ [index]) body
  | .limited _ _ body _ => awaits path body
  | .joining _ threads _ => awaitsOfAll path threads
  | .finished _ | .resting _ _ | .sleeping _ _ _ => []

/-- Which slots wait for which within several threads. -/
def awaitsOfAll (path : List Nat) : List Thread → List (Nat × Nat)
  | [] => []
  | thread :: rest => awaits path thread ++ awaitsOfAll path rest

end

variable {setting : Setting} {thread thread' : Thread} {threads threads' before after : List Thread}
  {path : List Nat} {state state' : State} {trace : Trace} {index : Nat}

/-- The waits within threads in a row. -/
theorem awaitsOfAll_append :
    awaitsOfAll path (before ++ after) = awaitsOfAll path before ++ awaitsOfAll path after := by
  induction before with
  | nil => rfl
  | cons thread rest ih => rw [List.cons_append, awaitsOfAll, awaitsOfAll, ih, List.append_assoc]

/-- The computations within threads in a row. -/
theorem computesOfAll_append :
    computesOfAll (before ++ after) = computesOfAll before ++ computesOfAll after := by
  induction before with
  | nil => rfl
  | cons thread rest ih => rw [List.cons_append, computesOfAll, computesOfAll, ih,
      List.append_assoc]

/-- What waits within several threads waits within one of them. -/
theorem mem_awaitsOfAll {wait : Nat × Nat} :
    wait ∈ awaitsOfAll path threads ↔ ∃ thread ∈ threads, wait ∈ thread.awaits path := by
  induction threads with
  | nil => simp [awaitsOfAll]
  | cons thread rest ih => simp [awaitsOfAll, ih]

/-- Threads at rest hold no waits. -/
@[simp] theorem awaitsOfAll_resting {children : List Routine} {mark : Nat} :
    awaitsOfAll path (children.map (.resting mark)) = [] := by
  induction children with
  | nil => rfl
  | cons child rest ih => rw [List.map_cons, awaitsOfAll, awaits, ih, List.append_nil]

/-- Threads at rest compute nothing. -/
@[simp] theorem computesOfAll_resting {children : List Routine} {mark : Nat} :
    computesOfAll (children.map (.resting mark)) = [] := by
  induction children with
  | nil => rfl
  | cons child rest ih => rw [List.map_cons, computesOfAll, computes, ih, List.append_nil]

/-- Finished threads hold no waits and compute nothing. -/
theorem holdings_of_outcomes? {outcomes : List Outcome} (h : outcomes? threads = some outcomes) :
    awaitsOfAll path threads = [] ∧ computesOfAll threads = [] := by
  rw [outcomes?_eq_some_iff.1 h]
  induction outcomes generalizing threads with
  | nil => exact ⟨rfl, rfl⟩
  | cons outcome rest ih =>
    obtain ⟨noWaits, noCells⟩ := ih (outcomes?_eq_some_iff.2 rfl)
    exact ⟨by rw [List.map_cons, awaitsOfAll, awaits, noWaits, List.append_nil],
      by rw [List.map_cons, computesOfAll, computes, noCells, List.append_nil]⟩

/-- The waits of one of several threads are counted among those of all. -/
theorem count_awaitsOfAll (wait : Nat × Nat) :
    (awaitsOfAll path (before ++ thread :: after)).count wait =
      (awaitsOfAll path before).count wait + (thread.awaits path).count wait +
        (awaitsOfAll path after).count wait := by
  rw [awaitsOfAll_append, awaitsOfAll, List.count_append, List.count_append, Nat.add_assoc]

/-- The computations of one of several threads are counted among those of all. -/
theorem count_computesOfAll : (computesOfAll (before ++ thread :: after)).count index =
    (computesOfAll before).count index + thread.computes.count index +
      (computesOfAll after).count index := by
  rw [computesOfAll_append, computesOfAll, List.count_append, List.count_append, Nat.add_assoc]

/-! ## Balance -/

/-- Abandoning a thread takes its waits off the record. -/
theorem times_cancel (wait : Nat × Nat) : (cancel path thread state).waits.times wait =
    state.waits.times wait - (thread.awaits path).count wait := by
  induction thread generalizing path state with
  | finished | resting | sleeping => simp [cancel, awaits]
  | waiting mark index next =>
    rw [cancel, awaits]
    exact State.times_removeWait wait
  | computing mark index body next ih =>
    rw [cancel, awaits, State.times_removeWait, State.waits_release, ih, List.count_append]
    omega
  | limited mark endsAt body next ih => rw [cancel, awaits, ih]
  | joining breadth threads next ih =>
    rw [cancel, awaits]
    induction threads generalizing state with
    | nil => simp [cancelAll, awaitsOfAll]
    | cons thread rest onRest =>
      rw [cancelAll, awaitsOfAll, onRest fun later member => ih later (by simp [member]),
        ih thread (by simp), List.count_append]
      omega

/-- Abandoning a thread takes its computations off the record, if each of them is there. -/
theorem busy_cancel (bound : ∀ index ∈ thread.computes, index < state.cells.length)
    (held : ∀ index, thread.computes.count index ≤ state.busy index) :
    (cancel path thread state).busy index =
      state.busy index - thread.computes.count index := by
  by_cases member : index ∈ thread.computes
  · obtain ⟨since, idle⟩ := @cell_cancel_of_mem _ path _ _ (bound index member) member
    -- It is held once, since it is on record at most once, and released.
    have once := @State.busy_le_one state index
    have some := List.count_pos_iff.2 member
    have all := held index
    rw [State.busy, idle]
    simp only
    omega
  · rw [State.busy, cell_cancel_of_not_mem member, ← State.busy,
      List.count_eq_zero_of_not_mem member, Nat.sub_zero]

/-- A step neither adds nor removes cells. -/
theorem Step.length_cells (step : Step setting path thread state trace thread' state') :
    state'.cells.length = state.cells.length := by
  induction step with
  | inside _ ih | beneath _ ih | side _ ih => exact ih
  | _ => simp

/-- A step neither adds nor removes slots with waits. -/
theorem Step.length_waits (step : Step setting path thread state trace thread' state') :
    state'.waits.length = state.waits.length := by
  induction step with
  | inside _ ih | beneath _ ih | side _ ih => exact ih
  | _ => simp

/-- Slots computed within a thread are slots of the graph. -/
theorem Fits.lt_size_of_mem_computes (fits : thread.Fits setting path)
    (member : index ∈ thread.computes) : index < setting.graph.size := by
  induction fits with
  | finished | resting | sleeping | waiting => simp [computes] at member
  | computing request _ _ _ _ ih =>
    rw [computes, List.mem_cons] at member
    rcases member with rfl | inner
    · exact request.1
    · exact ih inner
  | limited _ _ ih =>
    rw [computes] at member
    exact ih member
  | joining _ _ ih =>
    rw [computes] at member
    obtain ⟨thread, listed, inner⟩ := mem_computesOfAll.1 member
    exact ih thread listed inner

/-- **A step changes the waits on record by as much as those that the thread holds.** -/
theorem Step.times_add
    (step : Step setting path thread state trace thread' state')
    (isPath : setting.graph.IsPath path) (fits : thread.Fits setting path)
    (sized : state.waits.length = setting.graph.size)
    (held : ∀ wait, (thread.awaits path).count wait ≤ state.waits.times wait) (wait : Nat × Nat) :
    state'.waits.times wait + (thread.awaits path).count wait =
      state.waits.times wait + (thread'.awaits path).count wait := by
  have known := held wait
  induction step with
  | finish | perform | invoke | pause | sleep | wake | reuse | refuse => simp [awaits]
  | await =>
    -- The wait is held and on record once more.
    rw [State.times_addWait (fun slot last => sized ▸ isPath.bound slot
      (List.mem_of_getLast? last)), awaits, awaits]
    simp
  | hear =>
    rw [State.times_removeWait]
    simp only [awaits, List.count_nil] at known ⊢
    omega
  | giveUp | answer =>
    rw [State.waits_answer, State.times_removeWait]
    simp only [awaits, List.count_nil, State.waits_timeOut, State.waits_begin] at known ⊢
    omega
  | compute => simp [awaits]
  | complete =>
    rw [State.waits_answer, State.times_removeWait]
    simp only [awaits, List.append_nil, List.count_nil] at known ⊢
    omega
  | expire =>
    rw [State.waits_answer, State.times_removeWait, State.waits_timeOut, times_cancel]
    simp only [awaits, List.count_append, List.count_nil] at known ⊢
    omega
  | @inside path _ index body _ _ state _ _ step ih =>
    cases fits with
    | computing request fresh _ _ inner =>
      have heldInside : ∀ wait,
          (body.awaits (path ++ [index])).count wait ≤ state.waits.times wait := by
        intro wait
        have whole := held wait
        rw [awaits, List.count_append] at whole
        omega
      -- The wait for the slot itself is held before and after the step.
      have onBody := ih (isPath.concat request.1 fresh) inner sized heldInside (heldInside wait)
      rw [awaits, awaits, List.count_append, List.count_append]
      omega
  | limit | conclude => simp [awaits]
  | beneath step ih =>
    cases fits with
    | limited _ inner =>
      simp only [awaits] at held known ⊢
      exact ih isPath inner sized held known
  | drop =>
    rw [times_cancel]
    simp only [awaits, List.count_nil] at known ⊢
    omega
  | join => simp [awaits]
  | @side path _ _ thread _ _ _ state _ _ step ih =>
    cases fits with
    | joining inner _ =>
      have heldOne : ∀ wait, (thread.awaits path).count wait ≤ state.waits.times wait := by
        intro wait
        have whole := held wait
        rw [awaits, count_awaitsOfAll] at whole
        omega
      -- The other threads hold what they held.
      have onThread := ih isPath (inner _ (by simp)) sized heldOne (heldOne wait)
      rw [awaits, awaits, count_awaitsOfAll, count_awaitsOfAll]
      omega
  | gather finished =>
    rw [awaits, awaits, (holdings_of_outcomes? finished).1]

/-- What the computation of a slot holds is held by the thread that computes the slot. -/
theorem count_le_of_computing {mark slot bound : Nat} {body : Thread} {next : Outcome → Routine}
    (held : (Thread.computing mark slot body next).computes.count index ≤ bound) :
    body.computes.count index ≤ bound := by
  rw [computes] at held
  exact Nat.le_trans List.count_le_count_cons held

/-- **A step changes the computations on record by as much as those of the thread.** -/
theorem Step.busy_add (step : Step setting path thread state trace thread' state')
    (fits : thread.Fits setting path) (sized : state.cells.length = setting.graph.size)
    (held : ∀ index, thread.computes.count index ≤ state.busy index) (index : Nat) :
    state'.busy index + thread.computes.count index =
      state.busy index + thread'.computes.count index := by
  have known := held index
  induction step with
  | finish | pause | sleep | wake | reuse | refuse => rfl
  | perform => rw [State.busy_perform]; rfl
  | invoke => rfl
  | await => rw [State.busy_addWait]; rfl
  | hear => rw [State.busy_removeWait]; rfl
  | giveUp idle =>
    cases fits with
    | waiting request =>
      rw [State.busy_answer_of_free (by simpa using sized ▸ request.1)
        (by simpa using State.busy_of_idle idle), State.busy_timeOut]
      rfl
  | answer idle =>
    cases fits with
    | waiting request =>
      have bound := sized ▸ request.1
      -- Begun and answered in one step, it is on record neither before nor after.
      have free := State.busy_of_idle idle
      rw [State.busy_answer (by simpa using bound), State.busy_begin bound free,
        Nat.add_sub_cancel]
      rfl
  | compute idle =>
    cases fits with
    | waiting request =>
      rw [State.busy_begin (sized ▸ request.1) (State.busy_of_idle idle), computes, computes,
        computes, List.count_nil, Nat.add_zero]
  | complete =>
    cases fits with
    | computing request =>
      rw [State.busy_answer (sized ▸ request.1)]
      simp only [computes, List.count_nil] at known ⊢
      omega
  | expire =>
    cases fits with
    | computing request _ _ _ inner =>
      have bound := sized ▸ request.1
      have inside := fun index member =>
        sized ▸ @Fits.lt_size_of_mem_computes _ _ _ index inner member
      rw [State.busy_answer (by simpa using bound), State.busy_timeOut,
        busy_cancel inside fun index => count_le_of_computing (held index)]
      simp only [computes, List.count_cons, List.count_nil] at known ⊢
      omega
  | inside step ih =>
    cases fits with
    | computing _ _ _ _ inner =>
      have heldInside := fun index => count_le_of_computing (held index)
      have onBody := ih inner sized heldInside (heldInside index)
      simp only [computes, List.count_cons]
      omega
  | limit | conclude => rfl
  | beneath step ih =>
    cases fits with
    | limited _ inner =>
      simp only [computes] at held known ⊢
      exact ih inner sized held known
  | drop =>
    cases fits with
    | limited _ inner =>
      simp only [computes] at held known ⊢
      have bound := fun index member =>
        sized ▸ @Fits.lt_size_of_mem_computes _ _ _ index inner member
      rw [busy_cancel bound held, List.count_nil]
      omega
  | join => rw [computes, computes, computesOfAll_resting]
  | @side _ _ _ thread _ _ _ state _ _ step ih =>
    cases fits with
    | joining inner _ =>
      have heldOne : ∀ index, thread.computes.count index ≤ state.busy index := by
        intro index
        have whole := held index
        rw [computes, count_computesOfAll] at whole
        omega
      have onThread := ih (inner _ (by simp)) sized heldOne (heldOne index)
      rw [computes, computes, count_computesOfAll, count_computesOfAll]
      omega
  | gather finished =>
    rw [computes, computes, (@holdings_of_outcomes? _ [] _ finished).2]

end Thread

/-! ## Sessions -/

namespace Session

/-- Which slots wait for which in a session, one entry for every wait. -/
def awaits (session : Session) : List (Nat × Nat) :=
  Thread.awaitsOfAll [] session.threads

/-- The slots being computed in a session. -/
def computes (session : Session) : List Nat :=
  Thread.computesOfAll session.threads

/-- What the state has on record is what the threads hold. -/
structure IsBalanced (setting : Setting) (session : Session) : Prop where
  /-- There is a cell for every slot. -/
  cells : session.state.cells.length = setting.graph.size
  /-- There are waits for every slot. -/
  waits : session.state.waits.length = setting.graph.size
  /-- Every wait on record is held, and the other way round. -/
  awaits : ∀ wait, session.state.waits.times wait = session.awaits.count wait
  /-- Every computation on record is held, and the other way round. -/
  computes : ∀ index, session.state.busy index = session.computes.count index

end Session

/-- **In every session, what the state has on record is what the threads hold.** -/
theorem Execution.Reaches.isBalanced {execution : Execution} (started : execution.Started)
    {trace : Trace} {session : Session} (reaches : execution.Reaches trace session) :
    session.IsBalanced execution.setting := by
  induction reaches with
  | start =>
    refine ⟨by simp [started.cells], by simp [started.waits], fun wait => ?_, fun index => ?_⟩
    · rw [Waits.times, started.targets_eq]
      rfl
    · rw [State.busy_of_idle started.cell_eq]
      rfl
  | @step _ _ session session' before last ih =>
    have fits := before.fits started.linked
    obtain ⟨cells, waits, awaits, computes⟩ := ih
    cases last with
    | call name mark =>
      refine ⟨cells, waits, fun wait => ?_, fun index => ?_⟩
      · rw [awaits, Session.awaits, Session.awaits, Thread.awaitsOfAll_append, Thread.awaitsOfAll,
          Thread.awaits, Thread.awaitsOfAll, List.append_nil, List.append_nil]
      · rw [computes, Session.computes, Session.computes, Thread.computesOfAll_append,
          Thread.computesOfAll, Thread.computes, Thread.computesOfAll, List.append_nil,
          List.append_nil]
    | meanwhile other =>
      refine ⟨other.cells ▸ cells, other.waits ▸ waits, fun wait => ?_, fun index => ?_⟩
      · rw [other.waits]
        exact awaits wait
      · rw [State.busy_congr other.cells]
        exact computes index
    | @go _ _ _ state _ _ step =>
      obtain @⟨_, thread, _, _, _, _, _, step⟩ := step
      -- Only one request makes a step, and the holdings of all others stay as they are.
      have onThread := fits _ (List.mem_append_right _ List.mem_cons_self)
      simp only [Session.awaits, Session.computes, Thread.count_awaitsOfAll,
        Thread.count_computesOfAll] at awaits computes
      have waitsHeld : ∀ wait, (thread.awaits []).count wait ≤ state.waits.times wait := by
        intro wait
        have whole := awaits wait
        omega
      have cellsHeld : ∀ index, thread.computes.count index ≤ state.busy index := by
        intro index
        have whole := computes index
        omega
      refine ⟨step.length_cells ▸ cells, step.length_waits ▸ waits, fun wait => ?_,
        fun index => ?_⟩
      · have change := step.times_add .nil onThread waits waitsHeld wait
        have whole := awaits wait
        simp only [Session.awaits, Thread.count_awaitsOfAll]
        omega
      · have change := step.busy_add onThread cells cellsHeld index
        have whole := computes index
        simp only [Session.computes, Thread.count_computesOfAll]
        omega

end RuleGraph
