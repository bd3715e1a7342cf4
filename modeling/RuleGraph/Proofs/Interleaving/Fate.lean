import RuleGraph.Proofs.Interleaving.Holdings

/-! # What a step does to a slot

Seen from one slot, a step does one of a few things: it leaves the slot alone, begins or ends its
computation, or abandons it.

* **`Thread.Holds`** — where the computation of a slot stands within a thread.
* **`Trace.begins`**, **`Trace.deeds`**, **`Trace.deedsOf`**, **`Trace.attempt`**, **`Trace.drops`**
  — what a trace says.
* **`Thread.Fate`** — what may become of a slot.
* **`Thread.Step.fate`** — a step is one of these to every slot.
* **`Thread.Step.holds_origin`** — where a computation stands after a step, and where it stood
  before.
-/

namespace RuleGraph

namespace Trace

/-- The slots whose computations begin, in order. -/
def begins (trace : Trace) : List Nat :=
  trace.filterMap fun occurrence =>
    match occurrence with
    | .begun slot => some slot
    | .did _ _ | .dropped => none

/-- What computations do, in order. -/
def deeds (trace : Trace) : List Deed :=
  trace.filterMap fun occurrence =>
    match occurrence with
    | .did _ deed => some deed
    | .begun _ | .dropped => none

/-- What the computation of a slot does, in order. -/
def deedsOf (trace : Trace) (slot : Nat) : List Deed :=
  trace.filterMap fun occurrence =>
    match occurrence with
    | .did other deed => if other = slot then some deed else none
    | .begun _ | .dropped => none

/-- What the computation of a slot has done since it last began, in order. -/
def attempt (trace : Trace) (slot : Nat) : List Deed :=
  trace.foldl (fun done occurrence =>
    match occurrence with
    | .begun other => if other = slot then [] else done
    | .did other deed => if other = slot then done ++ [deed] else done
    | .dropped => done) []

/-- How many times a function has dropped what it had fetched while that was pending. -/
def drops (trace : Trace) : Nat :=
  trace.countP fun occurrence =>
    match occurrence with
    | .dropped => true
    | .begun _ | .did _ _ => false

/-- No function has dropped what it had fetched while that was pending. -/
def KeepsFetches (trace : Trace) : Prop :=
  trace.drops = 0

variable {trace trace' : Trace} {slot : Nat} {deed : Deed} {path : List Nat}

/-- Beginnings follow on each other. -/
@[simp] theorem begins_append : begins (trace ++ trace') = begins trace ++ begins trace' :=
  List.filterMap_append

/-- Deeds follow on each other. -/
@[simp] theorem deeds_append : deeds (trace ++ trace') = deeds trace ++ deeds trace' :=
  List.filterMap_append

/-- Deeds of a slot follow on each other. -/
@[simp] theorem deedsOf_append :
    deedsOf (trace ++ trace') slot = deedsOf trace slot ++ deedsOf trace' slot :=
  List.filterMap_append

/-- Nothing begins when nothing happens. -/
@[simp] theorem begins_nil : begins [] = [] := rfl

/-- Nothing is done when nothing happens. -/
@[simp] theorem deedsOf_nil : deedsOf [] slot = [] := rfl

/-- A beginning. -/
@[simp] theorem begins_begun : begins [.begun slot] = [slot] := rfl

/-- To begin is not to do anything yet. -/
@[simp] theorem deedsOf_begun {other : Nat} : deedsOf [.begun other] slot = [] := rfl

/-- Where something is dropped, nothing begins. -/
@[simp] theorem begins_dropped : begins [.dropped] = [] := rfl

/-- Nor is anything done. -/
@[simp] theorem deedsOf_dropped : deedsOf [.dropped] slot = [] := rfl

/-- What is dropped adds up. -/
@[simp] theorem drops_append : drops (trace ++ trace') = drops trace + drops trace' :=
  List.countP_append

/-- Where something is dropped, it is dropped once. -/
@[simp] theorem drops_dropped : drops [.dropped] = 1 := rfl

/-- A deed begins nothing. -/
@[simp] theorem begins_occurrences : begins (deed.occurrences path) = [] := by
  rw [Deed.occurrences]
  cases path.getLast? <;> rfl

/-- A deed drops nothing. -/
@[simp] theorem drops_occurrences : drops (deed.occurrences path) = 0 := by
  rw [Deed.occurrences]
  cases path.getLast? <;> rfl

/-- The deed of a path, if it is not that of the host. -/
theorem deeds_occurrences (nonempty : path ≠ []) : deeds (deed.occurrences path) = [deed] := by
  rw [Deed.occurrences, List.getLast?_eq_some_getLast nonempty]
  rfl

/-- A deed is that of the last slot of the path. -/
theorem deedsOf_occurrences (last : path.getLast? = some slot) :
    deedsOf (deed.occurrences path) slot = [deed] := by
  rw [Deed.occurrences, last]
  simp [deedsOf]

/-- As long as a computation does not begin again, all that it does belongs to one attempt. -/
theorem attempt_append (going : slot ∉ begins trace') :
    attempt (trace ++ trace') slot = attempt trace slot ++ deedsOf trace' slot := by
  rw [attempt, List.foldl_append, ← attempt]
  -- What was done before stays in front.
  generalize attempt trace slot = done
  induction trace' generalizing done with
  | nil => exact (List.append_nil done).symm
  | cons occurrence rest ih =>
    cases occurrence with
    | begun other =>
      have apart : slot ∉ other :: begins rest := going
      rw [List.mem_cons, not_or] at apart
      simpa [Ne.symm apart.1, deedsOf] using ih apart.2 done
    | did other deed =>
      have rest_going : slot ∉ begins rest := going
      by_cases same : other = slot
      · simpa [same, deedsOf] using ih rest_going (done ++ [deed])
      · simpa [same, deedsOf] using ih rest_going done
    | dropped => exact ih going done

/-- With a beginning, a new attempt begins. -/
@[simp] theorem attempt_begun : attempt (trace ++ [.begun slot]) slot = [] := by
  simp [attempt]

/-- Before a computation has begun there is nothing but what was done. -/
theorem attempt_of_not_mem_begins (fresh : slot ∉ begins trace) :
    attempt trace slot = deedsOf trace slot := by
  simpa [attempt] using @attempt_append [] trace slot fresh

/-- A deed is that of no other slot. -/
theorem deedsOf_occurrences_of_ne (apart : path.getLast? ≠ some slot) :
    deedsOf (deed.occurrences path) slot = [] := by
  rw [Deed.occurrences]
  cases last : path.getLast? with
  | none => rfl
  | some other =>
    rw [last, ne_eq, Option.some_inj] at apart
    simp [deedsOf, apart]

end Trace

namespace Thread

/-- Within a thread, the computation of a slot stands at a thread of its own. -/
inductive Holds : Thread → Nat → Thread → Prop where
  /-- The thread computes the slot itself. -/
  | here {mark index body next} : Holds (.computing mark index body next) index body
  /-- The computation of another slot does. -/
  | inside {mark index body next slot inner} (holds : Holds body slot inner) :
    Holds (.computing mark index body next) slot inner
  /-- What is run for some time does. -/
  | beneath {mark endsAt body next slot inner} (holds : Holds body slot inner) :
    Holds (.limited mark endsAt body next) slot inner
  /-- One of the threads side by side does. -/
  | side {breadth threads next thread slot inner} (member : thread ∈ threads)
    (holds : Holds thread slot inner) : Holds (.joining breadth threads next) slot inner

variable {setting : Setting} {thread thread' body body' : Thread} {path : List Nat}
  {state state' : State} {trace : Trace} {slot index : Nat}

/-- A slot is computed within a thread when its computation stands somewhere. -/
theorem mem_computes_iff : slot ∈ thread.computes ↔ ∃ body, thread.Holds slot body := by
  induction thread with
  | finished | resting | sleeping | waiting =>
    constructor
    · intro member
      simp [computes] at member
    · rintro ⟨body, holds⟩
      cases holds
  | computing mark index body next ih =>
    rw [computes, List.mem_cons, ih]
    constructor
    · rintro (rfl | ⟨inner, holds⟩)
      · exact ⟨body, .here⟩
      · exact ⟨inner, .inside holds⟩
    · rintro ⟨inner, holds⟩
      cases holds with
      | here => exact .inl rfl
      | inside holds => exact .inr ⟨inner, holds⟩
  | limited mark endsAt body next ih =>
    rw [computes, ih]
    constructor
    · rintro ⟨inner, holds⟩
      exact ⟨inner, .beneath holds⟩
    · rintro ⟨inner, holds⟩
      cases holds with
      | beneath holds => exact ⟨inner, holds⟩
  | joining breadth threads next ih =>
    rw [computes, mem_computesOfAll]
    constructor
    · rintro ⟨thread, member, inner⟩
      obtain ⟨body, holds⟩ := (ih thread member).1 inner
      exact ⟨body, .side member holds⟩
    · rintro ⟨body, holds⟩
      cases holds with
      | side member holds => exact ⟨_, member, (ih _ member).2 ⟨body, holds⟩⟩

/-- A slot that is computed is not at hand, and not on the path that leads to its computation. -/
theorem Fits.of_holds (fits : thread.Fits setting path) (holds : thread.Holds slot body) :
    slot < setting.graph.size ∧ slot ∉ path ∧
      ∀ outcome, setting.slotRoutine slot ≠ .done outcome := by
  induction fits with
  | finished | resting | sleeping | waiting => cases holds
  | computing request fresh long _ _ ih =>
    cases holds with
    | here => exact ⟨request.1, fresh, long⟩
    | inside holds =>
      obtain ⟨bound, apart, long⟩ := ih holds
      exact ⟨bound, fun member => apart (List.mem_append_left _ member), long⟩
  | limited _ _ ih =>
    cases holds with
    | beneath holds => exact ih holds
  | joining _ _ ih =>
    cases holds with
    | side member holds => exact ih _ member holds

/-! ## Being late -/

/-- All slots that take their time have the same time. -/
theorem isOverdue_of_long (late : state.isOverdue setting index = true)
    (long : ∀ outcome, setting.slotRoutine slot ≠ .done outcome) :
    state.isOverdue setting slot = true := by
  -- Only inputs are exempt from the deadline, and they are at hand.
  have deadline : setting.deadlineOf? slot = setting.deadline? := by
    rw [Setting.deadlineOf?, if_neg]
    intro input
    cases found : setting.graph.slots[slot]? with
    | none => simp [found] at input
    | some plain =>
      rw [found, Option.map_some, Option.getD_some, Slot.isInput, decide_eq_true_iff] at input
      refine long (.ok ((Dictionary.find? setting.inputs plain.name).getD .null)) ?_
      rw [Setting.slotRoutine, found]
      simp only [input]
  rw [State.isOverdue, deadline]
  rw [State.isOverdue, Setting.deadlineOf?] at late
  split at late
  · rename_i due found
    split at found
    · cases found
    · rw [found]
      exact late
  · cases late

/-! ## Fates -/

/-- What may become of a slot when a thread comes from a state to a state. -/
inductive Fate (setting : Setting) (thread : Thread) (state : State) (trace : Trace)
    (state' : State) (slot : Nat) : Prop where
  /-- Its cell stays as it is. -/
  | kept (same : state'.cell slot = state.cell slot) (quiet : slot ∉ trace.begins)
  /-- Its computation begins. -/
  | begun {since} (idle : state.cell slot = .idle since)
    (early : state.isOverdue setting slot = false) (only : trace = [.begun slot])
    (now : state'.cell slot = .computing)
  /-- It is answered as soon as it begins. -/
  | answered {since outcome} (idle : state.cell slot = .idle since)
    (early : state.isOverdue setting slot = false) (only : trace = [.begun slot])
    (plain : setting.slotRoutine slot = .done outcome)
    (now : state'.outcome? slot = some outcome)
  /-- Its computation is done. -/
  | completed {outcome} (holds : thread.Holds slot (.finished outcome)) (quiet : trace = [])
    (now : state'.outcome? slot = some outcome)
  /-- It is found to be late. -/
  | late (free : (∃ since, state.cell slot = .idle since) ∨ ∃ body, thread.Holds slot body)
    (late : state.isOverdue setting slot = true) (quiet : trace = [])
    (now : state'.outcome? slot = some (.error (setting.timeoutError slot)))
  /-- Its computation is abandoned, since it is late as well. -/
  | released {since body} (holds : thread.Holds slot body)
    (late : state.isOverdue setting slot = true) (quiet : trace = [])
    (now : state'.cell slot = .idle since)
  /-- Its computation is abandoned, since it is dropped. -/
  | dropped {since body} (holds : thread.Holds slot body) (only : trace = [.dropped])
    (now : state'.cell slot = .idle since)

/-- What may become of a slot within a thread may become of it within a larger one. -/
theorem Fate.mono (fate : Fate setting thread state trace state' slot)
    (within : ∀ {body}, thread.Holds slot body → thread'.Holds slot body) :
    Fate setting thread' state trace state' slot := by
  cases fate with
  | kept same quiet => exact .kept same quiet
  | begun idle early only now => exact .begun idle early only now
  | answered idle early only plain now => exact .answered idle early only plain now
  | completed holds quiet now => exact .completed (within holds) quiet now
  | late free late quiet now =>
    exact .late (free.imp_right fun ⟨body, holds⟩ => ⟨body, within holds⟩) late quiet now
  | released holds late quiet now => exact .released (within holds) late quiet now
  | dropped holds only now => exact .dropped (within holds) only now

/-- The outcome of a slot for which a request was answered. -/
theorem outcome?_answer (bound : slot < state.cells.length) {outcome : Outcome} :
    (state.answer path slot outcome).outcome? slot = some outcome := by
  rw [State.outcome?, State.cell_answer_self bound, Cell.outcome?]

/-- **What may become of a slot in a step.** -/
theorem Step.fate (step : Step setting path thread state trace thread' state')
    (fits : thread.Fits setting path) (sized : state.cells.length = setting.graph.size)
    (slot : Nat) : Fate setting thread state trace state' slot := by
  induction step with
  | finish | pause | sleep | wake | reuse | refuse | limit | conclude | join | gather =>
    exact .kept rfl (by simp)
  | perform | invoke | await | hear => exact .kept (State.cell_congr (by simp)) (by simp)
  | @giveUp _ _ _ index _ _ state idle late =>
    cases fits with
    | waiting request =>
      by_cases same : slot = index
      · subst same
        exact .late (.inl ⟨_, idle⟩) late rfl (outcome?_answer (by simpa [sized] using request.1))
      · exact .kept (by rw [State.cell_answer_ne same, State.cell_congr State.cells_timeOut])
          (by simp)
  | @answer _ _ _ index _ _ _ state idle early plain =>
    cases fits with
    | waiting request =>
      by_cases same : slot = index
      · subst same
        exact .answered idle early rfl plain (outcome?_answer (by simpa [sized] using request.1))
      · refine .kept ?_ (by simpa using same)
        rw [State.cell_answer_ne same]
        exact State.cell_setCell_ne same
  | @compute _ _ _ _ index _ _ state idle early long =>
    cases fits with
    | waiting request =>
      by_cases same : slot = index
      · subst same
        exact .begun idle early rfl (State.cell_begin_self (sized ▸ request.1))
      · exact .kept (State.cell_setCell_ne same) (by simpa using same)
  | @complete _ _ _ index _ _ state =>
    cases fits with
    | computing request =>
      by_cases same : slot = index
      · subst same
        exact .completed .here rfl (outcome?_answer (sized ▸ request.1))
      · exact .kept (State.cell_answer_ne same) (by simp)
  | @expire path _ _ index body _ state late =>
    have whole := fits
    cases fits with
    | computing request _ _ _ inner =>
      by_cases same : slot = index
      · subst same
        exact .late (.inr ⟨_, .here⟩) late rfl (outcome?_answer (by simpa [sized] using request.1))
      -- What is computed inside is released with it; what is not is left alone.
      · by_cases member : slot ∈ body.computes
        · obtain ⟨deeper, holds⟩ := mem_computes_iff.1 member
          obtain ⟨bound, -, long⟩ := inner.of_holds holds
          obtain ⟨since, idle⟩ := @cell_cancel_of_mem body (path ++ [index]) state slot
            (sized ▸ bound) member
          -- All slots that take their time are late at the same time.
          refine .released (.inside holds) (isOverdue_of_long late long) rfl (Eq.trans ?_ idle)
          rw [State.cell_answer_ne same, State.cell_congr State.cells_timeOut]
        · refine .kept ?_ (by simp)
          rw [State.cell_answer_ne same, State.cell_congr State.cells_timeOut,
            cell_cancel_of_not_mem member]
  | inside _ ih =>
    cases fits with
    | computing _ _ _ _ inner => exact (ih inner sized).mono .inside
  | beneath _ ih =>
    cases fits with
    | limited _ inner => exact (ih inner sized).mono .beneath
  | @drop path _ _ _ body _ state =>
    cases fits with
    | limited _ inner =>
      -- What is computed beneath is released; what is not is left alone.
      by_cases member : slot ∈ body.computes
      · obtain ⟨deeper, holds⟩ := mem_computes_iff.1 member
        obtain ⟨since, idle⟩ := @cell_cancel_of_mem body path state slot
          (sized ▸ (inner.of_holds holds).1) member
        exact .dropped (.beneath holds) rfl idle
      · exact .kept (cell_cancel_of_not_mem member) (by simp)
  | side _ ih =>
    cases fits with
    | joining inner _ => exact (ih (inner _ (by simp)) sized).mono (.side (by simp))

/-! ## Origins -/

/-- What happens in a step is done by the last slot of the path or by one computed within the
thread. -/
theorem Step.mem_of_deedsOf (step : Step setting path thread state trace thread' state')
    (done : trace.deedsOf slot ≠ []) : path.getLast? = some slot ∨ slot ∈ thread.computes := by
  induction step with
  | perform | invoke =>
    -- A deed is that of the last slot of the path.
    by_contra apart
    exact done (Trace.deedsOf_occurrences_of_ne fun last => apart (.inl last))
  | inside _ ih =>
    rw [computes]
    rcases ih done with last | inner
    -- For the thread inside, the last slot of the path is the one computed here.
    · rw [List.getLast?_concat, Option.some_inj] at last
      exact .inr (by simp [last])
    · exact .inr (List.mem_cons_of_mem _ inner)
  | beneath _ ih =>
    rw [computes]
    exact ih done
  | side _ ih =>
    rw [computes]
    exact (ih done).imp_right fun inner => mem_computesOfAll.2 ⟨_, by simp, inner⟩
  | _ => exact absurd (by simp) done

/-- What one of several threads computes, no thread beside it does. -/
theorem not_mem_computes_of_nodup {before after : List Thread} {other : Thread}
    (once : (computesOfAll (before ++ thread :: after)).Nodup)
    (beside : other ∈ before ∨ other ∈ after) (here : slot ∈ other.computes) :
    slot ∉ thread.computes := by
  intro twice
  rw [computesOfAll_append, computesOfAll, List.nodup_append, List.nodup_append] at once
  obtain ⟨-, ⟨-, -, later⟩, earlier⟩ := once
  rcases beside with member | member
  · exact earlier slot (mem_computesOfAll.2 ⟨other, member, here⟩) slot
      (List.mem_append_left _ twice) rfl
  · exact later slot twice slot (mem_computesOfAll.2 ⟨other, member, here⟩) rfl

/-- A step does nothing of a computation that stands in another thread below the path. -/
theorem Step.deedsOf_of_beside {other : Thread}
    (step : Step setting path thread state trace thread' state') (fits : other.Fits setting path)
    (holds : other.Holds slot body) (apart : slot ∉ thread.computes) :
    trace.deedsOf slot = [] := by
  by_contra done
  rcases step.mem_of_deedsOf done with last | inner
  · exact (fits.of_holds holds).2.1 (List.mem_of_getLast? last)
  · exact apart inner

/-- A step of the computation of a further slot does nothing of the slots on the path to it. -/
theorem Step.deedsOf_of_mem
    (step : Step setting (path ++ [index]) thread state trace thread' state')
    (fits : thread.Fits setting (path ++ [index])) (fresh : index ∉ path) (onPath : slot ∈ path) :
    trace.deedsOf slot = [] := by
  by_contra done
  rcases step.mem_of_deedsOf done with last | inner
  · rw [List.getLast?_concat, Option.some_inj] at last
    exact fresh (last ▸ onPath)
  · obtain ⟨body, holds⟩ := mem_computes_iff.1 inner
    exact (fits.of_holds holds).2.1 (List.mem_append_left _ onPath)

/-- **Where a computation stands after a step, it stood before**, or the step is one of its own, or
it has only just begun. -/
theorem Step.holds_origin (step : Step setting path thread state trace thread' state')
    (links : path.IsChain setting.MayFetch) (fits : thread.Fits setting path)
    (once : thread.computes.Nodup) (holds : thread'.Holds slot body') :
    (thread.Holds slot body' ∧ trace.deedsOf slot = []) ∨
      (∃ way body, thread.Holds slot body ∧ (way ++ [slot]).IsChain setting.MayFetch ∧
        body.Fits setting (way ++ [slot]) ∧
        Step setting (way ++ [slot]) body state trace body' state') ∨
      (trace = [.begun slot] ∧ ∃ mark, body' = .resting mark (setting.slotRoutine slot)) := by
  induction step with
  | compute =>
    cases holds with
    | here => exact .inr (.inr ⟨rfl, _, rfl⟩)
    | inside holds => cases holds
  | @inside path _ index body body' _ _ _ _ step ih =>
    cases fits with
    | computing request fresh long permits inner =>
      rw [computes, List.nodup_cons] at once
      cases holds with
      -- The step is that of the computation itself, or of one further inside.
      | here => exact .inr (.inl ⟨path, body, .here, request.links links, inner, step⟩)
      | inside holds =>
        rcases ih (request.links links) inner once.2 holds with
          ⟨old, quiet⟩ | ⟨way, body, old, rest⟩ | new
        · exact .inl ⟨.inside old, quiet⟩
        · exact .inr (.inl ⟨way, body, .inside old, rest⟩)
        · exact .inr (.inr new)
  | limit =>
    cases holds with
    | beneath holds => cases holds
  | beneath step ih =>
    cases fits with
    | limited _ inner =>
      rw [computes] at once
      cases holds with
      | beneath holds =>
        rcases ih links inner once holds with ⟨old, quiet⟩ | ⟨way, body, old, rest⟩ | new
        · exact .inl ⟨.beneath old, quiet⟩
        · exact .inr (.inl ⟨way, body, .beneath old, rest⟩)
        · exact .inr (.inr new)
  | join =>
    cases holds with
    | side member holds =>
      obtain ⟨child, -, rfl⟩ := List.mem_map.1 member
      cases holds
  | @side path _ before thread thread' after _ _ _ _ step ih =>
    cases fits with
    | joining inner _ =>
      rw [computes] at once
      cases holds with
      | @side _ _ _ other _ _ member holds =>
        -- The computation stands in the thread that made the step, or beside it.
        by_cases same : other = thread'
        · subst same
          have own : thread.computes.Nodup := by
            rw [computesOfAll_append, computesOfAll] at once
            exact once.of_append_right.of_append_left
          have listed : thread ∈ before ++ thread :: after := by simp
          rcases ih links (inner _ listed) own holds with
            ⟨old, quiet⟩ | ⟨way, body, old, rest⟩ | new
          · exact .inl ⟨.side listed old, quiet⟩
          · exact .inr (.inl ⟨way, body, .side listed old, rest⟩)
          · exact .inr (.inr new)
        · -- The thread beside the one that made the step computes none of what that one does.
          have beside : other ∈ before ∨ other ∈ after := by
            simpa [same] using member
          have listed : other ∈ before ++ thread :: after := by
            rcases beside with earlier | later
            · exact List.mem_append_left _ earlier
            · simp [later]
          have apart := not_mem_computes_of_nodup once beside (mem_computes_iff.2 ⟨_, holds⟩)
          exact .inl ⟨.side listed holds, step.deedsOf_of_beside (inner other listed) holds apart⟩
  | _ => cases holds

end Thread

end RuleGraph
