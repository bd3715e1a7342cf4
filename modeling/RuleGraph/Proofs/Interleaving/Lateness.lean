import RuleGraph.Proofs.Interleaving.Request
import RuleGraph.Proofs.Routine.Relay

/-! # Slots that are late

A slot whose computation has not begun when its time is over is never computed: as soon as it is
requested it is found to be late. That some slot was found to be late is on record as long as an
outcome says so.

* **`Execution.Reaches.of_late`** — what becomes of a slot that is idle and late.
* **`Thread.Step.timesOut`** — a step that finds a slot late keeps an outcome that says so, and no
  other step keeps an outcome that comes from nowhere.
* **`Execution.Reaches.hasTimedOut_of_kept`**, **`Execution.Reaches.exists_kept_of_hasTimedOut`** —
  the record and the outcomes.
* **`State.mem_failed_iff`** — the errors that a report lists.
-/

namespace RuleGraph

variable {setting : Setting} {execution : Execution} {path : List Nat} {thread thread' : Thread}
  {state state' : State} {trace trace' : Trace} {session session' : Session} {slot index : Nat}
  {name : String} {outcome : Outcome}

/-! ## Idle and late -/

/-- What may become of a slot that is late and either idle or known to be late: one of the two, and
it does not begin. -/
theorem Thread.Fate.of_late (fate : Fate setting thread state trace state' slot)
    (late : state.isOverdue setting slot = true)
    (idle : (∃ since, state.cell slot = .idle since) ∨
      state.outcome? slot = some (.error (setting.timeoutError slot)))
    (busy : ∀ body, thread.Holds slot body → state.cell slot = .computing) :
    slot ∉ trace.begins ∧ ((∃ since, state'.cell slot = .idle since) ∨
      state'.outcome? slot = some (.error (setting.timeoutError slot))) := by
  have free : ∀ body, ¬thread.Holds slot body := by
    intro body holds
    have computing := busy body holds
    rcases idle with ⟨since, idle⟩ | kept
    · simp [idle] at computing
    · simp [State.outcome?, computing, Cell.outcome?] at kept
  cases fate with
  | kept same quiet =>
    refine ⟨quiet, ?_⟩
    rw [State.outcome?, same]
    exact idle
  | begun _ early | answered _ early => simp [late] at early
  | completed holds | released holds | dropped holds => exact absurd holds (free _)
  | late _ _ quiet now => exact ⟨by simp [quiet], .inr now⟩

/-- **A slot that is idle and late stays so until it is found to be late.** It neither begins nor
does anything. -/
theorem Execution.Reaches.of_late (started : execution.Started)
    (reaches : execution.Reaches trace session) {since : Nat}
    (idle : session.state.cell slot = .idle since)
    (late : session.state.isOverdue execution.setting slot = true)
    (leads : Session.Leads execution.setting session trace' session') :
    session'.state.isOverdue execution.setting slot = true ∧
      ((∃ since, session'.state.cell slot = .idle since) ∨
        session'.state.outcome? slot = some (.error (execution.setting.timeoutError slot))) ∧
      slot ∉ trace'.begins ∧ trace'.deedsOf slot = [] := by
  induction leads with
  | refl => exact ⟨late, .inl ⟨since, idle⟩, by simp, rfl⟩
  | @step trace' trace'' between last before step ih =>
    obtain ⟨late, state, fresh, quiet⟩ := ih
    have here := reaches.leads before
    have apart : between.state.cell slot ≠ .computing := by
      intro computing
      rcases state with ⟨since, idle⟩ | kept
      · simp [computing] at idle
      · simp [State.outcome?, computing, Cell.outcome?] at kept
    cases step with
    | call => exact ⟨late, state, by simpa using fresh, by simpa using quiet⟩
    | meanwhile other =>
      refine ⟨State.isOverdue_mono late other.now, ?_, by simpa using fresh, by simpa using quiet⟩
      rw [State.outcome?, State.cell_congr other.cells]
      exact state
    | go step =>
      obtain ⟨fresh', state'⟩ := (here.fate started step slot).of_late late state
        fun _ holds => (here.isBalanced started).cell_of_holds holds
      refine ⟨State.isOverdue_mono late (Nat.le_of_eq step.now_eq.symm), state',
        by simp [fresh, fresh'], ?_⟩
      rw [Trace.deedsOf_append, quiet, here.deedsOf_of_not_computing started step apart,
        List.append_nil]

/-! ## On record -/

/-- Effects find no slot late. -/
theorem State.hasTimedOut_perform {effect : Effect} :
    (state.perform setting effect).hasTimedOut = state.hasTimedOut := by
  cases effect <;> rfl

/-- Noting a wait finds no slot late. -/
theorem State.hasTimedOut_addWait :
    (state.addWait path index).hasTimedOut = state.hasTimedOut := by
  rw [State.addWait]
  split <;> rfl

/-- Ending a wait finds no slot late. -/
theorem State.hasTimedOut_removeWait :
    (state.removeWait path index).hasTimedOut = state.hasTimedOut := by
  rw [State.removeWait]
  split <;> rfl

/-- Answering finds no slot late. -/
theorem State.hasTimedOut_answer :
    (state.answer path index outcome).hasTimedOut = state.hasTimedOut :=
  hasTimedOut_removeWait

/-- Abandoning a thread finds no slot late. -/
theorem State.hasTimedOut_cancel :
    (Thread.cancel path thread state).hasTimedOut = state.hasTimedOut :=
  Thread.cancel_keeps (motive := fun state' => state'.hasTimedOut = state.hasTimedOut)
    (fun _ _ _ same => hasTimedOut_removeWait.trans same) (fun _ _ _ same => same) rfl

/-- Kept outcomes are what they are in the list of cells. -/
theorem State.outcome?_congr (same : state'.cells = state.cells) :
    state'.outcome? slot = state.outcome? slot := by
  rw [State.outcome?, State.cell_congr same, State.outcome?]

/-- **A step that finds a slot late keeps an outcome that says so.** In every other step, an outcome
that is kept was kept before, is at hand, or is what a computation has come to. -/
theorem Thread.Step.timesOut (step : Step setting path thread state trace thread' state')
    (fits : thread.Fits setting path) (sized : state.cells.length = setting.graph.size) :
    (state'.hasTimedOut = true ∧
      ∃ slot, state'.outcome? slot = some (.error (setting.timeoutError slot))) ∨
    state'.hasTimedOut = state.hasTimedOut ∧
      ∀ slot outcome, state'.outcome? slot = some outcome → state.outcome? slot = some outcome ∨
        setting.slotRoutine slot = .done outcome ∨ thread.Holds slot (.finished outcome) := by
  induction step with
  | finish | pause | sleep | wake | reuse | refuse | limit | conclude | join | gather =>
    exact .inr ⟨rfl, fun _ _ kept => .inl kept⟩
  | perform =>
    exact .inr ⟨State.hasTimedOut_perform, fun _ _ kept =>
      .inl ((State.outcome?_congr State.cells_perform).symm.trans kept)⟩
  | invoke => exact .inr ⟨rfl, fun _ _ kept => .inl kept⟩
  | await =>
    exact .inr ⟨State.hasTimedOut_addWait, fun _ _ kept =>
      .inl ((State.outcome?_congr State.cells_addWait).symm.trans kept)⟩
  | hear =>
    exact .inr ⟨State.hasTimedOut_removeWait, fun _ _ kept =>
      .inl ((State.outcome?_congr State.cells_removeWait).symm.trans kept)⟩
  | giveUp =>
    cases fits with
    | waiting request =>
      exact .inl ⟨State.hasTimedOut_answer, _, outcome?_answer (by simpa [sized] using request.1)⟩
  | @answer _ _ _ index _ _ _ state _ _ plain =>
    cases fits with
    | waiting request =>
      refine .inr ⟨State.hasTimedOut_answer, fun slot outcome kept => ?_⟩
      by_cases same : slot = index
      · subst same
        rw [outcome?_answer (by simpa [sized] using request.1), Option.some_inj] at kept
        exact .inr (.inl (kept ▸ plain))
      · rw [State.outcome?, State.cell_answer_ne same] at kept
        rw [State.begin, State.cell_setCell_ne same] at kept
        exact .inl kept
  | @compute _ _ _ _ index _ _ state =>
    cases fits with
    | waiting request =>
      refine .inr ⟨rfl, fun slot outcome kept => .inl ?_⟩
      by_cases same : slot = index
      -- What is being computed has no outcome.
      · subst same
        rw [State.outcome?, State.cell_begin_self (sized ▸ request.1)] at kept
        cases kept
      · rwa [State.outcome?, State.begin, State.cell_setCell_ne same] at kept
  | @complete _ _ _ index _ _ state =>
    cases fits with
    | computing request =>
      refine .inr ⟨State.hasTimedOut_answer, fun slot outcome kept => ?_⟩
      by_cases same : slot = index
      · subst same
        rw [outcome?_answer (sized ▸ request.1), Option.some_inj] at kept
        exact .inr (.inr (kept ▸ .here))
      · rw [State.outcome?, State.cell_answer_ne same] at kept
        exact .inl kept
  | expire =>
    cases fits with
    | computing request =>
      exact .inl ⟨State.hasTimedOut_answer, _, outcome?_answer (by simpa [sized] using request.1)⟩
  | @drop path _ _ _ body _ state =>
    cases fits with
    | limited _ inner =>
      refine .inr ⟨State.hasTimedOut_cancel, fun slot outcome kept => .inl ?_⟩
      by_cases member : slot ∈ body.computes
      -- What is released has no outcome.
      · obtain ⟨since, idle⟩ := @cell_cancel_of_mem body path state slot
          (sized ▸ inner.lt_size_of_mem_computes member) member
        rw [State.outcome?, idle] at kept
        cases kept
      · rwa [State.outcome?, cell_cancel_of_not_mem member] at kept
  | beneath _ ih =>
    cases fits with
    | limited _ inner =>
      refine (ih inner sized).imp_right (And.imp_right fun origin slot outcome kept => ?_)
      exact (origin slot outcome kept).imp_right (Or.imp_right .beneath)
  | inside _ ih =>
    cases fits with
    | computing _ _ _ _ inner =>
      refine (ih inner sized).imp_right (And.imp_right fun origin slot outcome kept => ?_)
      exact (origin slot outcome kept).imp_right (Or.imp_right .inside)
  | side _ ih =>
    cases fits with
    | joining inner _ =>
      refine (ih (inner _ (by simp)) sized).imp_right
        (And.imp_right fun origin slot outcome kept => ?_)
      exact (origin slot outcome kept).imp_right (Or.imp_right (.side (by simp)))

/-- No computation comes to being late by itself. -/
theorem not_isOwn_featureTimeout {missing : String → Prop} {feature : String} {milliseconds : Nat} :
    ¬IsOwn missing (.error (.featureTimeout feature milliseconds)) := nofun

/-- What the computation of a slot comes to says that something was late only if a fetch was
answered so. -/
theorem exists_reply_of_featureTimeout {reply : Nat → Outcome → Prop} {deeds : Multiset Deed}
    {feature : String} {milliseconds : Nat}
    (told : (setting.slotRoutine slot).Does reply deeds
      (some (.error (.featureTimeout feature milliseconds)))) :
    ∃ index, reply index (.error (.featureTimeout feature milliseconds)) :=
  (Setting.endsIn_slotRoutine_relays _ _ told).resolve_left not_isOwn_featureTimeout

/-- Only kept outcomes answer a fetch so. -/
theorem State.Replies.kept_of_featureTimeout {requester : Option Nat} {feature : String}
    {milliseconds : Nat}
    (replies : state.Replies setting requester index
      (.error (.featureTimeout feature milliseconds))) :
    state.outcome? index = some (.error (.featureTimeout feature milliseconds)) := by
  rcases replies with kept | ⟨names, refused, -⟩
  · exact kept
  · cases refused

namespace Execution

/-- **An outcome that says that a slot was late is on record.** -/
theorem Reaches.hasTimedOut_of_kept (started : execution.Started)
    (reaches : execution.Reaches trace session) {feature : String} {milliseconds : Nat}
    (kept : session.state.outcome? slot = some (.error (.featureTimeout feature milliseconds))) :
    session.state.hasTimedOut = true := by
  induction reaches generalizing slot with
  | start => simp [State.outcome?, started.cell_eq, Cell.outcome?] at kept
  | @step trace _ session _ before last ih =>
    cases last with
    | call => exact ih kept
    | meanwhile other =>
      rw [State.outcome?_congr other.cells] at kept
      exact other.hasTimedOut.trans (ih kept)
    | @go names threads threads' state state' _ step =>
      have fits := Session.fits_requests (before.fits started.linked)
      have balanced := before.isBalanced started
      have whole := Session.step_requests names step
      rcases whole.timesOut fits balanced.cells with ⟨late, -⟩ | ⟨same, origin⟩
      · exact late
      refine same.trans ?_
      rcases origin slot _ kept with earlier | plain | holds
      · exact ih earlier
      -- What is at hand was fetched from nowhere.
      · have told : (execution.setting.slotRoutine slot).Does (fun _ _ => False) 0
            (some (.error (.featureTimeout feature milliseconds))) := by
          rw [plain]
          exact .done
        obtain ⟨_, never⟩ := exists_reply_of_featureTimeout told
        exact never.elim
      -- What a computation comes to so was kept for the slot that it was fetched from.
      · have told := (before.story started slot).left (balanced.cell_of_holds holds) _ holds _
          (fun _ _ replies => replies) 0 _ .finished
        obtain ⟨_, replies⟩ := exists_reply_of_featureTimeout told
        exact ih replies.kept_of_featureTimeout

/-- **What is on record as late has an outcome that says so.** -/
theorem Reaches.exists_kept_of_hasTimedOut (started : execution.Started)
    (fresh : execution.state.hasTimedOut = false) (reaches : execution.Reaches trace session)
    (late : session.state.hasTimedOut = true) :
    ∃ slot, session.state.outcome? slot =
      some (.error (execution.setting.timeoutError slot)) := by
  induction reaches with
  | start => simp [fresh] at late
  | @step trace _ session _ before last ih =>
    have stays := before.outcome?_of_step started last
    cases last with
    | call => exact ih late
    | meanwhile other =>
      obtain ⟨slot, kept⟩ := ih (other.hasTimedOut.symm.trans late)
      exact ⟨slot, stays slot _ kept⟩
    | @go names threads threads' state state' _ step =>
      have fits := Session.fits_requests (before.fits started.linked)
      have whole := Session.step_requests names step
      rcases whole.timesOut fits (before.isBalanced started).cells with ⟨-, found⟩ | ⟨same, -⟩
      · exact found
      · obtain ⟨slot, kept⟩ := ih (same.symm.trans late)
        exact ⟨slot, stays slot _ kept⟩

end Execution

/-- **A report lists the errors of slots**, each under the name of its slot. -/
theorem State.mem_failed_iff {error : ExecutionError} :
    (name, error) ∈ (state.report setting).failed ↔
      ∃ index < setting.graph.size, setting.graph.name index = name ∧
        state.outcome? index = some (.error error) := by
  simp only [State.report, State.outcomes, List.mem_filterMap, List.mem_range,
    Option.map_eq_some_iff]
  constructor
  · rintro ⟨⟨name', outcome⟩, ⟨index, bound, outcome', kept, same⟩, listed⟩
    cases same
    split at listed
    · cases listed
    · rename_i failed
      cases listed
      exact ⟨index, bound, rfl, kept.trans (congrArg some failed)⟩
  · rintro ⟨index, bound, rfl, kept⟩
    exact ⟨_, ⟨index, bound, _, kept, rfl⟩, rfl⟩

end RuleGraph
