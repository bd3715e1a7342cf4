import RuleGraph.Proofs.Graph.Recorded
import RuleGraph.Proofs.Interleaving.Lateness
import RuleGraph.Proofs.Interleaving.Outcomes
import RuleGraph.Proofs.Interleaving.Termination

/-! # The deadline

When the time of an execution is over, no further slot is computed. What was computed stays, and
inputs are still there.

* **`State.isOverdue_of_limited`**, **`State.isOverdue_of_input`** — which slots are late, and when.
* **`Execution.fetch_of_late`**, **`Execution.fetch_of_input`** — what the host gets at once.
* **`Execution.deadline_enforced`** — what becomes of requests after the deadline.
-/

namespace RuleGraph

variable {setting : Setting} {execution : Execution} {state state' : State} {trace : Trace}
  {session : Session} {index timeout : Nat} {name : String} {outcome : Outcome} {slot : Slot}

/-! ## Inputs and other slots -/

/-- A slot that is no input is late once the time of the execution is over. -/
theorem State.isOverdue_of_limited (found : setting.graph.slots[index]? = some slot)
    (computed : slot.isInput = false) (limited : setting.featureTimeout = some timeout)
    (past : setting.started + timeout ≤ state.now) : state.isOverdue setting index = true := by
  rw [State.isOverdue, Setting.deadlineOf?, Setting.deadline?, found, limited]
  simpa [computed] using past

/-- An input is never late. -/
theorem State.isOverdue_of_input (found : setting.graph.slots[index]? = some slot)
    (input : slot.isInput = true) : state.isOverdue setting index = false := by
  rw [State.isOverdue, Setting.deadlineOf?, found]
  simp [input]

/-- The value of an input is at hand. -/
theorem Setting.slotRoutine_of_input (found : setting.graph.slots[index]? = some slot)
    (input : slot.isInput = true) : setting.slotRoutine index =
      .done (.ok ((Dictionary.find? setting.inputs slot.name).getD .null)) := by
  rw [Slot.isInput, decide_eq_true_iff] at input
  rw [Setting.slotRoutine, found]
  simp only [input]

/-- A slot by its name and its place. -/
theorem Graph.hasInput_eq {graph : Graph} (named : graph.indexOf? name = some index)
    (found : graph.slots[index]? = some slot) : graph.hasInput name = slot.isInput := by
  rw [Graph.hasInput, Graph.get?_eq_some_iff.2 ⟨index, named, found⟩]

/-- A slot from which no cycle is reached knows none. -/
theorem Graph.cycleFrom?_of_not_reachesCycle {graph : Graph} (linked : graph.Linked)
    (named : graph.indexOf? name = some index) (free : ¬ReachesCycle graph.slots name) :
    graph.cycleFrom? index = none := by
  rw [← Graph.name_of_indexOf? named, ← exists_cycleFrom?_iff linked (lt_size_of_indexOf? named)]
    at free
  exact Option.eq_none_iff_forall_ne_some.2 fun path known => free ⟨path, known⟩

/-! ## Requests that are answered at once -/

/-- A slot that has no outcome and is not being computed is idle. -/
theorem State.exists_idle (unknown : state.outcome? index = none)
    (apart : state.cell index ≠ .computing) : ∃ since, state.cell index = .idle since := by
  rw [State.outcome?] at unknown
  cases here : state.cell index with
  | idle since => exact ⟨since, rfl⟩
  | computing => exact absurd here apart
  | settled outcome since => simp [here, Cell.outcome?] at unknown

/-- Only slots that are there have outcomes. -/
theorem State.lt_length_of_outcome? (kept : state.outcome? index = some outcome) :
    index < state.cells.length := by
  by_contra beyond
  rw [State.outcome?, State.cell, List.getElem?_eq_none (Nat.le_of_not_lt beyond)] at kept
  cases kept

namespace Execution

/-- A request of the host for an idle slot is over if the slot is computed at once. -/
theorem fetch_of_idle (found : execution.setting.graph.indexOf? name = some index)
    (free : execution.setting.graph.cycleFrom? index = none) {since : Nat}
    (idle : execution.state.cell index = .idle since)
    (computed : Thread.compute execution.setting
      (Thread.enter execution.setting execution.setting.graph.size) [] index execution.state =
        (.finished outcome, state')) (passes : Nat) :
    execution.fetch passes name = (some outcome, { execution with state := state' }) := by
  have unknown : execution.state.outcome? index = none := by
    rw [State.outcome?, idle]
    rfl
  -- The host has an empty path, which closes no cycle and leaves no wait.
  have granted : execution.state.request execution.setting [] index =
      (.granted, execution.state) := by
    have closes : execution.state.cycleOf? execution.setting [] index = none := by
      rw [State.cycleOf?, free]
      rfl
    unfold State.request
    simp only [unknown, closes, idle]
    rfl
  refine fetch_of_start found ?_ passes
  rw [Thread.start, Thread.startWith]
  simp only [bind_apply, modifyGet_apply, granted, List.length_nil, Nat.sub_zero, computed,
    Thread.startWith, pure_apply]

/-- **A request for an idle slot that is late** is answered by saying so. -/
theorem fetch_of_late (found : execution.setting.graph.indexOf? name = some index)
    (free : execution.setting.graph.cycleFrom? index = none) {since : Nat}
    (idle : execution.state.cell index = .idle since)
    (late : execution.state.isOverdue execution.setting index = true) (passes : Nat) :
    execution.fetch passes name = (some (.error (execution.setting.timeoutError index)),
      { execution with
        state := (execution.state.timeOut execution.setting index).2.answer [] index
          (.error (execution.setting.timeoutError index)) }) :=
  fetch_of_idle found free idle (Thread.compute_of_late late) passes

/-- **A request for an idle slot whose outcome is at hand** is answered by that outcome, unless the
slot is late. -/
theorem fetch_of_plain (linked : execution.setting.graph.Linked)
    (found : execution.setting.graph.indexOf? name = some index)
    (free : execution.setting.graph.cycleFrom? index = none) {since : Nat}
    (idle : execution.state.cell index = .idle since)
    (early : execution.state.isOverdue execution.setting index = false)
    (plain : execution.setting.slotRoutine index = .done outcome) (passes : Nat) :
    execution.fetch passes name = (some outcome,
      { execution with state := (execution.state.begin index).answer [] index outcome }) := by
  refine fetch_of_idle found free idle ?_ passes
  have enters : Thread.Enters execution.setting []
      (Thread.enter execution.setting execution.setting.graph.size) :=
    Thread.enters_of_isPath linked Graph.IsPath.nil
  rw [Thread.compute_of_early early,
    enters.atOnce index (Graph.lt_size_of_indexOf? found) (by simp) outcome plain]

/-! ## Sessions -/

/-- A request of the host for a slot that knows no cycle is answered by what is kept. -/
theorem kept_of_answers (named : setting.graph.indexOf? name = some index)
    (free : setting.graph.cycleFrom? index = none)
    (answer : state.Answers setting name outcome) : state.outcome? index = some outcome := by
  rcases (State.answers_iff named).1 answer with kept | ⟨names, -, known | ⟨slot, nobody, -⟩⟩
  · exact kept
  · rw [free] at known
    cases known
  · cases nobody

/-- **What the host gets for a slot that is idle and late** says that it is late. That is kept, and
nothing else changes that others see. -/
theorem Reaches.fetch_of_idle_late (started : execution.Started)
    (reaches : execution.Reaches trace session)
    (named : execution.setting.graph.indexOf? name = some index)
    (free : execution.setting.graph.cycleFrom? index = none) {since : Nat}
    (idle : session.state.cell index = .idle since)
    (late : session.state.isOverdue execution.setting index = true) :
    ∃ state, (∀ passes, { execution with state := session.state }.fetch passes name =
        (some (.error (execution.setting.timeoutError index)), { execution with state })) ∧
      state.outcome? index = some (.error (execution.setting.timeoutError index)) ∧
      (∀ other, other ≠ index → state.cell other = session.state.cell other) ∧
      state.Unseen session.state := by
  have bound : index < (session.state.timeOut execution.setting index).2.cells.length := by
    rw [State.cells_timeOut, (reaches.isBalanced started).cells]
    exact Graph.lt_size_of_indexOf? named
  have told := @Execution.fetch_of_late { execution with state := session.state } _ _ named free _
    idle late
  refine ⟨_, told, Thread.outcome?_answer bound, fun other apart => ?_,
    .trans .answer ⟨rfl, rfl, rfl⟩⟩
  rw [State.cell_answer_ne apart, State.cell_congr State.cells_timeOut]

/-- **What the host is told of a slot that is idle and late** is that it is late. Nothing is done for
it. -/
theorem Reaches.told_of_late (started : execution.Started)
    (reaches : execution.Reaches trace session)
    (named : execution.setting.graph.indexOf? name = some index)
    (free : execution.setting.graph.cycleFrom? index = none) {since : Nat}
    (idle : session.state.cell index = .idle since)
    (late : session.state.isOverdue execution.setting index = true) {trace' : Trace}
    {session' : Session} (leads : Session.Leads execution.setting session trace' session') :
    index ∉ trace'.begins ∧ trace'.deedsOf index = [] ∧
      List.Forall₂ (fun other thread => other = name → ∀ outcome, thread = .finished outcome →
        outcome = .error (execution.setting.timeoutError index) ∧
          session'.state.outcome? index = some outcome) session'.names session'.threads := by
  obtain ⟨-, state, fresh, quiet⟩ := reaches.of_late started idle late leads
  refine ⟨fresh, quiet, ((reaches.leads leads).isRequest started).imp ?_⟩
  rintro _ _ isRequest rfl outcome rfl
  cases isRequest with
  | finished answer =>
    have kept := kept_of_answers named free answer
    refine ⟨?_, kept⟩
    rcases state with ⟨since, idle⟩ | kept'
    · simp [State.outcome?, idle, Cell.outcome?] at kept
    · rw [kept, Option.some_inj] at kept'
      exact kept'

/-- The outcome that is kept for an input is its value. -/
theorem Reaches.kept_of_input (started : execution.Started)
    (reaches : execution.Reaches trace session)
    (found : execution.setting.graph.slots[index]? = some slot) (input : slot.isInput = true)
    (kept : session.state.outcome? index = some outcome) :
    outcome = .ok ((Dictionary.find? execution.setting.inputs slot.name).getD .null) := by
  rcases reaches.tells_of_kept started kept with told | ⟨-, late⟩
  · rw [Session.Tells, Setting.slotRoutine_of_input found input] at told
    exact Routine.eq_of_does_done told
  · rw [State.isOverdue_of_input found input] at late
    cases late

/-- Inputs are never being computed, since their values are at hand. -/
theorem Reaches.apart_of_input (started : execution.Started)
    (reaches : execution.Reaches trace session)
    (found : execution.setting.graph.slots[index]? = some slot) (input : slot.isInput = true) :
    session.state.cell index ≠ .computing := by
  intro computing
  obtain ⟨body, holds⟩ := (reaches.isBalanced started).exists_holds computing
  obtain ⟨-, -, long⟩ := (Session.fits_requests (reaches.fits started.linked)).of_holds holds
  exact long _ (Setting.slotRoutine_of_input found input)

/-- **What the host gets for an input** is its value, whenever it asks. -/
theorem Reaches.fetch_of_input (started : execution.Started)
    (reaches : execution.Reaches trace session)
    (named : execution.setting.graph.indexOf? name = some index)
    (found : execution.setting.graph.slots[index]? = some slot) (input : slot.isInput = true)
    (free : execution.setting.graph.cycleFrom? index = none) :
    ∃ state, ∀ passes, { execution with state := session.state }.fetch passes name =
      (some (.ok ((Dictionary.find? execution.setting.inputs slot.name).getD .null)),
        { execution with state }) := by
  cases known : session.state.outcome? index with
  | some outcome =>
    cases reaches.kept_of_input started found input known
    exact ⟨_, @fetch_of_settled { execution with state := session.state } _ _ _ named known⟩
  | none =>
    obtain ⟨since, idle⟩ := State.exists_idle known (reaches.apart_of_input started found input)
    exact ⟨_, @fetch_of_plain { execution with state := session.state } _ _ _ started.linked named
      free _ idle (State.isOverdue_of_input found input)
      (Setting.slotRoutine_of_input found input)⟩

/-- **A report says that something was late if and only if it lists such an error.** -/
theorem Reaches.report_hasTimedOut_iff (started : execution.Started)
    (fresh : execution.state.hasTimedOut = false) (reaches : execution.Reaches trace session) :
    (session.state.report execution.setting).hasTimedOut = true ↔
      ∃ entry ∈ (session.state.report execution.setting).failed,
        ∃ feature milliseconds, entry.2 = .featureTimeout feature milliseconds := by
  constructor
  · intro late
    obtain ⟨slot, kept⟩ := reaches.exists_kept_of_hasTimedOut started fresh late
    have bound : slot < execution.setting.graph.size := by
      rw [← (reaches.isBalanced started).cells]
      exact State.lt_length_of_outcome? kept
    exact ⟨_, State.mem_failed_iff.2 ⟨slot, bound, rfl, kept⟩, _, _, rfl⟩
  · rintro ⟨⟨name, error⟩, listed, feature, milliseconds, rfl⟩
    obtain ⟨index, -, -, kept⟩ := State.mem_failed_iff.1 listed
    exact reaches.hasTimedOut_of_kept started kept

/-- A request of the host that was answered so is on record. -/
theorem Reaches.hasTimedOut_of_finished (started : execution.Started)
    (reaches : execution.Reaches trace session) {feature : String} {milliseconds : Nat}
    (finished : .finished (.error (.featureTimeout feature milliseconds)) ∈ session.threads) :
    session.state.hasTimedOut = true := by
  obtain ⟨name, -, isRequest⟩ := exists_mem_of_forall₂ (reaches.isRequest started) finished
  cases isRequest with
  | finished answer =>
    rw [State.Answers] at answer
    split at answer
    · exact reaches.hasTimedOut_of_kept started answer.kept_of_featureTimeout
    · cases answer

/-- **The deadline is enforced**, in every session of every execution with a time limit. All
requests are answered in the end. Once the time is over, a request of the host for a slot that is no
input, reaches no cycle, has no outcome and is not being computed is answered at once by saying that
this slot was late; that outcome is kept, nothing else changes that others see, and in all sessions
that follow the slot is never begun and does nothing, and every request for it has that answer.
Outcomes that were kept before stay, and are what the host gets. Inputs that reach no cycle have the
values that the host has supplied, or null. And a report says that something was late if and only if
it lists such an error, which it does as soon as a request was answered by one. -/
theorem deadline_enforced {executable : Executable} {options : ExecuteOptions} {history : History}
    (built : executable.graph.IsBuilt)
    (begun : executable.execute options history = .ok execution)
    (limited : options.featureTimeout.or executable.config.featureTimeout = some timeout)
    (reaches : execution.Reaches trace session) :
    session.Settles execution.setting ∧
    (∀ name index, executable.graph.indexOf? name = some index →
      executable.graph.hasInput name = false → ¬Graph.ReachesCycle executable.graph.slots name →
      execution.state.now + timeout ≤ session.state.now →
      session.state.outcome? index = none → session.state.cell index ≠ .computing →
      (∃ state, (∀ passes, { execution with state := session.state }.fetch passes name =
          (some (.error (.featureTimeout name timeout)), { execution with state })) ∧
        state.outcome? index = some (.error (.featureTimeout name timeout)) ∧
        (∀ other, other ≠ index → state.cell other = session.state.cell other) ∧
        state.Unseen session.state) ∧
      ∀ trace' session', Session.Leads execution.setting session trace' session' →
        index ∉ trace'.begins ∧ trace'.deedsOf index = [] ∧
        List.Forall₂ (fun other thread => other = name → ∀ outcome, thread = .finished outcome →
          outcome = .error (.featureTimeout name timeout) ∧
            session'.state.outcome? index = some outcome) session'.names session'.threads) ∧
    (∀ index outcome, session.state.outcome? index = some outcome →
      ∀ trace' session', Session.Leads execution.setting session trace' session' →
        session'.state.outcome? index = some outcome ∧
        ∀ passes name, executable.graph.indexOf? name = some index →
          { execution with state := session'.state }.fetch passes name =
            (some outcome, { execution with state := session'.state })) ∧
    (∀ name, executable.graph.hasInput name = true →
      ¬Graph.ReachesCycle executable.graph.slots name →
      (∃ state, ∀ passes, { execution with state := session.state }.fetch passes name =
        (some (.ok ((Dictionary.find? options.inputs name).getD .null)),
          { execution with state })) ∧
      List.Forall₂ (fun other thread => other = name → ∀ outcome, thread = .finished outcome →
        outcome = .ok ((Dictionary.find? options.inputs name).getD .null))
        session.names session.threads) ∧
    ({ execution with state := session.state }.report.hasTimedOut = true ↔
      ∃ entry ∈ { execution with state := session.state }.report.failed,
        ∃ feature milliseconds, entry.2 = .featureTimeout feature milliseconds) ∧
    ∀ feature milliseconds,
      .finished (.error (.featureTimeout feature milliseconds)) ∈ session.threads →
      { execution with state := session.state }.report.hasTimedOut = true := by
  have started := started_of_execute built begun
  have supplied := fun name => @find?_inputs_of_execute _ _ _ _ name begun
  have fresh := hasTimedOut_of_execute begun
  obtain ⟨rfl, -, -, -, -, -, start, timeLimit⟩ := eq_of_execute begun
  rw [limited] at timeLimit
  have reported := reaches.report_hasTimedOut_iff started fresh
  refine ⟨reaches.settles started, fun name index named computed free past unknown apart => ?_,
    fun index outcome kept trace' session' leads => ?_, fun name input free => ?_,
    reported, fun feature milliseconds finished => reaches.hasTimedOut_of_finished started finished⟩
  · obtain ⟨slot, found, -⟩ := Graph.getElem?_of_indexOf? named
    rw [Graph.hasInput_eq named found] at computed
    have unknowing := Graph.cycleFrom?_of_not_reachesCycle started.linked named free
    have late := State.isOverdue_of_limited found computed timeLimit (start ▸ past)
    obtain ⟨since, idle⟩ := State.exists_idle unknown apart
    have error : execution.setting.timeoutError index = .featureTimeout name timeout := by
      rw [Setting.timeoutError, Setting.graph, Graph.name_of_indexOf? named, timeLimit,
        Option.getD_some]
    rw [← error]
    exact ⟨reaches.fetch_of_idle_late started named unknowing idle late,
      fun trace' session' leads => reaches.told_of_late started named unknowing idle late leads⟩
  · obtain ⟨since, settled⟩ := State.outcome?_eq_some_iff.1 kept
    have still := State.outcome?_eq_some_iff.2
      ⟨since, leads.cell_of_settled started reaches settled⟩
    exact ⟨still, fun passes name named =>
      @fetch_of_settled { execution with state := session'.state } _ _ _ named still passes⟩
  · rw [← supplied name input]
    rw [Graph.hasInput] at input
    split at input
    · rename_i slot got
      obtain ⟨index, named, found⟩ := Graph.get?_eq_some_iff.1 got
      have unknowing := Graph.cycleFrom?_of_not_reachesCycle started.linked named free
      obtain rfl : slot.name = name := by simpa using List.find?_some got
      refine ⟨reaches.fetch_of_input started named found input unknowing,
        (reaches.isRequest started).imp ?_⟩
      rintro _ _ isRequest rfl outcome rfl
      cases isRequest with
      | finished answer =>
        exact reaches.kept_of_input started found input (kept_of_answers named unknowing answer)
    · cases input

/-- The sample with a time limit. -/
def limitedSample : Execution :=
  { sample with setting := { sample.setting with featureTimeout := some 5 } }

/-- It is what its executable starts with, given that limit. -/
theorem execute_limitedSample :
    sample.setting.executable.execute
      { inputs := [("Event", .text "login")], featureTimeout := some 5 } {} = .ok limitedSample :=
  rfl

/-- After five milliseconds the feature is late, while the event is still there. -/
theorem deadline_enforced_of_sample : ∃ session, limitedSample.Reaches [] session ∧
    (∃ state, ∀ passes, { limitedSample with state := session.state }.fetch passes "User" =
      (some (.error (.featureTimeout "User" 5)), { limitedSample with state })) ∧
    ∃ state, ∀ passes, { limitedSample with state := session.state }.fetch passes "Event" =
      (some (.ok (.text "login")), { limitedSample with state }) := by
  have reaches : limitedSample.Reaches ([] ++ [])
      ⟨[], [], limitedSample.state.moveClock 5⟩ :=
    Reaches.start.step (.meanwhile (State.meanwhile_moveClock _ 5))
  -- Neither slot knows a cycle.
  have linked := isBuilt_sample.linked
  have free : ∀ index < 2, ¬Graph.ReachesCycle sample.setting.executable.graph.slots
      (sample.setting.executable.graph.name index) := by
    intro index bound around
    obtain ⟨path, known⟩ := (@Graph.exists_cycleFrom?_iff _ index linked bound).2 around
    match index, bound with
    | 0, _ | 1, _ => cases known
  obtain ⟨-, late, -, inputs, -⟩ :=
    deadline_enforced isBuilt_sample execute_limitedSample rfl reaches
  obtain ⟨⟨state, told, -⟩, -⟩ := late "User" 1 (by decide) (by decide) (free 1 (by decide))
    (by decide) rfl nofun
  exact ⟨_, reaches, ⟨state, told⟩, (inputs "Event" (by decide) (free 0 (by decide))).1⟩

end Execution

end RuleGraph
