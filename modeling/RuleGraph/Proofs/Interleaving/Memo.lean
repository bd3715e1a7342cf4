import RuleGraph.Proofs.Interleaving.Fate

/-! # Outcomes are kept

The outcome that is kept for a slot never changes, and its computation begins again only if a
function has dropped it, or something that waited for it.

* **`Session.Leads`** — a session comes to another one.
* **`Execution.Reaches.count_begins_le`** — a computation begins at most once more than something is
  dropped.
* **`Session.Leads.cell_of_settled`** — kept outcomes stay.
* **`Thread.Step.of_fetch`** — later requests are answered by the kept outcome.
-/

namespace RuleGraph

variable {setting : Setting} {execution : Execution} {path : List Nat} {thread thread' : Thread}
  {state state' : State} {trace trace' : Trace} {session session' session'' : Session}
  {slot : Nat} {outcome : Outcome}

/-! ## Sessions as threads -/

namespace Session

/-- The requests of a session, seen as threads side by side. -/
def requests (session : Session) : Thread :=
  .joining 0 session.threads fun _ => .done (.ok .null)

/-- A step of one of the requests is one of all of them together. -/
theorem step_requests (names : List String) {threads threads' : List Thread}
    (step : Thread.SideStep setting [] threads state trace threads' state') :
    Thread.Step setting [] (requests ⟨names, threads, state⟩) state trace
      (requests ⟨names, threads', state'⟩) state' :=
  step.joining

/-- What fits for all requests fits for them together. -/
theorem fits_requests (fits : ∀ thread ∈ session.threads, thread.Fits setting []) :
    session.requests.Fits setting [] :=
  .joining fits fun _ _ fetched => by cases fetched

/-- Balance bounds what the requests hold. -/
theorem IsBalanced.count_computes_le (balanced : session.IsBalanced setting) (slot : Nat) :
    session.requests.computes.count slot ≤ session.state.busy slot :=
  Nat.le_of_eq (balanced.computes slot).symm

/-- No slot is computed by two requests. -/
theorem IsBalanced.computes_nodup (balanced : session.IsBalanced setting) :
    session.requests.computes.Nodup :=
  List.nodup_iff_count_le_one.2 fun slot =>
    Nat.le_trans (balanced.count_computes_le slot) session.state.busy_le_one

/-- A slot that is computed within a request is on record. -/
theorem IsBalanced.cell_of_holds {body : Thread} (balanced : session.IsBalanced setting)
    (holds : session.requests.Holds slot body) : session.state.cell slot = .computing := by
  refine State.busy_pos.1 (Nat.lt_of_lt_of_le ?_ (balanced.count_computes_le slot))
  exact List.count_pos_iff.2 (Thread.mem_computes_iff.2 ⟨body, holds⟩)

/-- A slot on record is computed within a request. -/
theorem IsBalanced.exists_holds (balanced : session.IsBalanced setting)
    (computing : session.state.cell slot = .computing) :
    ∃ body, session.requests.Holds slot body := by
  -- What is on record is held, and what is held stands somewhere.
  refine Thread.mem_computes_iff.1 (List.count_pos_iff.1 ?_)
  exact Nat.lt_of_lt_of_eq (State.busy_pos.2 computing) (balanced.computes slot)

/-- A session comes to another one. -/
inductive Leads (setting : Setting) (first : Session) : Trace → Session → Prop where
  /-- Nothing happens. -/
  | refl : Leads setting first [] first
  /-- A step more. -/
  | step {trace trace' between last} (before : Leads setting first trace between)
    (step : Step setting between trace' last) : Leads setting first (trace ++ trace') last

end Session

/-- Where a session leads to can be reached. -/
theorem Execution.Reaches.leads (reaches : execution.Reaches trace session)
    (leads : Session.Leads execution.setting session trace' session') :
    execution.Reaches (trace ++ trace') session' := by
  induction leads with
  | refl => simpa using reaches
  | step _ last ih =>
    rw [← List.append_assoc]
    exact ih.step last

/-- What a step of one of the requests makes of a slot. -/
theorem Execution.Reaches.fate (started : execution.Started)
    (reaches : execution.Reaches trace session) {threads : List Thread}
    (step : Thread.SideStep execution.setting [] session.threads session.state trace' threads
      state')
    (slot : Nat) :
    Thread.Fate execution.setting session.requests session.state trace' state' slot :=
  (Session.step_requests session.names step).fate
    (Session.fits_requests (reaches.fits started.linked)) (reaches.isBalanced started).cells slot

/-! ## The clock -/

/-- No step of one of several threads moves the clock. -/
theorem Thread.SideStep.now_eq {threads threads' : List Thread}
    (step : SideStep setting path threads state trace threads' state') :
    state'.now = state.now := by
  obtain ⟨step⟩ := step
  exact step.now_eq

/-- What is late stays late. -/
theorem State.isOverdue_mono (late : state.isOverdue setting slot = true)
    (later : state.now ≤ state'.now) : state'.isOverdue setting slot = true := by
  rw [State.isOverdue] at late ⊢
  split at late
  · simp only [decide_eq_true_eq] at late ⊢
    omega
  · cases late

/-! ## Beginning once -/

/-- What begins in a step was idle and had time left. -/
theorem Thread.Fate.of_mem_begins (fate : Fate setting thread state trace state' slot)
    (begins : slot ∈ trace.begins) :
    trace = [.begun slot] ∧ (∃ since, state.cell slot = .idle since) ∧
      state.isOverdue setting slot = false ∧ ∀ since, state'.cell slot ≠ .idle since := by
  cases fate with
  | kept _ quiet => exact absurd begins quiet
  | begun idle early only now => exact ⟨only, ⟨_, idle⟩, early, by simp [now]⟩
  | answered idle early only _ now =>
    refine ⟨only, ⟨_, idle⟩, early, fun since again => ?_⟩
    rw [State.outcome?, again] at now
    cases now
  | completed _ quiet | late _ _ quiet | released _ _ quiet =>
    rw [quiet] at begins
    cases begins
  | dropped _ only =>
    rw [only] at begins
    cases begins

/-- What is idle after a step was idle before, or it is late, or something is dropped. -/
theorem Thread.Fate.of_idle {since : Nat} (fate : Fate setting thread state trace state' slot)
    (idle : state'.cell slot = .idle since) :
    state.cell slot = .idle since ∨ state.isOverdue setting slot = true ∨ trace.drops = 1 := by
  cases fate with
  | kept same => exact .inl (same ▸ idle)
  | released _ late => exact .inr (.inl late)
  | dropped _ only => exact .inr (.inr (by rw [only, Trace.drops_dropped]))
  | begun _ _ _ now => simp [now] at idle
  | answered _ _ _ _ now | completed _ _ now | late _ _ _ now =>
    rw [State.outcome?, idle] at now
    cases now

namespace Execution

/-- **A computation begins at most once more than something is dropped**, and what may begin again has
been dropped as often as it has begun. -/
theorem Reaches.count_begins_le (started : execution.Started)
    (reaches : execution.Reaches trace session) (slot : Nat) :
    trace.begins.count slot ≤ trace.drops + 1 ∧
      ∀ since, session.state.cell slot = .idle since →
        session.state.isOverdue execution.setting slot = false →
          trace.begins.count slot ≤ trace.drops := by
  induction reaches with
  | start => exact ⟨Nat.zero_le _, fun _ _ _ => Nat.zero_le _⟩
  | @step trace trace' session session' before last ih =>
    obtain ⟨atMost, again⟩ := ih
    -- What has time left has had time left all along.
    have early : session.state.now ≤ session'.state.now →
        session'.state.isOverdue execution.setting slot = false →
          session.state.isOverdue execution.setting slot = false := by
      intro later inTime
      by_contra late
      rw [State.isOverdue_mono (Bool.of_not_eq_false late) later] at inTime
      cases inTime
    cases last with
    | call => simpa using ⟨atMost, again⟩
    | meanwhile other =>
      rw [List.append_nil]
      refine ⟨atMost, fun since idle inTime => again since ?_ (early other.now inTime)⟩
      rwa [State.cell_congr other.cells] at idle
    | go step =>
      have fate := before.fate started step slot
      have inTime := early (Nat.le_of_eq step.now_eq.symm)
      rw [Trace.begins_append, List.count_append, Trace.drops_append]
      by_cases new : slot ∈ trace'.begins
      -- It begins, so that it was idle and in time, and now it is idle no longer.
      · obtain ⟨rfl, ⟨since, idle⟩, soon, gone⟩ := fate.of_mem_begins new
        have dropped := again since idle soon
        refine ⟨?_, fun since now => absurd now (gone since)⟩
        rw [Trace.begins_begun, List.count_singleton_self]
        omega
      · rw [List.count_eq_zero_of_not_mem new]
        refine ⟨by omega, fun since idle soon => ?_⟩
        -- It was idle already, or it has been dropped in this step.
        rcases fate.of_idle idle with old | late | dropped
        · have := again since old (inTime soon)
          omega
        · rw [inTime soon] at late
          cases late
        · omega

/-- What is being computed has begun. -/
theorem Reaches.mem_begins_of_computing (started : execution.Started)
    (reaches : execution.Reaches trace session) (busy : session.state.cell slot = .computing) :
    slot ∈ trace.begins := by
  induction reaches with
  | start =>
    rw [started.cell_eq] at busy
    cases busy
  | step before last ih =>
    rw [Trace.begins_append, List.mem_append]
    cases last with
    | call => exact .inl (ih busy)
    | meanwhile other =>
      rw [State.cell_congr other.cells] at busy
      exact .inl (ih busy)
    | go step =>
      cases before.fate started step slot with
      | kept same => exact .inl (ih (same ▸ busy))
      | begun _ _ only => exact .inr (by simp [only])
      | answered _ _ _ _ now | completed _ _ now | late _ _ _ now =>
        rw [State.outcome?, busy] at now
        cases now
      | released _ _ _ now | dropped _ _ now => simp [now] at busy

/-- What is done in a step is done by a slot that is being computed. -/
theorem holds_of_deedsOf {threads threads' : List Thread} (names : List String)
    (step : Thread.SideStep setting [] threads state trace threads' state')
    (done : trace.deedsOf slot ≠ []) :
    ∃ body, (Session.requests ⟨names, threads, state⟩).Holds slot body := by
  rcases (Session.step_requests names step).mem_of_deedsOf done with last | inner
  · cases last
  · exact Thread.mem_computes_iff.1 inner

/-- A slot that has not begun has done nothing. -/
theorem Reaches.deedsOf_of_not_mem_begins (started : execution.Started)
    (reaches : execution.Reaches trace session) (fresh : slot ∉ trace.begins) :
    trace.deedsOf slot = [] := by
  induction reaches with
  | start => rfl
  | step before last ih =>
    rw [Trace.begins_append, List.mem_append, not_or] at fresh
    rw [Trace.deedsOf_append, ih fresh.1, List.nil_append]
    cases last with
    | call | meanwhile => rfl
    | go step =>
      by_contra done
      obtain ⟨body, holds⟩ := holds_of_deedsOf _ step done
      exact fresh.1 (before.mem_begins_of_computing started
        ((before.isBalanced started).cell_of_holds holds))

end Execution

/-! ## Kept outcomes -/

/-- A kept outcome stays, whatever becomes of the slot. -/
theorem Thread.Fate.cell_of_settled {since : Nat}
    (fate : Fate setting thread state trace state' slot)
    (settled : state.cell slot = .settled outcome since)
    (busy : ∀ body, thread.Holds slot body → state.cell slot = .computing) :
    state'.cell slot = .settled outcome since := by
  have free : ∀ body, ¬thread.Holds slot body := by
    intro body holds
    -- A slot that is computed has no outcome yet.
    have computing := busy body holds
    rw [settled] at computing
    cases computing
  cases fate with
  | kept same => exact same.trans settled
  | begun idle | answered idle => simp [settled] at idle
  | completed holds | released holds | dropped holds => exact absurd holds (free _)
  | late untaken =>
    rcases untaken with ⟨since, idle⟩ | ⟨body, holds⟩
    · simp [settled] at idle
    · exact absurd holds (free body)

/-- A kept outcome stays in a step of a session. -/
theorem Execution.Reaches.cell_of_settled (started : execution.Started)
    (reaches : execution.Reaches trace session)
    (step : Session.Step execution.setting session trace' session') {since : Nat}
    (settled : session.state.cell slot = .settled outcome since) :
    session'.state.cell slot = .settled outcome since := by
  cases step with
  | call => exact settled
  | meanwhile other => rwa [State.cell_congr other.cells]
  | go step =>
    exact (reaches.fate started step slot).cell_of_settled settled fun _ holds =>
      (reaches.isBalanced started).cell_of_holds holds

/-- **A kept outcome stays for good.** -/
theorem Session.Leads.cell_of_settled (started : execution.Started)
    (reaches : execution.Reaches trace session)
    (leads : Session.Leads execution.setting session trace' session') {since : Nat}
    (settled : session.state.cell slot = .settled outcome since) :
    session'.state.cell slot = .settled outcome since := by
  induction leads with
  | refl => exact settled
  | step before step ih => exact (reaches.leads before).cell_of_settled started step ih

/-- The outcome of a cell is kept since a mark. -/
theorem State.outcome?_eq_some_iff :
    state.outcome? slot = some outcome ↔ ∃ since, state.cell slot = .settled outcome since := by
  rw [State.outcome?]
  cases state.cell slot with
  | settled kept since => simp [Cell.outcome?]
  | _ => simp [Cell.outcome?]

/-- A kept outcome is the answer to every later request, whoever makes it. -/
theorem Thread.Step.of_fetch {mark : Nat} {next : Outcome → Routine}
    (known : state.outcome? slot = some outcome)
    (step : Step setting path (.resting mark (.fetch slot next)) state trace thread' state') :
    trace = [] ∧ state' = state ∧ ∃ mark', thread' = .resting mark' (next outcome) := by
  cases step with
  | reuse known' =>
    rw [known, Option.some_inj] at known'
    exact ⟨rfl, rfl, _, by rw [known']⟩
  | refuse unknown | await unknown =>
    rw [known] at unknown
    cases unknown

/-- What a request of the host ends with as it starts is what the host gets. -/
theorem Execution.fetch_of_start {name : String}
    (found : execution.setting.graph.indexOf? name = some slot)
    (started : Thread.start execution.setting [] (.fetch slot .done) execution.state =
      (.finished outcome, state)) (passes : Nat) :
    execution.fetch passes name = (some outcome, { execution with state }) := by
  have asked : execution.setting.fetchNamed name = .fetch slot .done := by
    rw [Setting.fetchNamed, found]
  -- Nothing is left to be resumed, so that no pass is needed.
  have gathered : ∀ state, Thread.gather execution.setting 1 passes [.finished outcome] state =
      (some [outcome], state) := by
    intro state
    cases passes <;> rfl
  have side : execution.fetchEach passes [name] =
      (some [outcome], { execution with state }) := by
    rw [fetchEach, List.map_singleton, asked, runSide]
    simp only [List.mapM_cons, List.mapM_nil, List.length_singleton, StateT.run, bind_apply,
      pure_apply, started, gathered]
  rw [fetch, side]
  rfl

/-- A request of the host that is answered at once is over. -/
theorem Execution.fetch_of_answered {name : String}
    (found : execution.setting.graph.indexOf? name = some slot)
    (answered : execution.state.request execution.setting [] slot =
      (.answered outcome, execution.state)) (passes : Nat) :
    execution.fetch passes name = (some outcome, execution) := by
  refine fetch_of_start found ?_ passes
  rw [Thread.start, Thread.startWith]
  simp only [bind_apply, modifyGet_apply, answered, Thread.startWith, pure_apply]

/-- A kept outcome is what the host gets at once. -/
theorem Execution.fetch_of_settled {name : String}
    (found : execution.setting.graph.indexOf? name = some slot)
    (known : execution.state.outcome? slot = some outcome) (passes : Nat) :
    execution.fetch passes name = (some outcome, execution) :=
  fetch_of_answered found (by rw [State.request, known]) passes

end RuleGraph
