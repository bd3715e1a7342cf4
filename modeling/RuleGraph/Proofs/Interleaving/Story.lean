import RuleGraph.Proofs.Interleaving.Memo
import RuleGraph.Proofs.Waits.Acyclic

/-! # The story of a slot

What happens to the computation of a slot, in however many steps and whatever happens in between, is
what its routine does when its fetches are answered by kept outcomes or refused.

* **`Setting.Refuses`** — a request may be refused: the slot requested knows a cycle, or what it
  fetches leads back.
* **`State.Replies`** — a request may be answered so.
* **`Thread.Does`** — what a thread may still do.
* **`Thread.Step.does`** — what a thread may do after a step, it may have done before it.
* **`Session.Story`** — what has become of a slot so far.
* **`Execution.Reaches.story`** — every slot has its story.
-/

namespace RuleGraph

open Relation

/-! ## Replies -/

/-- A request of a slot, or of the host, for the slot at a place may be refused: that slot knows a
cycle, or what may be fetched from it leads back to the slot that requests it. -/
def Setting.Refuses (setting : Setting) (requester : Option Nat) (index : Nat)
    (outcome : Outcome) : Prop :=
  ∃ names, outcome = .error (.cyclicDependency names) ∧
    (setting.graph.cycleFrom? index = some names ∨
      ∃ slot ∈ requester, ReflTransGen setting.MayFetch index slot)

/-- A request may be answered by the kept outcome or be refused. -/
def State.Replies (state : State) (setting : Setting) (requester : Option Nat) (index : Nat)
    (outcome : Outcome) : Prop :=
  state.outcome? index = some outcome ∨ setting.Refuses requester index outcome

/-! ## What threads may still do -/

namespace Thread

mutual

/-- What a thread may still do on behalf of the last slot of its path. What the slots do that it
waits for is not its own. -/
inductive Does (reply : Nat → Outcome → Prop) :
    Thread → Multiset Deed → Option Outcome → Prop where
  /-- It is abandoned. -/
  | abandoned {thread} : Does reply thread 0 none
  /-- It is finished. -/
  | finished {outcome} : Does reply (.finished outcome) 0 (some outcome)
  /-- It goes on with its routine. -/
  | resting {mark next deeds result} (rest : next.Does reply deeds result) :
    Does reply (.resting mark next) deeds result
  /-- It goes on with its routine. -/
  | sleeping {mark wakeAt next deeds result} (rest : next.Does reply deeds result) :
    Does reply (.sleeping mark wakeAt next) deeds result
  /-- It is answered. -/
  | waiting {mark index next outcome deeds result} (told : reply index outcome)
    (rest : (next outcome).Does reply deeds result) :
    Does reply (.waiting mark index next) deeds result
  /-- It is answered. -/
  | computing {mark index body next outcome deeds result} (told : reply index outcome)
    (rest : (next outcome).Does reply deeds result) :
    Does reply (.computing mark index body next) deeds result
  /-- What it runs for some time comes to its end or is abandoned, and it goes on. -/
  | limited {mark endsAt body next deeds deeds' ended result} (first : Does reply body deeds ended)
    (rest : (next ended).Does reply deeds' result) :
    Does reply (.limited mark endsAt body next) (deeds + deeds') result
  /-- It is abandoned while it is spread out. -/
  | apart {breadth threads next deeds results} (each : DoesAll reply threads deeds results) :
    Does reply (.joining breadth threads next) deeds none
  /-- It comes together and goes on. -/
  | joining {breadth threads next deeds deeds' outcomes result}
    (each : DoesAll reply threads deeds (outcomes.map some))
    (rest : (next outcomes).Does reply deeds' result) :
    Does reply (.joining breadth threads next) (deeds + deeds') result

/-- What several threads may still do side by side. -/
inductive DoesAll (reply : Nat → Outcome → Prop) :
    List Thread → Multiset Deed → List (Option Outcome) → Prop where
  /-- Nothing. -/
  | nil : DoesAll reply [] 0 []
  /-- What the first one does, and the others. -/
  | cons {thread rest deeds deeds' result results} (first : Does reply thread deeds result)
    (others : DoesAll reply rest deeds' results) :
    DoesAll reply (thread :: rest) (deeds + deeds') (result :: results)

end

end Thread

/-! ## Stories -/

/-- What is left of the computation of a slot: whatever it may still do makes, with what the slot
has done since it last began, something that its routine does. -/
def Thread.IsLeft (setting : Setting) (trace : Trace) (state : State) (slot : Nat)
    (body : Thread) : Prop :=
  ∀ reply : Nat → Outcome → Prop,
    (∀ index outcome, state.Replies setting (some slot) index outcome → reply index outcome) →
    ∀ deeds result, body.Does reply deeds result →
      (setting.slotRoutine slot).Does reply (trace.attempt slot + deeds) result

/-- What a slot has done since it last began is what its routine does, with the replies that there
are, and ends so. -/
def Session.Tells (setting : Setting) (trace : Trace) (session : Session) (slot : Nat)
    (result : Option Outcome) : Prop :=
  (setting.slotRoutine slot).Does (session.state.Replies setting (some slot))
    (trace.attempt slot) result

/-- What has become of a slot so far. -/
inductive Session.Story (setting : Setting) (trace : Trace) (session : Session) (slot : Nat) :
    Prop where
  /-- Its computation has not begun. -/
  | untouched {since} (idle : session.state.cell slot = .idle since)
    (fresh : slot ∉ trace.begins) (quiet : trace.deedsOf slot = [])
  /-- Its computation was abandoned. -/
  | abandoned {since} (idle : session.state.cell slot = .idle since)
    (told : session.Tells setting trace slot none)
  /-- It is being computed. -/
  | computing (busy : session.state.cell slot = .computing)
    (left : ∀ body, session.requests.Holds slot body →
      body.IsLeft setting trace session.state slot)
  /-- Its computation has come to its outcome. -/
  | settled {outcome} (kept : session.state.outcome? slot = some outcome)
    (told : session.Tells setting trace slot (some outcome))
  /-- It was found to be late. -/
  | late (kept : session.state.outcome? slot = some (.error (setting.timeoutError slot)))
    (late : session.state.isOverdue setting slot = true)
    (told : session.Tells setting trace slot none)

/-! ## Reasons -/

variable {setting : Setting} {path : List Nat} {index slot : Nat} {state state' : State}
  {trace trace' : Trace} {outcome : Outcome} {thread thread' : Thread}
  {reply reply' : Nat → Outcome → Prop} {deeds : Multiset Deed} {result : Option Outcome}

/-- Requests are refused for a reason. -/
theorem refuses_of_cycleOf? (links : path.IsChain setting.MayFetch)
    (edges : ∀ slot target, state.waits.Edge slot target → setting.MayFetch slot target)
    (h : state.cycleOf? setting path index = some outcome) :
    setting.Refuses path.getLast? index outcome := by
  unfold State.cycleOf? at h
  split at h
  -- The slot knows a cycle.
  · rename_i names cycle
    cases h
    exact ⟨names, rfl, .inl cycle⟩
  · split at h
    -- It is on the path, and the path leads from it to the slot that requests it.
    · rename_i member
      cases h
      have nonempty := List.ne_nil_of_mem member
      refine ⟨_, rfl, .inr ⟨path.getLast nonempty, List.getLast?_eq_some_getLast nonempty, ?_⟩⟩
      exact reflTransGen_of_mem_of_isChain links member (List.getLast?_eq_some_getLast nonempty)
    · split at h
      · cases h
      · rename_i nonempty
        rw [List.isEmpty_iff] at nonempty
        -- Waits lead from it to a slot of the path, and the path leads on.
        obtain ⟨chain, found, rfl⟩ := Option.map_eq_some_iff.1 h
        obtain ⟨head, waits, meeting, member, last⟩ := Waits.isChain_of_chain? found
        refine ⟨_, rfl, .inr ⟨path.getLast nonempty, List.getLast?_eq_some_getLast nonempty, ?_⟩⟩
        have first : index ∈ chain := List.mem_of_head? head
        have there := reflTransGen_of_mem_of_isChain (waits.imp edges) first last
        exact there.trans
          (reflTransGen_of_mem_of_isChain links member (List.getLast?_eq_some_getLast nonempty))

/-! ## Threads at rest and finished threads -/

namespace Thread

/-- A thread at rest does what its routine does. -/
@[simp] theorem does_resting {mark : Nat} {next : Routine} :
    Does reply (.resting mark next) deeds result ↔ next.Does reply deeds result := by
  constructor
  · intro does
    cases does with
    | abandoned => exact .abandoned
    | resting rest => exact rest
  · exact .resting

/-- A sleeping thread does what its routine does. -/
@[simp] theorem does_sleeping {mark wakeAt : Nat} {next : Routine} :
    Does reply (.sleeping mark wakeAt next) deeds result ↔ next.Does reply deeds result := by
  constructor
  · intro does
    cases does with
    | abandoned => exact .abandoned
    | sleeping rest => exact rest
  · exact .sleeping

/-- Threads at rest side by side do what their routines do. -/
theorem doesAll_resting {mark : Nat} {children : List Routine} {results : List (Option Outcome)}
    (does : DoesAll reply (children.map (.resting mark)) deeds results) :
    Routine.DoesAll reply children deeds results := by
  induction children generalizing deeds results with
  | nil =>
    cases does
    exact .nil
  | cons child rest ih =>
    cases does with
    | cons first others => exact .cons (does_resting.1 first) (ih others)

/-- Finished threads side by side have done what they did. -/
theorem doesAll_of_outcomes? {threads : List Thread} {outcomes : List Outcome}
    (finished : outcomes? threads = some outcomes) :
    DoesAll reply threads 0 (outcomes.map some) := by
  rw [outcomes?_eq_some_iff.1 finished]
  induction outcomes generalizing threads with
  | nil => exact .nil
  | cons outcome rest ih => exact .cons .finished (ih (outcomes?_eq_some_iff.2 rfl))

/-- Several threads may be abandoned at once. -/
theorem doesAll_abandoned {threads : List Thread} :
    DoesAll reply threads 0 (threads.map fun _ => none) := by
  induction threads with
  | nil => exact .nil
  | cons thread rest ih => exact .cons .abandoned ih

/-- What one of several threads may have done before, all of them may have done. -/
theorem DoesAll.replace {before after : List Thread} {own : Multiset Deed}
    {results : List (Option Outcome)}
    (onThread : ∀ deeds result, thread'.Does reply deeds result →
      thread.Does reply (own + deeds) result)
    (does : DoesAll reply (before ++ thread' :: after) deeds results) :
    DoesAll reply (before ++ thread :: after) (own + deeds) results := by
  induction before generalizing deeds results with
  | nil =>
    cases does with
    | cons first others =>
      rw [← add_assoc]
      exact .cons (onThread _ _ first) others
  | cons first rest ih =>
    cases does with
    | @cons _ _ here _ _ _ does others =>
      rw [add_left_comm]
      exact .cons does (ih others)

/-! ## A step back -/

/-- **What a thread may do after a step, it may have done before it**, with what it does in the step
put in front. -/
theorem Step.does (step : Step setting path thread state trace thread' state')
    (links : path.IsChain setting.MayFetch) (fits : thread.Fits setting path)
    (sized : state.cells.length = setting.graph.size)
    (edges : ∀ slot target, state.waits.Edge slot target → setting.MayFetch slot target)
    (last : path.getLast? = some slot)
    (told : ∀ index outcome, state'.Replies setting (some slot) index outcome →
      reply index outcome)
    (does : thread'.Does reply deeds result) :
    thread.Does reply (trace.deedsOf slot + deeds) result := by
  have none : ∀ deeds, (Trace.deedsOf [] slot : Multiset Deed) + deeds = deeds := zero_add
  induction step generalizing deeds result with
  | finish =>
    rw [none]
    cases does with
    | abandoned => exact .abandoned
    | finished => exact .resting .done
  | perform =>
    rw [Trace.deedsOf_occurrences last]
    exact .resting (.perform (does_resting.1 does))
  | invoke =>
    rw [Trace.deedsOf_occurrences last]
    exact .resting (.invoke (does_resting.1 does))
  | pause =>
    rw [none]
    exact .resting (.pause (does_resting.1 does))
  | sleep =>
    rw [none]
    exact .resting (.sleep (does_sleeping.1 does))
  | wake =>
    rw [none]
    exact .sleeping (does_resting.1 does)
  | reuse known =>
    rw [none]
    exact .resting (.fetch (told _ _ (.inl known)) (does_resting.1 does))
  | refuse _ cycle =>
    rw [none]
    have refused := refuses_of_cycleOf? links edges cycle
    rw [last] at refused
    exact .resting (.fetch (told _ _ (.inr refused)) (does_resting.1 does))
  | await =>
    rw [none]
    cases does with
    | abandoned => exact .abandoned
    | waiting known rest => exact .resting (.fetch known rest)
  | hear settled =>
    rw [none]
    refine .waiting (told _ _ (.inl ?_)) (does_resting.1 does)
    rw [State.outcome?, State.cell_congr State.cells_removeWait, settled, Cell.outcome?]
  | giveUp =>
    cases fits with
    | waiting request =>
      have rest := does_resting.1 does
      rw [none]
      exact .waiting (told _ _ (.inl (outcome?_answer (by simpa [sized] using request.1)))) rest
  | answer =>
    cases fits with
    | waiting request =>
      have rest := does_resting.1 does
      rw [Trace.deedsOf_begun, Multiset.coe_nil, zero_add]
      exact .waiting (told _ _ (.inl (outcome?_answer (by simpa [sized] using request.1)))) rest
  | compute =>
    rw [Trace.deedsOf_begun, Multiset.coe_nil, zero_add]
    cases does with
    | abandoned => exact .abandoned
    | computing known rest => exact .waiting known rest
  | complete | expire =>
    cases fits with
    | computing request =>
      have rest := does_resting.1 does
      rw [none]
      exact .computing (told _ _ (.inl (outcome?_answer (by simpa [sized] using request.1)))) rest
  | @inside _ _ _ _ _ _ _ _ trace step =>
    cases fits with
    | computing request fresh _ _ inner =>
      -- What happens inside is done by slots beyond the path.
      have quiet := step.deedsOf_of_mem inner fresh (List.mem_of_getLast? last)
      rw [quiet, Multiset.coe_nil, zero_add]
      cases does with
      | abandoned => exact .abandoned
      | computing known rest => exact .computing known rest
  | limit =>
    rw [none]
    cases does with
    | abandoned => exact .abandoned
    | limited first rest => exact .resting (.within (does_resting.1 first) rest)
  | beneath step ih =>
    cases fits with
    | limited _ inner =>
      cases does with
      | abandoned =>
        have first := ih links inner sized edges last told .abandoned
        exact add_zero (Multiset.ofList _) ▸ .limited first .abandoned
      | limited first rest =>
        rw [← add_assoc]
        exact .limited (ih links inner sized edges last told first) rest
  | conclude =>
    rw [none, ← zero_add deeds]
    exact .limited .finished (does_resting.1 does)
  | drop =>
    rw [Trace.deedsOf_dropped, Multiset.coe_nil]
    exact .limited .abandoned (does_resting.1 does)
  | join =>
    rw [none]
    cases does with
    | abandoned => exact .abandoned
    | apart each => exact .resting (.apart (doesAll_resting each))
    | joining each rest => exact .resting (.join (doesAll_resting each) rest)
  | side step ih =>
    cases fits with
    | joining inner _ =>
      -- Only the thread that makes the step does anything in it.
      have onThread := fun deeds result (does : Does reply _ deeds result) =>
        ih links (inner _ (by simp)) sized edges last told does
      cases does with
      | abandoned => exact .apart (doesAll_abandoned.replace onThread)
      | apart each => exact .apart (each.replace onThread)
      | joining each rest =>
        rw [← add_assoc]
        exact .joining (each.replace onThread) rest
  | gather finished =>
    rw [none, ← zero_add deeds]
    exact .joining (doesAll_of_outcomes? finished) (does_resting.1 does)

/-- Slots wait only for what they may fetch. -/
theorem Fits.mayFetch_of_mem_awaits (fits : thread.Fits setting path)
    (member : (slot, index) ∈ thread.awaits path) : setting.MayFetch slot index := by
  -- Every wait was left by a request of the last slot of some path.
  have ofRequest : ∀ {path : List Nat} {target : Nat}, setting.MayRequest path target →
      (slot, index) ∈ waitOf path target → setting.MayFetch slot index := by
    intro path target request member
    obtain ⟨other, last, same⟩ := List.mem_map.1 member
    cases same
    exact request.2 slot (by simpa using last)
  induction fits with
  | finished | resting | sleeping => simp [awaits] at member
  | waiting request =>
    rw [awaits] at member
    exact ofRequest request member
  | computing request _ _ _ _ ih =>
    rw [awaits, List.mem_append] at member
    exact member.elim (ofRequest request) ih
  | limited _ _ ih =>
    rw [awaits] at member
    exact ih member
  | joining _ _ ih =>
    rw [awaits] at member
    obtain ⟨thread, listed, inner⟩ := mem_awaitsOfAll.1 member
    exact ih thread listed inner

end Thread

/-! ## Every slot has its story -/

variable {execution : Execution} {session session' : Session}

/-- With more outcomes kept there are more replies. -/
theorem State.Replies.mono {requester : Option Nat}
    (kept : ∀ slot outcome, state.outcome? slot = some outcome →
      state'.outcome? slot = some outcome)
    (replies : state.Replies setting requester index outcome) :
    state'.Replies setting requester index outcome :=
  replies.imp_left (kept index outcome)

/-- What is left stays left while others do something. -/
theorem Thread.IsLeft.mono {body : Thread} (left : body.IsLeft setting trace state slot)
    (kept : ∀ slot outcome, state.outcome? slot = some outcome →
      state'.outcome? slot = some outcome)
    (fresh : slot ∉ trace'.begins) (quiet : trace'.deedsOf slot = []) :
    body.IsLeft setting (trace ++ trace') state' slot := by
  intro reply told deeds result does
  rw [Trace.attempt_append fresh, quiet, List.append_nil]
  exact left reply (fun index outcome replies => told index outcome (replies.mono kept)) deeds
    result does

/-- What was told stays told while others do something. -/
theorem Session.Tells.mono (told : session.Tells setting trace slot result)
    (kept : ∀ slot outcome, session.state.outcome? slot = some outcome →
      session'.state.outcome? slot = some outcome)
    (fresh : slot ∉ trace'.begins) (quiet : trace'.deedsOf slot = []) :
    session'.Tells setting (trace ++ trace') slot result := by
  rw [Session.Tells, Trace.attempt_append fresh, quiet, List.append_nil]
  exact Routine.Does.mono (fun _ _ replies => replies.mono kept) told

/-- A slot that is not being computed is not touched by what leaves its cell alone. -/
theorem Session.Story.mono (story : session.Story setting trace slot)
    (kept : ∀ slot outcome, session.state.outcome? slot = some outcome →
      session'.state.outcome? slot = some outcome)
    (clock : session.state.now ≤ session'.state.now)
    (same : session'.state.cell slot = session.state.cell slot)
    (quiet : trace'.deedsOf slot = []) (fresh : slot ∉ trace'.begins)
    (holds : ∀ body, session'.requests.Holds slot body → session.requests.Holds slot body) :
    session'.Story setting (trace ++ trace') slot := by
  cases story with
  | untouched idle fresh' quiet' =>
    exact .untouched (same.trans idle) (by simp [fresh, fresh']) (by simp [quiet, quiet'])
  | abandoned idle told => exact .abandoned (same.trans idle) (told.mono kept fresh quiet)
  | computing busy left =>
    exact .computing (same.trans busy) fun body inner =>
      (left body (holds body inner)).mono kept fresh quiet
  | settled kept' told => exact .settled (kept _ _ kept') (told.mono kept fresh quiet)
  | late kept' late told =>
    exact .late (kept _ _ kept') (State.isOverdue_mono late clock) (told.mono kept fresh quiet)

/-- What is left of a slot that is being computed. -/
theorem Session.Story.left (story : session.Story setting trace slot)
    (busy : session.state.cell slot = .computing) (body : Thread)
    (holds : session.requests.Holds slot body) : body.IsLeft setting trace session.state slot := by
  cases story with
  | computing _ left => exact left body holds
  | untouched idle | abandoned idle => simp [busy] at idle
  | settled kept | late kept => simp [State.outcome?, busy, Cell.outcome?] at kept

/-- What a slot without an outcome has done since it last began, its routine does before it is
abandoned. -/
theorem Session.Story.tells_none (story : session.Story setting trace slot)
    (balanced : session.IsBalanced setting)
    (free : (∃ since, session.state.cell slot = .idle since) ∨
      ∃ body, session.requests.Holds slot body) :
    session.Tells setting trace slot none := by
  cases story with
  | untouched _ fresh quiet =>
    rw [Session.Tells, Trace.attempt_of_not_mem_begins fresh, quiet]
    exact .abandoned
  | abandoned _ told | late _ _ told => exact told
  | computing busy left =>
    rcases free with ⟨since, idle⟩ | ⟨body, holds⟩
    · simp [busy] at idle
    · have told := left body holds _ (fun _ _ replies => replies) 0 none .abandoned
      rwa [add_zero] at told
  | settled kept =>
    obtain ⟨since', settled⟩ := State.outcome?_eq_some_iff.1 kept
    rcases free with ⟨since, idle⟩ | ⟨body, holds⟩
    · simp [settled] at idle
    · have busy := balanced.cell_of_holds holds
      simp [settled] at busy

namespace Execution

/-- Kept outcomes stay in a step of a session. -/
theorem Reaches.outcome?_of_step (started : execution.Started)
    (reaches : execution.Reaches trace session)
    (step : Session.Step execution.setting session trace' session') (slot : Nat)
    (outcome : Outcome) (kept : session.state.outcome? slot = some outcome) :
    session'.state.outcome? slot = some outcome := by
  obtain ⟨since, settled⟩ := State.outcome?_eq_some_iff.1 kept
  exact State.outcome?_eq_some_iff.2 ⟨since, reaches.cell_of_settled started step settled⟩

/-- Slots wait only for what they may fetch. -/
theorem Reaches.mayFetch_of_edge (started : execution.Started)
    (reaches : execution.Reaches trace session) (slot target : Nat)
    (edge : session.state.waits.Edge slot target) : execution.setting.MayFetch slot target :=
  (Session.fits_requests (reaches.fits started.linked)).mayFetch_of_mem_awaits
    ((reaches.edge_iff started).1 edge)

/-- A slot that is not being computed does nothing in a step of one of the requests. -/
theorem Reaches.deedsOf_of_not_computing (started : execution.Started)
    (reaches : execution.Reaches trace session) {threads : List Thread}
    (step : Thread.SideStep execution.setting [] session.threads session.state trace' threads
      state')
    (apart : session.state.cell slot ≠ .computing) : trace'.deedsOf slot = [] := by
  by_contra done
  obtain ⟨body, holds⟩ := holds_of_deedsOf session.names step done
  exact apart ((reaches.isBalanced started).cell_of_holds holds)

/-- What is left of a slot that stays in computation is left after a step of one of the requests. -/
theorem Reaches.left_of_go (started : execution.Started)
    (reaches : execution.Reaches trace session) {threads : List Thread} {body : Thread}
    (step : Thread.SideStep execution.setting [] session.threads session.state trace' threads
      state')
    (story : session.Story execution.setting trace slot)
    (busy : session.state.cell slot = .computing) (quiet : slot ∉ trace'.begins)
    (holds : (Session.requests ⟨session.names, threads, state'⟩).Holds slot body) :
    body.IsLeft execution.setting (trace ++ trace') state' slot := by
  have fits := Session.fits_requests (reaches.fits started.linked)
  have balanced := reaches.isBalanced started
  have kept := reaches.outcome?_of_step started (@Session.Step.go _ session.names _ _ _ _ _ step)
  have whole := Session.step_requests session.names step
  -- It stands where it stood, or the step is one of its own. It has not only just begun.
  rcases whole.holds_origin List.isChain_nil fits balanced.computes_nodup holds with
    ⟨old, still⟩ | ⟨way, before, old, links, inner, own⟩ | ⟨only, -⟩
  · exact (story.left busy body old).mono kept quiet still
  · intro reply told deeds result does
    -- What it may do after the step it may do before it, with the deeds of the step in front.
    have first := own.does links inner balanced.cells (reaches.mayFetch_of_edge started)
      List.getLast?_concat told does
    have all := story.left busy before old reply
      (fun index outcome replies => told index outcome (replies.mono kept)) _ _ first
    rwa [← add_assoc, Multiset.coe_add, ← Trace.attempt_append quiet] at all
  · simp [only] at quiet

/-- The story of a slot goes on in a step of one of the requests. -/
theorem Reaches.story_of_go (started : execution.Started)
    (reaches : execution.Reaches trace session) {threads : List Thread}
    (step : Thread.SideStep execution.setting [] session.threads session.state trace' threads
      state')
    (story : session.Story execution.setting trace slot) :
    Session.Story execution.setting (trace ++ trace') ⟨session.names, threads, state'⟩ slot := by
  have fits := Session.fits_requests (reaches.fits started.linked)
  have balanced := reaches.isBalanced started
  have whole := Session.step_requests session.names step
  have kept := reaches.outcome?_of_step started (@Session.Step.go _ session.names _ _ _ _ _ step)
  have clock := Nat.le_of_eq step.now_eq.symm
  -- Where a computation stands now, and where it stood before the step.
  have origin := fun body' => @Thread.Step.holds_origin _ _ _ body' _ _ _ _ slot whole
    List.isChain_nil fits balanced.computes_nodup
  cases reaches.fate started step slot with
  | kept same quiet =>
    by_cases busy : session.state.cell slot = .computing
    · exact .computing (same.trans busy) fun body' holds' =>
        reaches.left_of_go started step story busy quiet holds'
    · refine story.mono kept clock same
        (reaches.deedsOf_of_not_computing started step busy) quiet fun body holds' => ?_
      rcases origin body holds' with ⟨old, -⟩ | ⟨way, body, old, -⟩ | ⟨only, -⟩
      · exact old
      · exact absurd (balanced.cell_of_holds old) busy
      · simp [only] at quiet
  | begun idle early only now =>
    refine .computing now fun body' holds' => ?_
    rcases origin body' holds' with ⟨old, -⟩ | ⟨way, body, old, -⟩ | ⟨-, mark, rfl⟩
    · simp [balanced.cell_of_holds old] at idle
    · simp [balanced.cell_of_holds old] at idle
    · intro reply told deeds result does
      rw [only, Trace.attempt_begun]
      simpa using does
  | answered idle early only plain now =>
    refine .settled now ?_
    rw [Session.Tells, only, Trace.attempt_begun, plain]
    exact .done
  | completed holds quiet now =>
    -- Nothing is left to do, so what it has done is all that its routine does.
    have told := story.left (balanced.cell_of_holds holds) _ holds
      (Session.state ⟨session.names, threads, state'⟩ |>.Replies execution.setting (some slot))
      (fun index outcome replies => replies.mono kept) 0 _ .finished
    refine .settled now ?_
    rw [Session.Tells, quiet, List.append_nil]
    rwa [add_zero] at told
  | late free late quiet now =>
    refine .late now (State.isOverdue_mono late clock) ?_
    exact (story.tells_none balanced free).mono kept (by simp [quiet]) (by simp [quiet])
  | released holds _ only now | dropped holds only now =>
    refine .abandoned now ?_
    exact (story.tells_none balanced (.inr ⟨_, holds⟩)).mono kept (by simp [only]) (by simp [only])

/-- **In every session, every slot has its story.** -/
theorem Reaches.story (started : execution.Started) (reaches : execution.Reaches trace session)
    (slot : Nat) : session.Story execution.setting trace slot := by
  induction reaches with
  | start =>
    exact .untouched started.cell_eq (by simp) rfl
  | step before last ih =>
    cases last with
    | call name mark =>
      -- A request that has only just been made computes nothing.
      refine ih.mono (fun _ _ kept => kept) (Nat.le_refl _) rfl rfl (by simp) fun body holds => ?_
      cases holds with
      | side member inner =>
        rcases List.mem_append.1 member with old | new
        · exact .side old inner
        · rw [List.mem_singleton] at new
          subst new
          cases inner
    | go step => exact before.story_of_go started step ih
    | meanwhile other =>
      refine ih.mono (fun slot outcome kept => ?_) other.now (State.cell_congr other.cells) rfl
        (by simp) fun _ holds => holds
      rw [State.outcome?, State.cell_congr other.cells]
      exact kept

end Execution

end RuleGraph
