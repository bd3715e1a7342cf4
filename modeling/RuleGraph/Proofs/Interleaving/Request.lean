import RuleGraph.Proofs.Interleaving.Story

/-! # Requests of the host

A request of the host does nothing but fetch one slot, and its outcome is what that fetch is
answered with.

* **`State.Answers`** — a request by name may be answered so.
* **`Thread.IsRequest`** — how far a request by name may have come.
* **`Execution.Reaches.isRequest`** — in every session every request is as far as that.
* **`Execution.Reaches.answers_of_runSide`** — requests made side by side are answered.
* **`Thread.Step.acts`** — a step does what the trace says, and nothing else that is seen.
-/

namespace RuleGraph

/-- A request by name may be answered so: by a reply for the slot of that name, or by saying that
there is none. -/
def State.Answers (state : State) (setting : Setting) (name : String) (outcome : Outcome) : Prop :=
  match setting.graph.indexOf? name with
  | some index => state.Replies setting none index outcome
  | none => outcome = .error (.unknownFeature name)

/-- How far a request of the host by name may have come. -/
inductive Thread.IsRequest (setting : Setting) (state : State) (name : String) : Thread → Prop where
  /-- It has not been taken up. -/
  | asked {mark} : IsRequest setting state name (.resting mark (setting.fetchNamed name))
  /-- It waits for the slot. -/
  | waiting {mark index} (found : setting.graph.indexOf? name = some index) :
    IsRequest setting state name (.waiting mark index .done)
  /-- It computes the slot. -/
  | computing {mark index body} (found : setting.graph.indexOf? name = some index) :
    IsRequest setting state name (.computing mark index body .done)
  /-- It is answered. -/
  | answered {mark outcome} (answer : state.Answers setting name outcome) :
    IsRequest setting state name (.resting mark (.done outcome))
  /-- It is finished. -/
  | finished {outcome} (answer : state.Answers setting name outcome) :
    IsRequest setting state name (.finished outcome)

/-- The state after a deed. -/
def State.act (state : State) (setting : Setting) : Deed → State
  | .perform effect => state.perform setting effect
  | .invoke function args => state.invoke function args

variable {setting : Setting} {execution : Execution} {path : List Nat} {name : String}
  {thread thread' : Thread} {state state' : State} {trace trace' : Trace} {session : Session}
  {outcome : Outcome} {index : Nat}

/-- With more outcomes kept there are more answers. -/
theorem State.Answers.mono (kept : ∀ slot outcome, state.outcome? slot = some outcome →
    state'.outcome? slot = some outcome) (answer : state.Answers setting name outcome) :
    state'.Answers setting name outcome := by
  rw [State.Answers] at answer ⊢
  split at answer
  · exact State.Replies.mono kept answer
  · exact answer

/-- The answers for a name are the replies for its slot. -/
theorem State.answers_iff (found : setting.graph.indexOf? name = some index) :
    state.Answers setting name outcome ↔ state.Replies setting none index outcome := by
  rw [State.Answers, found]

/-- A request stays as far as it is while others do something. -/
theorem Thread.IsRequest.mono (kept : ∀ slot outcome, state.outcome? slot = some outcome →
    state'.outcome? slot = some outcome) (isRequest : thread.IsRequest setting state name) :
    thread.IsRequest setting state' name := by
  cases isRequest with
  | asked => exact .asked
  | waiting found => exact .waiting found
  | computing found => exact .computing found
  | answered answer => exact .answered (answer.mono kept)
  | finished answer => exact .finished (answer.mono kept)

/-- A step of a request. -/
theorem Thread.Step.isRequest (step : Step setting [] thread state trace thread' state')
    (isRequest : thread.IsRequest setting state name) (fits : thread.Fits setting [])
    (sized : state.cells.length = setting.graph.size)
    (kept : ∀ slot outcome, state.outcome? slot = some outcome →
      state'.outcome? slot = some outcome)
    (edges : ∀ slot target, state.waits.Edge slot target → setting.MayFetch slot target) :
    thread'.IsRequest setting state' name := by
  cases isRequest with
  | asked =>
    -- There is a slot of that name to be fetched, or there is none.
    rw [Setting.fetchNamed] at step
    split at step
    · rename_i index found
      cases step with
      | reuse known => exact .answered ((State.answers_iff found).2 (.inl known))
      | refuse _ cycle =>
        have refused := refuses_of_cycleOf? List.isChain_nil edges cycle
        exact .answered ((State.answers_iff found).2 (.inr refused))
      | await => exact .waiting found
    · rename_i missing
      cases step with
      | finish => exact .finished (by rw [State.Answers, missing])
  | waiting found =>
    cases fits with
    | waiting request =>
      have bound := request.1
      cases step with
      | hear settled =>
        refine .answered ((State.answers_iff found).2 (.inl ?_))
        rw [State.outcome?, State.cell_congr State.cells_removeWait, settled, Cell.outcome?]
      | giveUp | answer =>
        refine .answered ((State.answers_iff found).2 (.inl ?_))
        exact outcome?_answer (by simpa [sized] using bound)
      | compute => exact .computing found
  | computing found =>
    cases fits with
    | computing request =>
      have bound := request.1
      cases step with
      | complete | expire =>
        refine .answered ((State.answers_iff found).2 (.inl ?_))
        exact outcome?_answer (by simpa [sized] using bound)
      | inside => exact .computing found
  | answered answer =>
    cases step with
    | finish => exact .finished (answer.mono kept)
  | finished => cases step

/-- Related lists stay related when a member of one of them is replaced. -/
theorem forall₂_replace {α β : Type} {r r' : α → β → Prop} {as : List α} {before after : List β}
    {b b' : β} (h : List.Forall₂ r as (before ++ b :: after)) (others : ∀ a b, r a b → r' a b)
    (here : ∀ a, r a b → r' a b') : List.Forall₂ r' as (before ++ b' :: after) := by
  induction before generalizing as with
  | nil =>
    cases h with
    | cons first rest => exact .cons (here _ first) (rest.imp others)
  | cons c before ih =>
    cases h with
    | cons first rest => exact .cons (others _ _ first) (ih rest)

/-- **In every session, every request is as far as a request may be.** -/
theorem Execution.Reaches.isRequest (started : execution.Started)
    (reaches : execution.Reaches trace session) :
    List.Forall₂ (fun name thread => thread.IsRequest execution.setting session.state name)
      session.names session.threads := by
  induction reaches with
  | start => exact .nil
  | @step _ trace' session session' before last ih =>
    have kept := before.outcome?_of_step started last
    have others := ih.imp fun name thread isRequest => Thread.IsRequest.mono kept isRequest
    have fits := before.fits started.linked
    have balanced := before.isBalanced started
    have edges := before.mayFetch_of_edge started
    cases last with
    | call name mark => exact List.rel_append others (.cons .asked .nil)
    | meanwhile => exact others
    | go step =>
      obtain ⟨step⟩ := step
      -- One of the requests comes further; the others are as far as they were.
      refine forall₂_replace ih (fun name thread isRequest => isRequest.mono kept)
        fun name isRequest => ?_
      exact step.isRequest isRequest (fits _ (by simp)) balanced.cells kept edges

/-- **Requests made side by side are answered**, if they come to outcomes at all, as requests may
be in the session that they lead to. -/
theorem Execution.Reaches.answers_of_runSide (started : execution.Started)
    (reaches : execution.Reaches trace session) {passes breadth : Nat} {names : List String}
    {outcomes : List Outcome}
    (ran : ({ execution with state := session.state }.runSide passes breadth
      (names.map execution.setting.fetchNamed)).1 = some outcomes) :
    ∃ trace' session', execution.Reaches (trace ++ trace') session' ∧
      session'.state = ({ execution with state := session.state }.runSide passes breadth
        (names.map execution.setting.fetchNamed)).2.state ∧
      List.Forall₂ (fun name outcome => session'.state.Answers execution.setting name outcome)
        names outcomes ∧
      (session.IsQuiet → session'.IsQuiet) := by
  obtain ⟨trace', threads, later, same⟩ :=
    reaches_of_runSide started.linked reaches passes breadth names
  have done := same.symm.trans ran
  rw [Thread.outcomes?_eq_some_iff] at done
  subst done
  refine ⟨trace', _, later, rfl, ?_, fun ⟨before, quiet⟩ => ⟨before ++ outcomes, ?_⟩⟩
  · -- The further requests stand behind the earlier ones, whose names and threads are as many.
    have all := List.forall₂_drop session.names.length (later.isRequest started)
    have aligned := (reaches.isRequest started).length_eq
    rw [List.drop_left, aligned, List.drop_left, List.forall₂_map_right_iff] at all
    refine all.imp fun name outcome isRequest => ?_
    cases isRequest with
    | finished answer => exact answer
  · rw [Thread.outcomes?_append, quiet, ← same, ran]
    rfl

/-- Every member of the second of two related lists is related to one of the first. -/
theorem exists_mem_of_forall₂ {α β : Type} {r : α → β → Prop} {as : List α} {bs : List β} {b : β}
    (h : List.Forall₂ r as bs) (member : b ∈ bs) : ∃ a ∈ as, r a b := by
  induction h with
  | nil => cases member
  | cons first _ ih =>
    rcases List.mem_cons.1 member with rfl | later
    · exact ⟨_, List.mem_cons_self, first⟩
    · obtain ⟨a, listed, related⟩ := ih later
      exact ⟨a, List.mem_cons_of_mem _ listed, related⟩

/-- A request at rest fetches a slot, or is answered. -/
theorem Thread.IsRequest.of_resting {mark : Nat} {next : Routine}
    (isRequest : (Thread.resting mark next).IsRequest setting state name) :
    (∃ index, next = .fetch index .done) ∨ ∃ outcome, next = .done outcome := by
  cases isRequest with
  | asked =>
    rw [Setting.fetchNamed]
    split
    · exact .inl ⟨_, rfl⟩
    · exact .inr ⟨_, rfl⟩
  | answered => exact .inr ⟨_, rfl⟩

/-- **A step does what the trace says**, and nothing else that others see. A request of the host
does nothing itself. -/
theorem Thread.Step.acts (step : Step setting path thread state trace thread' state')
    (own : path ≠ [] ∨ thread.IsRequest setting state name) :
    (∃ deed, trace.deeds = [deed] ∧ state' = state.act setting deed) ∨
      trace.deeds = [] ∧ state'.Unseen state := by
  induction step with
  | finish | pause | sleep | wake | reuse | refuse | limit | conclude | join | gather =>
    exact .inr ⟨rfl, .refl _⟩
  | compute => exact .inr ⟨rfl, ⟨rfl, rfl, rfl⟩⟩
  | await => exact .inr ⟨rfl, .addWait⟩
  | hear => exact .inr ⟨rfl, .removeWait⟩
  | giveUp | answer => exact .inr ⟨rfl, .trans .answer ⟨rfl, rfl, rfl⟩⟩
  | complete => exact .inr ⟨rfl, .answer⟩
  | expire =>
    have unseen := @unseen_cancel
    exact .inr ⟨rfl, .trans .answer ⟨unseen.1, unseen.2, unseen.3⟩⟩
  | perform | invoke =>
    rcases own with nonempty | isRequest
    · exact .inl ⟨_, Trace.deeds_occurrences nonempty, rfl⟩
    -- The host itself has no effects and invokes nothing.
    · rcases isRequest.of_resting with ⟨_, same⟩ | ⟨_, same⟩ <;> cases same
  | drop => exact .inr ⟨rfl, unseen_cancel⟩
  | inside _ ih => exact ih (.inl (by simp))
  | beneath _ ih =>
    rcases own with nonempty | isRequest
    · exact ih (.inl nonempty)
    · cases isRequest
  | side _ ih =>
    rcases own with nonempty | isRequest
    · exact ih (.inl nonempty)
    · cases isRequest

end RuleGraph
