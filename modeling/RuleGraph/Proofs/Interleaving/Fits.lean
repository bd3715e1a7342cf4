import RuleGraph.Proofs.Interleaving.Session
import RuleGraph.Proofs.Routine.Fetches
import Mathlib.Data.List.Chain

/-! # Where requests stand

A thread below a path requests only what the last slot of the path may fetch, and never a slot of
the path itself.

* **`Setting.MayRequest`** — what may be requested on behalf of the last slot of a path.
* **`Thread.Fits`** — every request in a thread is one that may be made there.
* **`Thread.Step.fits`**, **`Execution.Reaches.fits`** — a step keeps this, and so do all steps.
-/

namespace RuleGraph

/-- The slot at a place may be requested on behalf of the last slot of a path. -/
def Setting.MayRequest (setting : Setting) (path : List Nat) (index : Nat) : Prop :=
  index < setting.graph.size ∧ ∀ slot ∈ path.getLast?, setting.MayFetch slot index

/-- What follows on behalf of the last slot of a path may be requested. -/
def Setting.Permits (setting : Setting) (path : List Nat) (routine : Routine) : Prop :=
  ∀ index, routine.Fetches index → setting.MayRequest path index

namespace Thread

/-- Every request in a thread of the last slot of a path is one that may be made there. -/
inductive Fits (setting : Setting) : List Nat → Thread → Prop where
  /-- There is none any more. -/
  | finished {path outcome} : Fits setting path (.finished outcome)
  /-- Those of the routine. -/
  | resting {path mark next} (permits : setting.Permits path next) :
    Fits setting path (.resting mark next)
  /-- Those of the routine. -/
  | sleeping {path mark wakeAt next} (permits : setting.Permits path next) :
    Fits setting path (.sleeping mark wakeAt next)
  /-- The one that waits, and those that follow. -/
  | waiting {path mark index next} (request : setting.MayRequest path index)
    (fresh : index ∉ path) (permits : ∀ outcome, setting.Permits path (next outcome)) :
    Fits setting path (.waiting mark index next)
  /-- The one that is computed, which takes its time, those of its computation, and those that
  follow. -/
  | computing {path mark index body next} (request : setting.MayRequest path index)
    (fresh : index ∉ path) (long : ∀ outcome, setting.slotRoutine index ≠ .done outcome)
    (permits : ∀ outcome, setting.Permits path (next outcome))
    (inner : Fits setting (path ++ [index]) body) :
    Fits setting path (.computing mark index body next)
  /-- Those of the thread that runs for some time, and those that follow. -/
  | limited {path mark endsAt body next}
    (permits : ∀ outcome, setting.Permits path (next outcome)) (inner : Fits setting path body) :
    Fits setting path (.limited mark endsAt body next)
  /-- Those of all threads side by side, and those that follow. -/
  | joining {path breadth threads next} (inner : ∀ thread ∈ threads, Fits setting path thread)
    (permits : ∀ outcomes, setting.Permits path (next outcomes)) :
    Fits setting path (.joining breadth threads next)

end Thread

section

variable {setting : Setting} {path : List Nat} {index : Nat}

/-- A request that closes no cycle is for a slot beside the path. -/
theorem State.not_mem_of_cycleOf? {state : State} (h : state.cycleOf? setting path index = none) :
    index ∉ path := by
  intro member
  unfold State.cycleOf? at h
  split at h
  · cases h
  · rw [if_pos member] at h
    cases h

/-- A request makes the path longer by a slot that its last one may fetch. -/
theorem Setting.MayRequest.links (request : setting.MayRequest path index)
    (links : path.IsChain setting.MayFetch) : (path ++ [index]).IsChain setting.MayFetch := by
  refine List.isChain_append.2 ⟨links, List.isChain_singleton _, fun slot last target only => ?_⟩
  rw [List.head?_cons, Option.mem_some_iff] at only
  exact only ▸ request.2 slot last

/-- What the computation of a slot fetches may be requested on its behalf. -/
theorem Setting.permits_slotRoutine (linked : setting.graph.Linked) :
    setting.Permits (path ++ [index]) (setting.slotRoutine index) := by
  intro target fetched
  refine ⟨setting.lt_size_of_mayFetch linked fetched, ?_⟩
  intro slot last
  rw [List.getLast?_concat, Option.mem_some_iff] at last
  exact last ▸ fetched

/-- What the host requests by name may be requested. -/
theorem Setting.permits_fetchNamed {name : String} :
    setting.Permits [] (setting.fetchNamed name) := by
  intro target fetched
  exact ⟨Graph.lt_size_of_indexOf? (Setting.fetches_fetchNamed.1 fetched), by simp⟩

/-- What is so of all members of a list stays so when another such one replaces one of them. -/
theorem forall_mem_replace {α : Type} {p : α → Prop} {before after : List α} {a b : α}
    (all : ∀ c ∈ before ++ a :: after, p c) (here : p a → p b) :
    ∀ c ∈ before ++ b :: after, p c := by
  rw [List.forall_mem_append, List.forall_mem_cons] at all ⊢
  obtain ⟨earlier, old, later⟩ := all
  exact ⟨earlier, here old, later⟩

/-- **A step keeps requests in their places.** -/
theorem Thread.Step.fits (linked : setting.graph.Linked) {thread thread' : Thread}
    {state state' : State} {trace : Trace}
    (step : Step setting path thread state trace thread' state') (fits : thread.Fits setting path) :
    thread'.Fits setting path := by
  induction step with
  | finish => exact .finished
  | perform | pause =>
    cases fits with
    | resting permits =>
      exact .resting fun target fetched => permits target (by constructor; exact fetched)
  | sleep =>
    cases fits with
    | resting permits =>
      exact .sleeping fun target fetched => permits target (.sleep fetched)
  | invoke =>
    cases fits with
    | resting permits =>
      exact .resting fun target fetched => permits target (.invoke fetched)
  | wake =>
    cases fits with
    | sleeping permits => exact .resting permits
  | reuse | refuse =>
    cases fits with
    | resting permits =>
      exact .resting fun target fetched => permits target (.fetch fetched)
  | await _ free =>
    cases fits with
    | resting permits =>
      -- A request for a slot of the path itself would have been refused.
      exact .waiting (permits _ .here) (State.not_mem_of_cycleOf? free)
        fun outcome target fetched => permits target (.fetch fetched)
  | hear | giveUp | answer =>
    cases fits with
    | waiting _ _ permits => exact .resting (permits _)
  | compute _ _ long =>
    cases fits with
    | waiting request fresh permits =>
      -- The path goes on to the slot, on whose behalf its routine may fetch whatever it fetches.
      exact .computing request fresh long permits (.resting (setting.permits_slotRoutine linked))
  | complete | expire =>
    cases fits with
    | computing _ _ _ permits _ => exact .resting (permits _)
  | inside _ ih =>
    cases fits with
    | computing request fresh long permits inner =>
      exact .computing request fresh long permits (ih inner)
  | limit =>
    cases fits with
    | resting permits =>
      exact .limited (fun outcome target fetched => permits target (.within fetched))
        (.resting fun target fetched => permits target (.inner fetched))
  | beneath _ ih =>
    cases fits with
    | limited permits inner => exact .limited permits (ih inner)
  | conclude | drop =>
    cases fits with
    | limited permits _ => exact .resting (permits _)
  | join =>
    cases fits with
    | resting permits =>
      refine .joining ?_ fun outcomes target fetched => permits target (.join fetched)
      intro thread member
      obtain ⟨child, listed, rfl⟩ := List.mem_map.1 member
      exact .resting fun target fetched => permits target (.child listed fetched)
  | side _ ih =>
    cases fits with
    | joining inner permits =>
      exact .joining (forall_mem_replace inner ih) permits
  | gather =>
    cases fits with
    | joining _ permits => exact .resting (permits _)

/-- A step of one of several threads keeps the requests of all of them in their places. -/
theorem Thread.SideStep.fits (linked : setting.graph.Linked) {threads threads' : List Thread}
    {state state' : State} {trace : Trace}
    (step : SideStep setting path threads state trace threads' state')
    (fits : ∀ thread ∈ threads, thread.Fits setting path) :
    ∀ thread ∈ threads', thread.Fits setting path := by
  obtain ⟨step⟩ := step
  exact forall_mem_replace fits (step.fits linked)

end

/-- **In every session, requests stand in their places.** -/
theorem Execution.Reaches.fits {execution : Execution} (linked : execution.setting.graph.Linked)
    {trace : Trace} {session : Session} (reaches : execution.Reaches trace session) :
    ∀ thread ∈ session.threads, thread.Fits execution.setting [] := by
  induction reaches with
  | start => simp
  | step _ last ih =>
    cases last with
    | call name mark =>
      intro thread member
      rcases List.mem_append.1 member with earlier | new
      · exact ih thread earlier
      · rw [List.mem_singleton] at new
        exact new ▸ .resting Setting.permits_fetchNamed
    | go step => exact step.fits linked ih
    | meanwhile => exact ih

end RuleGraph
