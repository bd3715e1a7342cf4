import RuleGraph.Proofs.Interleaving.Request
import RuleGraph.Proofs.Reference.Evaluate

/-! # What is kept agrees with the reference

However requests overlap, a plain slot whose functions have results that depend on their arguments
only comes to what the reference evaluator says.

* **`Setting.Agrees`** — fetches by name are answered as known.
* **`Setting.eq_of_does_slotRoutine`** — then a slot comes to what is known makes of it.
* **`Execution.Reaches.eq_reference_of_kept`** — the outcome kept for a plain slot.
* **`Execution.Reaches.eq_reference_of_answers`** — the answer to a request for it.
-/

namespace RuleGraph

open Relation

namespace Setting

open Routine Executable

/-- Fetches of slots by name are answered as known. -/
def Agrees (setting : Setting) (reply : Nat → Outcome → Prop) (known : String → Outcome)
    (name : String) : Prop :=
  ∃ index, setting.graph.indexOf? name = some index ∧
    ∀ outcome, reply index outcome → outcome = known name

variable {setting : Setting} {results : Results} {reply : Nat → Outcome → Prop}
  {known : String → Outcome} {deeds : Multiset Deed} {outcome : Outcome} {name : String}

/-- A fetch by name comes to what is known. -/
theorem eq_of_does_fetchNamed (agrees : setting.Agrees reply known name)
    (does : (setting.fetchNamed name).Does reply deeds (some outcome)) : outcome = known name := by
  obtain ⟨index, found, answers⟩ := agrees
  rw [fetchNamed, found] at does
  exact answers outcome (reply_of_does_fetch does)

/-- Routines side by side come to their outcomes, if each of them can come to one outcome only. -/
theorem eq_map_of_doesAll {α : Type} {items : List α} {routine : α → Routine}
    {value : α → Outcome} {outcomes : List Outcome}
    (each : ∀ item ∈ items, ∀ deeds outcome, (routine item).Does reply deeds (some outcome) →
      outcome = value item)
    (does : DoesAll reply (items.map routine) deeds (outcomes.map some)) :
    outcomes = items.map value := by
  induction items generalizing deeds outcomes with
  | nil =>
    cases outcomes with
    | nil => rfl
    | cons => cases does
  | cons item rest ih =>
    cases outcomes with
    | nil => cases does
    | cons outcome others =>
      cases does with
      | cons first later =>
        rw [List.map_cons, each item List.mem_cons_self _ _ first,
          ih (fun item member => each item (List.mem_cons_of_mem _ member)) later]

/-- Fetching ahead comes to the first error among what is known, or goes on. -/
theorem of_does_prefetch {names : List String} {next : Routine}
    (agrees : ∀ name ∈ names, setting.Agrees reply known name)
    (does : (setting.prefetch names next).Does reply deeds (some outcome)) :
    match names.mapM known with
    | .ok _ => ∃ deeds', next.Does reply deeds' (some outcome)
    | .error error => outcome = .error error := by
  obtain ⟨outcomes, before, after, each, -, rest⟩ := of_does_allValues does
  -- Each name is answered as known, so the first error is that among what is known.
  have same := eq_map_of_doesAll (fun name member deeds outcome does =>
    eq_of_does_fetchNamed (agrees name member) does) each
  rw [same, ← mapM_eq_collect] at rest
  cases found : names.mapM known with
  | ok values =>
    rw [found] at rest
    exact ⟨after, rest⟩
  | error error =>
    rw [found] at rest
    exact rest.2

/-- The steps of a function end with its result. -/
theorem of_does_actionRoutine_of_returns {α : Type} {result : Except FunctionError α}
    {next : Except FunctionError α → Routine} {action : Action α} (returns : action.Returns result)
    (does : (setting.actionRoutine next action).Does reply deeds (some outcome)) :
    ∃ deeds', (next result).Does reply deeds' (some outcome) := by
  induction returns generalizing deeds with
  | finish => exact ⟨deeds, does⟩
  | pause _ ih =>
    cases does with
    | pause later => exact ih later
  | sleep _ ih =>
    cases does with
    | sleep later => exact ih later
  | perform _ ih =>
    cases does with
    | perform later => exact ih later

/-- A call comes to what the reference evaluator says. -/
theorem eq_of_does_callRoutine (returns : setting.executable.Returns results) {args : List Value}
    (does : (setting.callRoutine name args).Does reply deeds (some outcome)) :
    outcome = setting.executable.evaluateCall results name args := by
  cases bound : setting.executable.function? name with
  | none =>
    simp only [callRoutine, bound] at does
    simp only [evaluateCall, bound]
    exact eq_of_does_done does
  | some entry =>
    have result := returns name entry bound
    cases arity : entry.arityError? args.length with
    | some error =>
      simp only [callRoutine, bound, arity] at does
      simp only [evaluateCall, bound, arity]
      exact eq_of_does_done does
    | none =>
      cases admitted : entry.admit? args with
      | none =>
        simp only [callRoutine, bound, arity, admitted] at does
        simp only [evaluateCall, bound, arity, admitted]
        exact eq_of_does_done does
      | some args' =>
        simp only [callRoutine, bound, arity, admitted, invokeValue] at does
        cases kind : entry.kind with
        | sync body =>
          simp only [evaluateCall, bound, arity, admitted, kind]
          simp only [Entry.Returns, kind] at result
          simp only [kind] at does
          cases does with
          | invoke later =>
            -- Its effects come first, and its result is that of the reference.
            obtain ⟨_, -, ended⟩ := does_performAll.1 later
            rw [eq_of_does_done ended, callOutcome, result]
        | async body =>
          simp only [evaluateCall, bound, arity, admitted, kind]
          simp only [Entry.Returns, kind] at result
          simp only [kind] at does
          cases does with
          | invoke later =>
            obtain ⟨_, ended⟩ := of_does_actionRoutine_of_returns (result _ _) later
            rw [eq_of_does_done ended, callOutcome]
        | _ =>
          simp only [evaluateCall, bound, arity, admitted, kind]
          simp only [kind] at does
          exact eq_of_does_done does

/-- The values of several expressions, or the leftmost error, are those of all their outcomes. -/
theorem evaluateExprs_eq_collect {bodies : List SlotExpr} :
    setting.executable.evaluateExprs results known bodies =
      collect (bodies.map (setting.executable.evaluateExpr results known)) := by
  rw [collect, List.mapM_map]
  induction bodies with
  | nil => rw [evaluateExprs, List.mapM_nil]
  | cons body rest ih => rw [evaluateExprs, List.mapM_cons, ih]; rfl

/-- Several expressions come to what the reference evaluator says if each of them does. The items of
a list and the arguments of a call are such expressions. -/
theorem of_does_exprRoutines {bodies : List SlotExpr} {next : List Value → Routine}
    (each : ∀ body ∈ bodies, ∀ {deeds outcome},
      (∀ name ∈ body.features, setting.Agrees reply known name) →
      (setting.exprRoutine body).Does reply deeds (some outcome) →
      outcome = setting.executable.evaluateExpr results known body)
    (agrees : ∀ name ∈ SlotExpr.featuresOfAll bodies, setting.Agrees reply known name)
    (does : (allValues (setting.exprRoutines bodies) next).Does reply deeds (some outcome)) :
    match setting.executable.evaluateExprs results known bodies with
    | .ok values => ∃ deeds', (next values).Does reply deeds' (some outcome)
    | .error error => outcome = .error error := by
  obtain ⟨outcomes, before, after, side, -, rest⟩ := of_does_allValues does
  rw [exprRoutines_eq_map] at side
  have same : outcomes = bodies.map (setting.executable.evaluateExpr results known) := by
    refine eq_map_of_doesAll (fun body member deeds outcome does => ?_) side
    have reads : ∀ name ∈ body.features, setting.Agrees reply known name := fun name read =>
      agrees name (SlotExpr.mem_featuresOfAll.2 ⟨body, member, read⟩)
    exact each body member reads does
  rw [same, ← evaluateExprs_eq_collect] at rest
  cases found : setting.executable.evaluateExprs results known bodies with
  | ok values =>
    rw [found] at rest
    exact ⟨after, rest⟩
  | error error =>
    rw [found] at rest
    exact rest.2

/-- **An expression comes to what the reference evaluator says.** -/
theorem eq_of_does_exprRoutine (returns : setting.executable.Returns results) {body : SlotExpr}
    (agrees : ∀ name ∈ body.features, setting.Agrees reply known name)
    (does : (setting.exprRoutine body).Does reply deeds (some outcome)) :
    outcome = setting.executable.evaluateExpr results known body := by
  induction body generalizing deeds outcome with
  | const value =>
    rw [exprRoutine] at does
    rw [evaluateExpr]
    exact eq_of_does_done does
  | feature name =>
    rw [exprRoutine] at does
    rw [evaluateExpr]
    exact eq_of_does_fetchNamed (agrees name List.mem_cons_self) does
  | list items ih =>
    rw [exprRoutine] at does
    have values := of_does_exprRoutines (fun body member _ _ => ih body member) agrees does
    rw [evaluateExpr]
    cases found : setting.executable.evaluateExprs results known items with
    | ok values' =>
      rw [found] at values
      obtain ⟨_, ended⟩ := values
      exact eq_of_does_done ended
    | error error =>
      rw [found] at values
      exact values
  | call function args ih =>
    rw [exprRoutine] at does
    have values := of_does_exprRoutines (fun body member _ _ => ih body member) agrees does
    rw [evaluateExpr]
    cases found : setting.executable.evaluateExprs results known args with
    | ok values' =>
      rw [found] at values
      obtain ⟨_, later⟩ := values
      exact eq_of_does_callRoutine returns later
    | error error =>
      rw [found] at values
      exact values

/-- **An input or a feature comes to what the reference evaluator says.** -/
theorem eq_of_does_slotRoutine (returns : setting.executable.Returns results) {index : Nat}
    {slot : Slot} (found : setting.graph.slots[index]? = some slot)
    (constructed : slot.IsConstructed)
    (kinds : slot.kind = .input ∨ ∃ body, slot.kind = .feature body)
    (agrees : ∀ name ∈ slot.deps, setting.Agrees reply known name)
    (does : (setting.slotRoutine index).Does reply deeds (some outcome)) :
    outcome = setting.executable.evaluateSlot setting.inputs results known slot := by
  rcases kinds with kind | ⟨body, kind⟩
  · simp only [slotRoutine, found, kind] at does
    simp only [evaluateSlot, kind]
    exact eq_of_does_done does
  · simp only [slotRoutine, found, kind] at does
    have rest := of_does_prefetch agrees does
    simp only [evaluateSlot, kind]
    cases ahead : slot.deps.mapM known with
    | error error =>
      rw [ahead] at rest
      exact rest
    | ok values =>
      rw [ahead] at rest
      obtain ⟨_, later⟩ := rest
      exact eq_of_does_exprRoutine returns
        (fun name read => agrees name ((constructed.mem_deps kind).2 read)) later

/-! ## What plain slots fetch -/

/-- A function that returns its result fetches nothing. -/
theorem not_fetches_callRoutine (returns : setting.executable.Returns results) {args : List Value}
    {index : Nat} : ¬(setting.callRoutine name args).Fetches index := by
  have nothing : ∀ {result : Except FunctionError Value} {action : Action Value} {feature : String},
      action.Returns result → ¬action.Fetches feature := by
    intro result action feature returns fetched
    induction returns with
    | finish => cases fetched
    | pause _ ih | sleep _ ih | perform _ ih =>
      cases fetched
      exact ih ‹_›
  intro fetched
  obtain ⟨entry, body, bound, kind, _, _, _, inner, -⟩ := fetches_of_callRoutine fetched
  have result := returns name entry bound
  simp only [Entry.Returns, kind] at result
  exact nothing (result _ _) inner

/-- **A plain slot fetches nothing but its dependencies.** -/
theorem leads_of_mayFetch (linked : setting.graph.Linked)
    (returns : setting.executable.Returns results) {index target : Nat} {slot : Slot}
    (found : setting.graph.slots[index]? = some slot) (constructed : slot.IsConstructed)
    (kinds : slot.kind = .input ∨ ∃ body, slot.kind = .feature body)
    (fetched : setting.MayFetch index target) : Leads setting.graph.edges index target := by
  rcases kinds with kind | ⟨body, kind⟩
  · exact absurd fetched (not_mayFetch_input found kind)
  · rcases mayFetch_feature found kind fetched with ⟨name, listed, place⟩ | ⟨call, -, args, called⟩
    · refine (Graph.mem_dependencies linked).2 ⟨slot, found, name, ?_, place⟩
      rcases List.mem_append.1 listed with dep | read
      · exact dep
      · exact (constructed.mem_deps kind).2 read
    · exact absurd called (not_fetches_callRoutine returns)

/-- However long the way of what is fetched from a plain slot, it goes along dependencies. -/
theorem reflTransGen_leads_of_mayFetch (linked : setting.graph.Linked)
    (constructed : ∀ slot ∈ setting.graph.slots, slot.IsConstructed)
    (returns : setting.executable.Returns results) {index target : Nat}
    (plain : setting.graph.IsPlain index) (reaches : ReflTransGen setting.MayFetch index target) :
    ReflTransGen (Leads setting.graph.edges) index target := by
  induction reaches with
  | refl => exact .refl
  | @tail between target _ fetched ih =>
    -- Every slot on the way is one of the graph, where the edges to it are dependencies.
    have bound : between < setting.graph.size := by
      rcases ih.cases_tail with same | ⟨_, _, edge⟩
      · exact same ▸ plain.bound
      · exact Graph.lt_size_of_mem_dependencies linked edge
    have found := List.getElem?_eq_getElem (l := setting.graph.slots) bound
    exact ih.tail (leads_of_mayFetch linked returns found (constructed _ (List.getElem_mem bound))
      (plain.kinds between _ ih found) fetched)

/-- **No request for a plain slot is refused**, neither to the host nor to a plain slot. -/
theorem not_refuses (linked : setting.graph.Linked)
    (constructed : ∀ slot ∈ setting.graph.slots, slot.IsConstructed)
    (returns : setting.executable.Returns results) {requester : Option Nat} {index : Nat}
    (plain : setting.graph.IsPlain index)
    (behind : ∀ slot ∈ requester, setting.graph.IsPlain slot ∧
      Leads setting.graph.edges slot index) : ¬setting.Refuses requester index outcome := by
  rintro ⟨names, -, cycle | ⟨slot, requested, back⟩⟩
  · rw [plain.cycleFrom?_eq_none linked] at cycle
    cases cycle
  -- What leads back would close a cycle of dependencies.
  · obtain ⟨plain', edge⟩ := behind slot requested
    exact plain'.acyclic slot .refl
      (.head' edge (reflTransGen_leads_of_mayFetch linked constructed returns plain back))

end Setting

/-! ## Sessions -/

/-- Without a deadline nothing is late. -/
theorem State.isOverdue_eq_false {state : State} {setting : Setting} {index : Nat}
    (timeless : setting.featureTimeout = none) : state.isOverdue setting index = false := by
  simp [isOverdue, Setting.deadlineOf?, Setting.deadline?, timeless]

namespace Execution

/-- What the reference evaluator says about the slot of a name in an execution. -/
def reference (execution : Execution) (results : Results) : String → Outcome :=
  execution.setting.executable.reference execution.setting.inputs results

variable {execution : Execution} {results : Results} {trace : Trace} {session : Session}
  {index : Nat} {outcome : Outcome}

/-- **The outcome that is kept for a plain slot is that of the reference evaluator**, in every
session. -/
theorem Reaches.eq_reference_of_kept (started : execution.Started)
    (constructed : ∀ slot ∈ execution.setting.graph.slots, slot.IsConstructed)
    (returns : execution.setting.executable.Returns results)
    (timeless : execution.setting.featureTimeout = none)
    (reaches : execution.Reaches trace session) (plain : execution.setting.graph.IsPlain index)
    (kept : session.state.outcome? index = some outcome) :
    outcome = execution.reference results (execution.setting.graph.name index) := by
  have linked := started.linked
  -- Induction on what the slot depends on, which comes to an end since there is no cycle.
  have grounded := plain.grounded linked
  induction grounded generalizing outcome with
  | intro index _ ih =>
    obtain ⟨slot, found⟩ : ∃ slot, execution.setting.graph.slots[index]? = some slot :=
      ⟨_, List.getElem?_eq_getElem plain.bound⟩
    have made := constructed slot (List.mem_of_getElem? found)
    have plainly : execution.reference results (execution.setting.graph.name index) =
        execution.setting.executable.evaluateSlot execution.setting.inputs results
          (execution.reference results) slot :=
      Executable.reference_eq linked constructed plain found
    rw [plainly]
    -- Dependencies are answered as the reference evaluator says, and never refused.
    have agrees : ∀ name ∈ slot.deps, execution.setting.Agrees
        (session.state.Replies execution.setting (some index)) (execution.reference results)
        name := by
      intro name member
      obtain ⟨target, place, edge⟩ := Graph.exists_indexOf?_of_mem_deps linked found member
      refine ⟨target, place, fun answer replies => ?_⟩
      have plain' := plain.of_leads linked edge
      rcases replies with kept' | refused
      · rw [← Graph.name_of_indexOf? place]
        exact ih target edge plain' kept'
      · refine absurd refused (Setting.not_refuses linked constructed returns plain' ?_)
        intro slot same
        cases same
        exact ⟨plain, edge⟩
    -- The outcome is kept because the routine has come to it, since nothing is late.
    cases reaches.story started index with
    | settled kept' told =>
      rw [kept, Option.some_inj] at kept'
      subst kept'
      exact Setting.eq_of_does_slotRoutine returns found made (plain.kinds index _ .refl found)
        agrees told
    | late _ late => simp [State.isOverdue_eq_false timeless] at late
    | untouched idle | abandoned idle => simp [State.outcome?, idle, Cell.outcome?] at kept
    | computing busy => simp [State.outcome?, busy, Cell.outcome?] at kept

/-- **The answer to a request for a plain slot is that of the reference evaluator**, in every
session. -/
theorem Reaches.eq_reference_of_answers (started : execution.Started)
    (constructed : ∀ slot ∈ execution.setting.graph.slots, slot.IsConstructed)
    (returns : execution.setting.executable.Returns results)
    (timeless : execution.setting.featureTimeout = none)
    (reaches : execution.Reaches trace session) (plain : execution.setting.graph.IsPlain index)
    (answers : session.state.Answers execution.setting (execution.setting.graph.name index)
      outcome) :
    outcome = execution.reference results (execution.setting.graph.name index) := by
  have found := Graph.indexOf?_name started.linked plain.bound
  rcases (State.answers_iff found).1 answers with kept | refused
  · exact reaches.eq_reference_of_kept started constructed returns timeless plain kept
  · refine absurd refused (Setting.not_refuses started.linked constructed returns plain ?_)
    intro slot requested
    cases requested

end Execution

end RuleGraph
