import RuleGraph.Proofs.Graph.Grounded
import RuleGraph.Proofs.Interleaving.Outcomes
import RuleGraph.Proofs.Reference.Fetch
import RuleGraph.Proofs.Safety.Regular

/-! # Compiled programs do not fail by themselves

If functions fetch no slots, a slot of a compiled graph fetches its dependencies only, of which none
leads back to it. So no request is refused, and all outcomes are regular: names are never unknown,
numbers of arguments always fit, and nothing waits for itself.

* **`Setting.leads_of_mayFetch_silent`** — what is fetched is a dependency.
* **`Setting.not_refuses_of_grounded`** — no request is refused.
* **`Execution.Reaches.regular_of_kept`** — kept outcomes are regular.
* **`Execution.outcomes_regular`** — so are the answers to all requests.
-/

namespace RuleGraph

open Relation

namespace Setting

/-- No function that is called fetches slots. -/
def IsSilent (setting : Setting) : Prop :=
  ∀ name entry, setting.executable.function? name = some entry → ∀ feature, ¬entry.Fetches feature

variable {setting : Setting} {scope : Scope} {index target : Nat} {outcome : Outcome}

/-- Then calls fetch nothing. -/
theorem IsSilent.not_callsFetch (silent : setting.IsSilent) {calls : List (String × Nat)} :
    ¬setting.CallsFetch calls target := by
  rintro ⟨call, -, entry, bound, name, fetched, -⟩
  exact silent call.1 entry bound name fetched

/-- A statement fetches its dependencies, and what the functions that it calls fetch. -/
theorem fetches_of_statementRoutine {name feature : String} {condition : Option SlotExpr}
    {call : SlotExpr} (fetched : (setting.statementRoutine name condition call).Fetches target) :
    (∃ read ∈ (Slot.statement name feature condition call).deps,
      setting.graph.indexOf? read = some target) ∨ ∃ calls, setting.CallsFetch calls target := by
  have ofCall : ∀ {condition : Option SlotExpr}, (setting.statementCall call).Fetches target →
      (∃ read ∈ (Slot.statement name feature condition call).deps,
        setting.graph.indexOf? read = some target) ∨ ∃ calls, setting.CallsFetch calls target := by
    intro condition inner
    rcases fetches_of_statementCall inner with ⟨read, named, place⟩ | called
    · exact .inl ⟨read, SlotExpr.mem_distinct.2 (List.mem_append_right _ named), place⟩
    · exact .inr ⟨_, called⟩
  unfold statementRoutine at fetched
  split at fetched
  · cases fetched
  · cases condition with
    | none => exact ofCall fetched
    | some body =>
      have ofBody : ∀ read ∈ body.features,
          read ∈ (Slot.statement name feature (some body) call).deps :=
        fun read named => SlotExpr.mem_distinct.2 (List.mem_append_left _ named)
      -- First the slots that the condition names, then the condition, and then the call.
      rcases fetches_of_prefetch fetched with ⟨read, named, place⟩ | later
      · exact .inl ⟨read, ofBody read (SlotExpr.mem_references.1 named), place⟩
      · rcases later.of_value with inner | ⟨value, last⟩
        · rcases fetches_of_exprRoutine inner with ⟨read, named, place⟩ | called
          · exact .inl ⟨read, ofBody read named, place⟩
          · exact .inr ⟨_, called.callsFetch⟩
        · split at last
          · exact ofCall last
          · cases last

/-- **If functions fetch nothing, a slot fetches its dependencies only.** -/
theorem leads_of_mayFetch_silent (silent : setting.IsSilent) (linked : setting.graph.Linked)
    (lowered : ∀ slot ∈ setting.graph.slots, slot.IsLowered scope)
    (fetched : setting.MayFetch index target) : Leads setting.graph.edges index target := by
  cases found : setting.graph.slots[index]? with
  | none =>
    rw [MayFetch, slotRoutine, found] at fetched
    cases fetched
  | some slot =>
    have ofName : ∀ name ∈ slot.deps, setting.graph.indexOf? name = some target →
        Leads setting.graph.edges index target :=
      fun name listed place => (Graph.mem_dependencies linked).2 ⟨slot, found, name, listed, place⟩
    cases lowered slot (List.mem_of_getElem? found) with
    | input => exact absurd fetched (not_mayFetch_input found rfl)
    | feature =>
      rcases mayFetch_feature found rfl fetched with ⟨name, listed, place⟩ | called
      · rcases List.mem_append.1 listed with dep | read
        · exact ofName name dep place
        · exact ofName name (SlotExpr.mem_references.2 read) place
      · exact absurd called.callsFetch silent.not_callsFetch
    | statement =>
      rw [MayFetch, slotRoutine, found] at fetched
      rcases fetches_of_statementRoutine fetched with ⟨read, listed, place⟩ | ⟨calls, called⟩
      · exact ofName read listed place
      · exact absurd called silent.not_callsFetch
    | group name members =>
      rw [MayFetch, slotRoutine, found] at fetched
      rcases Routine.fetches_all.1 fetched with ⟨child, member, inner⟩ | ⟨_, later⟩
      · obtain ⟨dep, listed, rfl⟩ := List.mem_map.1 member
        cases inner with
        | here => exact listed
        | fetch later => cases later
      · cases later

/-- **No request is refused**, to the host or to a slot whose dependencies come to an end. -/
theorem not_refuses_of_grounded (silent : setting.IsSilent) (linked : setting.graph.Linked)
    (lowered : ∀ slot ∈ setting.graph.slots, slot.IsLowered scope) {requester : Option Nat}
    (free : setting.graph.cycleFrom? target = none)
    (behind : ∀ slot ∈ requester, Grounded setting.graph.edges slot ∧
      Leads setting.graph.edges slot target) : ¬setting.Refuses requester target outcome := by
  rintro ⟨names, -, cycle | ⟨slot, requested, back⟩⟩
  · rw [free] at cycle
    cases cycle
  -- What leads back would close a cycle of dependencies.
  · obtain ⟨grounded, edge⟩ := behind slot requested
    have along : ReflTransGen (Leads setting.graph.edges) target slot :=
      back.lift id fun _ _ => leads_of_mayFetch_silent silent linked lowered
    exact grounded.not_transGen (.head' edge along)

end Setting

namespace Execution

variable {scope : Scope} {limit rounds : Nat} {program : Program} {graph : Graph}
  {config : EngineConfig} {options : ExecuteOptions} {history : History} {execution : Execution}
  {trace : Trace} {session : Session} {index : Nat} {outcome : Outcome} {name : String}

/-- What is known of an execution of a compiled program whose functions fetch nothing. -/
structure IsSafe (execution : Execution) (scope : Scope) : Prop where
  /-- Nothing is requested yet. -/
  started : execution.Started
  /-- Functions fetch nothing. -/
  silent : execution.setting.IsSilent
  /-- All slots are lowered. -/
  lowered : ∀ slot ∈ execution.setting.graph.slots, slot.IsLowered scope
  /-- All their calls are ready. -/
  ready : ∀ slot ∈ execution.setting.graph.slots, execution.setting.IsReady slot
  /-- Following dependencies comes to an end. -/
  grounded : ∀ index < execution.setting.graph.size, Grounded execution.setting.graph.edges index

/-- An execution of a compiled program is safe. -/
theorem isSafe_of_execute (plain : scope.catalog.HasPlainPackages)
    (silent : ∀ entry ∈ scope.catalog.entries, ∀ name, ¬entry.Fetches name)
    (compiled : compile? scope limit rounds program = .ok (some graph))
    (begun : (Executable.ofGraph graph scope config).execute options history = .ok execution) :
    execution.IsSafe scope := by
  obtain ⟨fixed, -⟩ := eq_of_execute begun
  have isGraph := graph_of_execute begun
  have lowered := isLowered_of_compile? compiled
  refine ⟨started_of_execute (isCompiled_of_compile? compiled).built begun, ?_, ?_, ?_, ?_⟩
  · intro name entry bound
    rw [fixed] at bound
    exact silent entry (Scope.mem_of_lookup (Executable.lookup_of_function? bound))
  · rwa [isGraph]
  · rw [isGraph]
    exact fun slot member => Setting.isReady_of_isLowered fixed plain member (lowered slot member)
  · rw [isGraph]
    exact fun index bound => grounded_of_compile? compiled bound

/-- **Running all statements is answered** with enough passes, if all earlier requests are: it asks
for the statement features side by side, and the first error among the answers is its own. -/
theorem Reaches.runStatements_answers (started : execution.Started)
    (reaches : execution.Reaches trace session) (quiet : session.IsQuiet) :
    ∃ enough outcomes trace' session', execution.Reaches (trace ++ trace') session' ∧
      session'.IsQuiet ∧
      List.Forall₂ (fun name outcome => session'.state.Answers execution.setting name outcome)
        (execution.groups.map execution.graph.name) outcomes ∧
      ∀ passes, enough ≤ passes →
        { execution with state := session.state }.runStatements passes =
          (some ((collect outcomes).map fun _ => ()),
            { execution with state := session'.state }) := by
  obtain ⟨enough, outcomes, trace', session', later, still, answers, done⟩ :=
    reaches.runSide_answers started quiet execution.graph.size
      (execution.groups.map execution.graph.name)
  have requests := @fetch_groups { execution with state := session.state } started.linked
  refine ⟨enough, outcomes, trace', session', later, still, answers, fun passes more => ?_⟩
  rw [runStatements, requests]
  exact congrArg (fun ran => (ran.1.map fun outcomes => (collect outcomes).map fun _ => (), ran.2))
    (done passes more)

/-- If running all statements fails, it fails with what a statement feature was answered. -/
theorem Reaches.runStatements_fails (started : execution.Started)
    (reaches : execution.Reaches trace session) (quiet : session.IsQuiet) :
    ∃ enough result trace' session', execution.Reaches (trace ++ trace') session' ∧
      session'.IsQuiet ∧
      (∀ error, result = .error error → ∃ group < execution.setting.graph.size,
        session'.state.Answers execution.setting (execution.graph.name group) (.error error)) ∧
      ∀ passes, enough ≤ passes →
        { execution with state := session.state }.runStatements passes =
          (some result, { execution with state := session'.state }) := by
  obtain ⟨enough, outcomes, trace', session', later, still, answers, done⟩ :=
    reaches.runStatements_answers started quiet
  refine ⟨enough, _, trace', session', later, still, fun error failed => ?_, done⟩
  cases collected : collect outcomes with
  | ok values =>
    rw [collected] at failed
    cases failed
  | error other =>
    rw [collected] at failed
    cases failed
    obtain ⟨name, listed, answer⟩ := exists_mem_of_forall₂ answers (mem_of_collect collected)
    obtain ⟨group, member, rfl⟩ := List.mem_map.1 listed
    exact ⟨group, List.mem_range.1 (List.mem_filter.1 member).1, answer⟩

section

variable (safe : execution.IsSafe scope)
include safe

/-- No request to a slot of the graph is refused. -/
theorem IsSafe.not_refuses {requester : Option Nat} {target : Nat}
    (bound : target < execution.setting.graph.size)
    (behind : ∀ slot ∈ requester, Grounded execution.setting.graph.edges slot ∧
      Leads execution.setting.graph.edges slot target) :
    ¬execution.setting.Refuses requester target outcome :=
  Setting.not_refuses_of_grounded safe.silent safe.started.linked safe.lowered
    ((Graph.cycleFrom?_eq_none_iff safe.started.linked bound).2 (safe.grounded target bound)) behind

/-- **What is kept for a slot is regular**, in every session. -/
theorem Reaches.regular_of_kept (reaches : execution.Reaches trace session)
    (bound : index < execution.setting.graph.size)
    (kept : session.state.outcome? index = some outcome) : execution.setting.Regular outcome := by
  have linked := safe.started.linked
  -- Induction on what the slot depends on.
  have grounded := safe.grounded index bound
  induction grounded generalizing outcome with
  | intro index below ih =>
    rcases reaches.tells_of_kept safe.started kept with told | ⟨rfl, late⟩
    · have found := List.getElem?_eq_getElem (l := execution.setting.graph.slots) bound
      have member := List.getElem_mem (l := execution.setting.graph.slots) bound
      refine Setting.endsIn_slotRoutine linked found (safe.lowered _ member) (safe.ready _ member)
        (fun target edge outcome reply => ?_) _ _ told
      have inside := Graph.lt_size_of_mem_dependencies linked edge
      rcases reply with kept' | refused
      · exact ih target edge inside kept'
      · refine absurd refused (safe.not_refuses inside fun slot requested => ?_)
        cases requested
        exact ⟨.intro below, edge⟩
    · cases timeout : execution.setting.featureTimeout with
      | none => simp [State.isOverdue_eq_false timeout] at late
      | some limit =>
        rw [Setting.timeoutError, timeout]
        exact .late index timeout

/-- **What a request for a slot of the graph is answered with is regular**, in every session. -/
theorem Reaches.regular_of_answers (reaches : execution.Reaches trace session)
    (known : (execution.setting.graph.indexOf? name).isSome = true)
    (answers : session.state.Answers execution.setting name outcome) :
    execution.setting.Regular outcome := by
  obtain ⟨index, found⟩ := Option.isSome_iff_exists.1 known
  have bound := Graph.lt_size_of_indexOf? found
  rcases (State.answers_iff found).1 answers with kept | refused
  · exact reaches.regular_of_kept safe bound kept
  · refine absurd refused (safe.not_refuses bound fun slot requested => ?_)
    cases requested

/-- **Fetching slots of the graph side by side is answered by regular outcomes**, with enough passes
and if all earlier requests are answered. -/
theorem Reaches.fetchEach_regular (reaches : execution.Reaches trace session)
    (quiet : session.IsQuiet) {names : List String}
    (known : ∀ name ∈ names, (execution.setting.graph.indexOf? name).isSome = true) :
    ∃ enough outcomes trace' session', execution.Reaches (trace ++ trace') session' ∧
      session'.IsQuiet ∧ outcomes.length = names.length ∧
      (∀ outcome ∈ outcomes, execution.setting.Regular outcome) ∧
      ∀ passes, enough ≤ passes →
        { execution with state := session.state }.fetchEach passes names =
          (some outcomes, { execution with state := session'.state }) := by
  obtain ⟨enough, outcomes, trace', session', later, still, answers, done⟩ :=
    reaches.fetchEach_answers safe.started quiet names
  refine ⟨enough, outcomes, trace', session', later, still, answers.length_eq.symm, ?_, done⟩
  intro outcome member
  obtain ⟨name, listed, answer⟩ := exists_mem_of_forall₂ answers member
  exact later.regular_of_answers safe (known name listed) answer

/-- **Running all statements fails by a regular error if it fails**, with enough passes and if all
earlier requests are answered. -/
theorem Reaches.runStatements_regular (reaches : execution.Reaches trace session)
    (quiet : session.IsQuiet) :
    ∃ enough result trace' session', execution.Reaches (trace ++ trace') session' ∧
      session'.IsQuiet ∧
      (∀ error, result = .error error → execution.setting.Regular (.error error)) ∧
      ∀ passes, enough ≤ passes →
        { execution with state := session.state }.runStatements passes =
          (some result, { execution with state := session'.state }) := by
  obtain ⟨enough, result, trace', session', later, still, fails, done⟩ :=
    reaches.runStatements_fails safe.started quiet
  refine ⟨enough, result, trace', session', later, still, fun error failed => ?_, done⟩
  -- The error is that of a statement feature, which is a slot of the graph.
  obtain ⟨group, bound, answer⟩ := fails error failed
  have found : execution.setting.graph.indexOf? (execution.graph.name group) = some group :=
    Graph.indexOf?_name safe.started.linked bound
  exact later.regular_of_answers safe (by rw [found]; rfl) answer

end

/-- **A compiled program does not fail by itself**, if no name of a package has a point in it and
functions fetch no slots. In every execution, and in every session of it, all outcomes of slots are
regular: what is kept, what requests so far were answered with, what further requests for slots of
the graph are answered with, and with what running the statements fails if it does; the session goes
on from there. No name is ever unknown and no slot waits for itself, since these outcomes are not
regular, and every call is bound to a function of its kind that takes so many arguments. -/
theorem outcomes_regular (plain : scope.catalog.HasPlainPackages)
    (silent : ∀ entry ∈ scope.catalog.entries, ∀ name, ¬entry.Fetches name)
    (compiled : compile? scope limit rounds program = .ok (some graph))
    (begun : (Executable.ofGraph graph scope config).execute options history = .ok execution)
    (reaches : execution.Reaches trace session) :
    (∀ slot ∈ graph.slots, execution.setting.IsReady slot) ∧
    session.Settles execution.setting ∧
    (∀ index < graph.size, ∀ outcome, session.state.outcome? index = some outcome →
      execution.setting.Regular outcome) ∧
    List.Forall₂ (fun name thread => (graph.indexOf? name).isSome = true →
      ∀ outcome, thread = .finished outcome → execution.setting.Regular outcome)
      session.names session.threads ∧
    (session.IsQuiet →
      (∀ names, (∀ name ∈ names, (graph.indexOf? name).isSome = true) →
        ∃ enough outcomes trace' session', execution.Reaches (trace ++ trace') session' ∧
          session'.IsQuiet ∧ outcomes.length = names.length ∧
          (∀ outcome ∈ outcomes, execution.setting.Regular outcome) ∧
          ∀ passes, enough ≤ passes →
            { execution with state := session.state }.fetchEach passes names =
              (some outcomes, { execution with state := session'.state })) ∧
      ∃ enough result trace' session', execution.Reaches (trace ++ trace') session' ∧
        session'.IsQuiet ∧
        (∀ error, result = .error error → execution.setting.Regular (.error error)) ∧
        ∀ passes, enough ≤ passes →
          { execution with state := session.state }.runStatements passes =
            (some result, { execution with state := session'.state })) := by
  have safe := isSafe_of_execute plain silent compiled begun
  rw [← graph_of_execute begun]
  refine ⟨safe.ready, reaches.settles safe.started, ?_, ?_, fun quiet => ⟨?_, ?_⟩⟩
  · exact fun index bound outcome kept => reaches.regular_of_kept safe bound kept
  · refine (reaches.isRequest safe.started).imp fun name thread isRequest known outcome ended => ?_
    subst ended
    cases isRequest with
    | finished answers => exact reaches.regular_of_answers safe known answers
  · exact fun names known => reaches.fetchEach_regular safe quiet known
  · exact reaches.runStatements_regular safe quiet

end Execution

/-! ## A package -/

/-- The functions of a package: one that gives back its argument, and one that fails. -/
def Catalog.weather : Catalog where
  entries := [
    .ofRegistration (some "sky") {
      name := "rain", kind := .sync fun _ args => ([], .ok (args.headD .null)) },
    .ofRegistration (some "sky") {
      name := "storm", kind := .sync fun _ _ => ([], .error ⟨"no signal"⟩) }]

/-- What is seen from within the package. -/
def Scope.weather : Scope := ⟨.weather, some "sky"⟩

/-- Two features on an event, the one on the other. -/
def Program.weather : Program :=
  [.input "Event", .feature "Rain" (.call "rain" [.feature "Event"]),
    .feature "Storm" (.call "storm" [.feature "Rain"])]

/-- The graph of these features, with the qualified names of the functions. -/
def Graph.weather : Graph where
  slots := [
    .input "Event",
    .feature "Rain" (.call "sky.rain" [.feature "Event"]),
    .feature "Storm" (.call "sky.storm" [.feature "Rain"])]
  edges := [[], [0], [1]]
  cycles := [none, none, none]

/-- An execution of these features. -/
def Execution.weather : Execution where
  setting := { executable := .ofGraph .weather .weather {} }
  state := .initial 3

/-- Requested side by side, the features on an event come to regular outcomes, and the package's
functions are bound. -/
theorem Execution.outcomes_regular_of_weather :
    Execution.weather.setting.Ready Entry.IsValue ("sky.storm", 1) ∧
    ∃ enough outcomes, outcomes.length = 2 ∧
      (∀ outcome ∈ outcomes, Execution.weather.setting.Regular outcome) ∧
      ∀ passes, enough ≤ passes →
        (Execution.weather.fetchEach passes ["Storm", "Rain"]).1 = some outcomes := by
  have compiled : compile? .weather 10 1 .weather = .ok (some Graph.weather) := by decide +kernel
  have begun : (Executable.ofGraph .weather .weather {}).execute {} {} = .ok Execution.weather :=
    rfl
  have plain : Scope.weather.catalog.HasPlainPackages := by
    intro entry member package belongs
    rcases List.mem_pair.1 member with rfl | rfl
    · cases belongs
      decide
    · cases belongs
      decide
  have silent : ∀ entry ∈ Scope.weather.catalog.entries, ∀ name, ¬entry.Fetches name := by
    intro entry member name fetches
    rcases List.mem_pair.1 member with rfl | rfl
    · exact fetches
    · exact fetches
  obtain ⟨ready, -, -, -, all⟩ := Execution.outcomes_regular plain silent compiled begun .start
  obtain ⟨enough, outcomes, _, _, -, -, length, regular, done⟩ := (all ⟨[], rfl⟩).1
    ["Storm", "Rain"] (by decide)
  refine ⟨?_, enough, outcomes, length, regular, fun passes more => ?_⟩
  · exact ready (.feature "Storm" (.call "sky.storm" [.feature "Rain"])) (by simp [Graph.weather])
      _ List.mem_cons_self
  · exact congrArg Prod.fst (done passes more)

end RuleGraph
