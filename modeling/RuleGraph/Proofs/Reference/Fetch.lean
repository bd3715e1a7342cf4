import RuleGraph.Proofs.Interleaving.Passes
import RuleGraph.Proofs.Reference.Agreement

/-! # Fetching plain slots

However the host requests slots, one after the other or at the same time, what it gets for a plain
slot is what the reference evaluator says, and it does get it.

* **`Graph.IsOrdinary`** — compiled graphs, and graphs of slots that constructors have made.
* **`Execution.reference_of_execute`** — the reference needs the executable and the inputs.
* **`Execution.Reaches.runSide_answers`** — requests made side by side are answered.
* **`Execution.fetch_eq_reference`** — every fetch of a plain slot returns what it should.
-/

namespace RuleGraph

open Relation

/-- A graph that some program compiles to, or one of slots that constructors have made. -/
def Graph.IsOrdinary (graph : Graph) : Prop :=
  (∃ scope limit rounds program, compile? scope limit rounds program = .ok (some graph)) ∨
    ∃ slots, Graph.ofSlots slots = .ok graph ∧ ∀ slot ∈ slots, slot.IsConstructed

/-- Ordinary graphs were made from slots that constructors have made. -/
theorem Graph.IsOrdinary.isBuilt {graph : Graph} (ordinary : graph.IsOrdinary) :
    graph.IsBuilt ∧ ∀ slot ∈ graph.slots, slot.IsConstructed := by
  rcases ordinary with ⟨scope, limit, rounds, program, compiled⟩ | ⟨slots, made, constructed⟩
  · have isCompiled := isCompiled_of_compile? compiled
    exact ⟨isCompiled.built, isCompiled.slots.1⟩
  -- The graph has the slots that it was made of.
  · have same := (Graph.linked_of_ofSlots made).1
    exact ⟨⟨slots, made⟩, same.symm ▸ constructed⟩

/-- An outcome for a name is what the reference evaluator says, if that slot is plain. -/
def Executable.Confirms (executable : Executable) (inputs : Dictionary Value) (results : Results)
    (name : String) (outcome : Outcome) : Prop :=
  ∀ index, executable.graph.indexOf? name = some index → executable.graph.IsPlain index →
    outcome = executable.reference inputs results name

namespace Execution

variable {executable : Executable} {options : ExecuteOptions} {history : History}
  {execution : Execution} {results : Results} {trace : Trace} {session : Session}
  {names : List String} {index : Nat}

/-- What the reference evaluator says in an execution depends on the executable and the inputs that
the host has supplied. -/
theorem reference_of_execute (begun : executable.execute options history = .ok execution) :
    execution.reference results = executable.reference options.inputs results := by
  funext name
  rw [reference, (eq_of_execute begun).1]
  refine Executable.reference_congr (fun name slot found kind => ?_) name
  refine find?_inputs_of_execute begun ?_
  have named : slot.name = name := by simpa using List.find?_some found
  rw [Graph.hasInput, named, found]
  exact decide_eq_true kind

/-- **Requests made side by side are answered** with enough passes, if all earlier ones are, and the
host may go on from there. -/
theorem Reaches.runSide_answers (started : execution.Started)
    (reaches : execution.Reaches trace session) (quiet : session.IsQuiet) (breadth : Nat)
    (names : List String) :
    ∃ enough outcomes trace' session', execution.Reaches (trace ++ trace') session' ∧
      session'.IsQuiet ∧
      List.Forall₂ (fun name outcome => session'.state.Answers execution.setting name outcome)
        names outcomes ∧
      ∀ passes, enough ≤ passes →
        { execution with state := session.state }.runSide passes breadth
          (names.map execution.setting.fetchNamed) =
            (some outcomes, { execution with state := session'.state }) := by
  obtain ⟨enough, outcomes, last, done⟩ := reaches.runSide_returns started quiet breadth names
  have ran := done enough (Nat.le_refl _)
  obtain ⟨trace', session', later, same, answers, still⟩ :=
    reaches.answers_of_runSide started (congrArg Prod.fst ran)
  refine ⟨enough, outcomes, trace', session', later, still quiet, answers, fun passes more => ?_⟩
  rw [same, ran]
  exact done passes more

/-- Fetching slots side by side is answered so. -/
theorem Reaches.fetchEach_answers (started : execution.Started)
    (reaches : execution.Reaches trace session) (quiet : session.IsQuiet) (names : List String) :
    ∃ enough outcomes trace' session', execution.Reaches (trace ++ trace') session' ∧
      session'.IsQuiet ∧
      List.Forall₂ (fun name outcome => session'.state.Answers execution.setting name outcome)
        names outcomes ∧
      ∀ passes, enough ≤ passes →
        { execution with state := session.state }.fetchEach passes names =
          (some outcomes, { execution with state := session'.state }) :=
  reaches.runSide_answers started quiet names.length names

/-- **Every fetch of a plain slot returns what the reference evaluator says**, in every execution
without a deadline of an ordinary graph, if the results of functions depend on their arguments only.
In every session, whatever has been requested so far, before or at the same time, all requests are
answered in the end; those that are answered are answered so; and once all are, further requests
made side by side are answered so, given enough passes, and the session goes on from there. -/
theorem fetch_eq_reference (ordinary : executable.graph.IsOrdinary)
    (returns : executable.Returns results)
    (begun : executable.execute options history = .ok execution)
    (timeless : options.featureTimeout = none ∧ executable.config.featureTimeout = none)
    (reaches : execution.Reaches trace session) :
    session.Settles execution.setting ∧
    List.Forall₂ (fun name thread => ∀ outcome, thread = .finished outcome →
      executable.Confirms options.inputs results name outcome) session.names session.threads ∧
    (session.IsQuiet → ∀ names, ∃ enough outcomes trace' session',
      execution.Reaches (trace ++ trace') session' ∧ session'.IsQuiet ∧
      List.Forall₂ (executable.Confirms options.inputs results) names outcomes ∧
      ∀ passes, enough ≤ passes →
        { execution with state := session.state }.fetchEach passes names =
          (some outcomes, { execution with state := session'.state })) := by
  obtain ⟨built, constructed⟩ := ordinary.isBuilt
  have started := started_of_execute built begun
  obtain ⟨same, -, -, -, -, -, -, timeout⟩ := eq_of_execute begun
  rw [timeless.1, timeless.2] at timeout
  have defines := @reference_of_execute _ _ _ _ results begun
  subst same
  -- In whichever session, answers are confirmed.
  have confirms : ∀ {trace session name outcome}, execution.Reaches trace session →
      session.state.Answers execution.setting name outcome →
      execution.setting.executable.Confirms options.inputs results name outcome := by
    intro trace session name outcome reaches answers index found plain
    rw [← defines, ← Graph.name_of_indexOf? found]
    rw [← Graph.name_of_indexOf? found] at answers
    exact reaches.eq_reference_of_answers started constructed returns timeout plain answers
  refine ⟨reaches.settles started, ?_, fun quiet names => ?_⟩
  · refine (reaches.isRequest started).imp fun name thread isRequest outcome ended => ?_
    subst ended
    cases isRequest with
    | finished answers => exact confirms reaches answers
  · obtain ⟨enough, outcomes, trace', session', later, still, answers, done⟩ :=
      reaches.fetchEach_answers started quiet names
    exact ⟨enough, outcomes, trace', session', later, still,
      answers.imp fun name outcome => confirms later, done⟩

/-- Both slots of the sample are plain: the feature depends on the event, and that on nothing. -/
theorem isPlain_sample (bound : index < 2) : sample.setting.executable.graph.IsPlain index := by
  -- The only edge is that from the feature to the event.
  have edge : ∀ {node target}, Leads sample.setting.executable.graph.edges node target →
      node = 1 ∧ target = 0 := by
    intro node target leads
    match node with
    | 0 => cases leads
    | 1 => exact ⟨rfl, List.mem_singleton.1 leads⟩
    | _ + 2 => cases leads
  refine ⟨bound, fun target slot _ found => ?_, fun target _ cycle => ?_⟩
  · rcases List.mem_pair.1 (List.mem_of_getElem? found) with rfl | rfl
    · exact .inl rfl
    · exact .inr ⟨_, rfl⟩
  · obtain ⟨_, first, -⟩ := TransGen.head'_iff.1 cycle
    obtain ⟨_, -, last⟩ := TransGen.tail'_iff.1 cycle
    exact absurd ((edge first).1.symm.trans (edge last).2) (by decide)

/-- Requested twice at the same time, and the event with it, the feature of the sample comes to the
value of the event both times. -/
theorem fetch_eq_reference_of_login :
    ∃ enough, ∀ passes, enough ≤ passes → (sample.fetchEach passes ["User", "Event", "User"]).1 =
      some [.ok (.text "login"), .ok (.text "login"), .ok (.text "login")] := by
  have returns : sample.setting.executable.Returns fun _ args => .ok (args.headD .null) := by
    intro name entry bound
    simp only [sample, Executable.function?, List.lookup_cons] at bound
    split at bound
    · cases bound
      exact fun _ _ => rfl
    · cases bound
  have all := fetch_eq_reference
    (.inr ⟨sample.setting.executable.graph.slots, by decide, by
      intro slot member
      rcases List.mem_pair.1 member with rfl | rfl
      · exact .input _
      · exact .feature _ _⟩)
    returns execute_sample ⟨rfl, rfl⟩ .start
  obtain ⟨enough, outcomes, _, _, -, -, confirms, done⟩ :=
    all.2.2 ⟨[], rfl⟩ ["User", "Event", "User"]
  refine ⟨enough, fun passes more => (congrArg Prod.fst (done passes more)).trans ?_⟩
  cases confirms with
  | cons first confirms =>
    cases confirms with
    | cons second confirms =>
      cases confirms with
      | cons third confirms =>
        cases confirms
        rw [first 1 rfl (isPlain_sample (by decide)), second 0 rfl (isPlain_sample (by decide)),
          third 1 rfl (isPlain_sample (by decide))]
        rfl

end Execution

end RuleGraph
