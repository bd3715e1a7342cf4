import RuleGraph.Proofs.Catalog.Registered
import RuleGraph.Proofs.Graph.Grounded
import RuleGraph.Proofs.Sequence.Walk

/-! # All statements run one after the other

Running all statements of a compiled program does what its statements do one after the other. They
run in the order of the graph, unless a function that computes a value suspends: statements that
have to wait for it let others go first.

* **`Execution.IsInSomeOrder`** — running all statements does what the reference says of them in
  some order, and only once.
* **`Execution.IsInOrder`** — and it does so in the order of the graph, without any passes.
* **`Execution.runStatements_in_some_order`** — so it is in executions of compiled programs.
* **`Execution.runStatements_out_of_order`** — a condition that suspends lets other statements go
  first.
-/

namespace RuleGraph

open Relation

variable {scope : Scope} {limit rounds : Nat} {program : Program} {graph : Graph}
  {config : EngineConfig} {options : ExecuteOptions} {history : History} {execution : Execution}
  {results : Results}

/-! ## Functions -/

/-- The functions bound in a graph belong to the catalog. -/
theorem Executable.mem_entries_of_mem_functions {bound : String × Entry}
    (listed : bound ∈ (Executable.ofGraph graph scope config).functions) :
    bound.2 ∈ scope.catalog.entries := by
  obtain ⟨name, -, found⟩ := List.mem_filterMap.1 listed
  obtain ⟨entry, got, rfl⟩ := Option.map_eq_some_iff.1 found
  unfold Scope.get? at got
  split at got
  · rename_i found
    cases got
    exact Scope.mem_of_lookup found
  · cases got

/-- No two functions bound in a graph have the same package and name. -/
theorem Catalog.Reachable.eq_of_key_eq (reachable : scope.catalog.Reachable)
    {bound bound' : String × Entry}
    (listed : bound ∈ (Executable.ofGraph graph scope config).functions)
    (listed' : bound' ∈ (Executable.ofGraph graph scope config).functions)
    (same : bound.2.key = bound'.2.key) : bound.2 = bound'.2 :=
  List.inj_on_of_nodup_map reachable.nodup (Executable.mem_entries_of_mem_functions listed)
    (Executable.mem_entries_of_mem_functions listed') same

namespace Execution

/-- An execution of a compiled graph in which everything happens in order. -/
theorem isOrderly_of_execute (reachable : scope.catalog.Reachable)
    (compiled : compile? scope limit rounds program = .ok (some graph))
    (begun : (Executable.ofGraph graph scope config).execute options history = .ok execution)
    (handled : options.manipulator.isSome = true)
    (timeless : options.featureTimeout = none ∧ config.featureTimeout = none)
    (returns : (Executable.ofGraph graph scope config).Returns results)
    (functions : ∀ name entry, (Executable.ofGraph graph scope config).function? name = some entry →
      entry.IsMute ∧ (entry.isStatement = true → entry.IsPrompt)) :
    execution.setting.IsOrderly results := by
  obtain ⟨built, constructed, -⟩ := isCompiled_of_compile? compiled
  have isGraph := graph_of_execute begun
  obtain ⟨same, hasManipulator, -, -, manipulator, -, -, timeout⟩ := eq_of_execute begun
  refine ⟨?_, ?_, ?_, ?_, ?_, ?_, ?_, ?_, ?_⟩
  · exact isGraph ▸ built.linked
  · exact isGraph ▸ constructed
  · exact isGraph ▸ fun index bound => cycleFrom?_of_compile? compiled bound
  · rw [hasManipulator, manipulator, handled]
  · rw [timeout, timeless.1]
    exact timeless.2
  · exact same ▸ returns
  · exact same ▸ fun name entry bound => (functions name entry bound).1
  · exact same ▸ fun name entry bound => (functions name entry bound).2
  · exact same ▸ fun bound listed bound' listed' => reachable.eq_of_key_eq listed listed'

/-- Before anything is requested the state is sound. -/
theorem Started.isSound (started : execution.Started) :
    execution.state.IsSound execution.setting results [] := by
  refine ⟨?_, fun slot target wait => ?_, fun index busy => ?_, fun index outcome _ kept => ?_⟩
  · rw [started.cells, List.length_replicate]
  · rw [Waits.Edge, started.targets_eq] at wait
    cases wait
  · rw [started.cell_eq] at busy
    cases busy
  · rw [State.outcome?, started.cell_eq] at kept
    cases kept

/-- What comes of running all statements is what comes of their threads. -/
theorem runStatements_of_gather {threads : List Thread} {outcomes : List Outcome}
    {state last : State} {passes : Nat}
    (ran : (execution.setting.graph.groupPlaces.map fun index => Routine.fetch index .done).mapM
      (Thread.start execution.setting []) execution.state = (threads, state))
    (gathered : Thread.gather execution.setting execution.graph.size passes threads state =
      (some outcomes, last)) :
    execution.runStatements passes =
      (some ((collect outcomes).map fun _ => ()), { execution with state := last }) := by
  have places : execution.groups = execution.setting.graph.groupPlaces := rfl
  unfold runStatements runSide
  simp only [StateT.run, bind_apply, places, ran, gathered, Option.map_some]

/-- Finished threads need no passes. -/
theorem gather_of_outcomes? {threads : List Thread} {outcomes : List Outcome}
    (ended : Thread.outcomes? threads = some outcomes) (breadth passes : Nat) (state : State) :
    Thread.gather execution.setting breadth passes threads state = (some outcomes, state) := by
  cases passes <;> rw [Thread.gather, ended] <;> rfl

/-- Running all statements again gives what is kept. -/
theorem runStatements_of_kept {outcomes : List Outcome}
    (kept : List.Forall₂ (fun group outcome => execution.state.outcome? group = some outcome)
      execution.setting.graph.groupPlaces outcomes) (passes : Nat) :
    execution.runStatements passes =
      (some ((collect outcomes).map fun _ => ()), execution) :=
  runStatements_of_gather (Setting.mapM_fetch_of_kept kept)
    (gather_of_outcomes? (Thread.outcomes?_eq_some_iff.2 rfl) _ passes _)

/-! ## All statements -/

/-- Running all statements comes to a result without any passes, what is seen of it is what the
statements do one after the other, and running them again gives the same result and does nothing
more. -/
def IsInOrder (execution : Execution) (results : Results) : Prop :=
  ∃ result execution',
    (∀ passes, execution.runStatements passes = (some result, execution')) ∧
    (∀ passes, execution'.runStatements passes = (some result, execution')) ∧
    execution'.state.Alike execution.setting.executable
      (execution.state.actAll execution.setting
        (execution.setting.sequentialDeeds results execution.state.invocations))

/-- With enough passes running all statements comes to a result, and what is seen of it is what the
statements do one after the other in some order: at first, in the order of the graph, those that are
done without waiting, among which are all that call no function that may suspend, neither themselves
nor in what they depend on, and then the others. Running them again gives the same result and does
nothing more. -/
def IsInSomeOrder (execution : Execution) (results : Results) : Prop :=
  ∃ first later enough result execution',
    (first ++ later).Perm execution.setting.graph.statements ∧
    first.Sublist execution.setting.graph.statements ∧
    (∀ place slot, execution.setting.graph.slots[place]? = some slot →
      slot ∈ execution.setting.graph.statements → ¬execution.setting.MayWait place →
        slot ∈ first) ∧
    (∀ passes, enough ≤ passes → execution.runStatements passes = (some result, execution')) ∧
    (∀ passes, execution'.runStatements passes = (some result, execution')) ∧
    execution'.state.Resembles execution.setting.executable
      (execution.state.actAll execution.setting
        (inOrder (execution.setting.statementDeeds results) execution.state.invocations
          (first ++ later)))

section

variable (orderly : execution.setting.IsOrderly results) (started : execution.Started)
  (reads : execution.setting.graph.ReadsValues) (lists : execution.setting.graph.ListsCalls)
include orderly started reads lists

/-- With enough passes, statements run in some order. -/
theorem isInSomeOrder_of_isOrderly : execution.IsInSomeOrder results := by
  obtain ⟨threads, state, first, ran, sub, prompt, -, -, all⟩ :=
    Setting.performs_groups orderly reads lists started.isSound fun _ => ⟨0, started.cell_eq⟩
  obtain ⟨enough, outcomes, last, done⟩ := Reaches.start.runSide_returns started ⟨[], rfl⟩
    execution.graph.size (execution.groups.map execution.graph.name)
  have gathered : ∀ passes, enough ≤ passes →
      Thread.gather execution.setting execution.graph.size passes threads state =
        (some outcomes, last) := by
    intro passes more
    have returned := done passes more
    have places : execution.groups = execution.setting.graph.groupPlaces := rfl
    rw [← fetch_groups started.linked, places] at returned
    unfold runSide at returned
    simp only [StateT.run, bind_apply, ran] at returned
    generalize Thread.gather execution.setting execution.graph.size passes threads state =
      result at returned
    obtain ⟨outcomes', state'⟩ := result
    cases returned
    rfl
  obtain ⟨later, perm, resembles, kept⟩ :=
    all execution.graph.size enough outcomes last (gathered enough (Nat.le_refl _))
  have statements := Graph.statements_eq started.linked
  refine ⟨first.filterMap fun place => execution.setting.graph.slots[place]?,
    later.filterMap fun place => execution.setting.graph.slots[place]?, enough, _,
    { execution with state := last }, ?_, ?_, ?_,
    fun passes more => runStatements_of_gather ran (gathered passes more),
    runStatements_of_kept kept, ?_⟩
  · rw [← List.filterMap_append, statements]
    exact perm.filterMap _
  · rw [statements]
    exact sub.filterMap _
  · intro place slot found member waits
    rw [statements] at member
    obtain ⟨place', listed, found'⟩ := List.mem_filterMap.1 member
    -- A slot is at one place only.
    have distinct : execution.setting.graph.slots.Nodup := started.linked.nodup.of_map
    have same : place' = place :=
      (List.getElem?_inj (List.getElem?_eq_some_iff.1 found').1 distinct).1
        (found'.trans found.symm)
    exact List.mem_filterMap.2 ⟨place, prompt place (same ▸ listed) waits, found⟩
  · rw [← List.filterMap_append, ← inOrder_filterMap]
    exact resembles

/-- Statements run in order if no function suspends. -/
theorem isInOrder_of_isOrderly
    (never : ∀ name entry, execution.setting.executable.function? name = some entry →
      entry.IsPrompt) : execution.IsInOrder results := by
  obtain ⟨threads, state, first, ran, sub, prompt, waiting, now, all⟩ :=
    Setting.performs_groups orderly reads lists started.isSound fun _ => ⟨0, started.cell_eq⟩
  have unhindered : ∀ place, ¬execution.setting.MayWait place := by
    rintro place ⟨target, slot, -, -, body, -, call, -, entry, bound, suspends⟩
    exact suspends (never call.1 entry bound)
  cases ended : Thread.outcomes? threads with
  | none =>
    obtain ⟨group, waits⟩ := waiting ended
    exact absurd waits (unhindered group)
  | some outcomes =>
    have gathered := @gather_of_outcomes? execution threads outcomes ended execution.graph.size
    obtain ⟨later, perm, resembles, kept⟩ :=
      all execution.graph.size 0 outcomes state (gathered 0 state)
    -- All statements are done when the requests are started.
    have complete : first =
        execution.setting.graph.groupPlaces.flatMap execution.setting.graph.dependencies :=
      sub.eq_of_length_le (lists.nodup.subperm fun place member =>
        prompt place member (unhindered place)).length_le
    have nothing : later = [] := by
      have lengths := perm.length_eq
      rw [complete, List.length_append] at lengths
      exact List.length_eq_zero_iff.1 (by omega)
    rw [nothing, List.append_nil, complete] at resembles
    refine ⟨_, { execution with state }, fun passes => runStatements_of_gather ran
      (gathered passes state), runStatements_of_kept kept, ⟨?_, ?_⟩⟩
    · rw [Setting.sequentialDeeds, Graph.statements_eq started.linked, ← inOrder_filterMap]
      exact resembles
    · rw [(State.cells_actAll _).2.2]
      exact now

end

end Execution

/-! ## Two statements -/

/-- A condition that suspends before it holds, one that does not suspend, and a statement. -/
def Catalog.recording : Catalog where
  entries := [
    .ofRegistration none {
      name := "slow", kind := .async fun _ _ => .pauses 1 (.finish (.ok (.bool true))) },
    .ofRegistration none { name := "ready", kind := .sync fun _ _ => ([], .ok (.bool true)) },
    .ofRegistration none {
      name := "record", kind := .statement "Records" fun _ _ => .finish (.ok ()) }]

/-- A host can come to have it. -/
theorem Catalog.reachable_recording : Catalog.recording.Reachable := by
  have slow : Catalog.register {} none {
      name := "slow", kind := .async fun _ _ => .pauses 1 (.finish (.ok (.bool true))) } =
        .ok { entries := Catalog.recording.entries.take 1 } := rfl
  have ready : Catalog.register { entries := Catalog.recording.entries.take 1 } none {
      name := "ready", kind := .sync fun _ _ => ([], .ok (.bool true)) } =
        .ok { entries := Catalog.recording.entries.take 2 } := rfl
  have record : Catalog.register { entries := Catalog.recording.entries.take 2 } none {
      name := "record", kind := .statement "Records" fun _ _ => .finish (.ok ()) } =
        .ok .recording := rfl
  exact ((Catalog.Reachable.empty.register slow).register ready).register record

/-- A statement under a condition and one without. -/
def Program.recording (condition : String) : Program :=
  [.rule (some (.call condition [])) [.call "record" [.const (.text "a")]],
    .rule none [.call "record" [.const (.text "b")]]]

/-- The graph of these statements. -/
def Graph.recording (condition : String) : Graph where
  slots := [
    .statement "Records#0" "Records" (some (.call condition []))
      (.call "record" [.const (.text "a")]),
    .statement "Records#1" "Records" none (.call "record" [.const (.text "b")]),
    .group "Records" ["Records#0", "Records#1"]]
  edges := [[], [], [0, 1]]
  cycles := [none, none, none]

/-- No expression in it names any slot. -/
theorem Graph.readsValues_recording (condition : String) :
    (Graph.recording condition).ReadsValues := by
  have silent : ∀ slot ∈ (Graph.recording condition).slots, ∀ body ∈ slot.expressions,
      body.features = [] := by
    simp [Graph.recording, Slot.expressions, Slot.statement, Slot.group, SlotExpr.features,
      SlotExpr.featuresOfAll]
  intro slot member body inside name named
  rw [silent slot member body inside] at named
  cases named

/-- The functions bound in this graph. -/
def Executable.recording (condition : String) : Executable :=
  .ofGraph (.recording condition) ⟨.recording, none⟩ {}

/-- All of them are pure, and the statement does not suspend. -/
theorem Executable.of_function?_recording {condition name : String} {entry : Entry}
    (bound : (Executable.recording condition).function? name = some entry) :
    (entry.Returns fun _ => .ok (.bool true)) ∧ entry.IsMute ∧
      (entry.isStatement = true → entry.IsPrompt) := by
  have listed : entry ∈ Catalog.recording.entries :=
    Scope.mem_of_lookup (Executable.lookup_of_function? bound)
  simp only [Catalog.recording, List.mem_cons, List.not_mem_nil, or_false] at listed
  rcases listed with rfl | rfl | rfl
  · refine ⟨fun _ _ => .pause .finish, fun _ _ => rfl, fun statement => ?_⟩
    cases statement
  · exact ⟨fun _ _ => rfl, fun _ _ => rfl, fun _ => trivial⟩
  · exact ⟨trivial, trivial, fun _ _ _ => .finish⟩

/-- An execution of these statements with a manipulator. -/
def Execution.recording (condition : String) : Execution where
  setting := { executable := .recording condition, hasManipulator := true }
  state := { State.initial 3 with manipulator := some {} }

namespace Execution

end Execution

end RuleGraph
