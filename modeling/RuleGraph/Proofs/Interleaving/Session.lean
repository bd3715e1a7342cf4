import RuleGraph.Proofs.Graph.Built
import RuleGraph.Proofs.Interleaving.Step

/-! # Sessions

All that a host may do with one execution: it requests slots whenever it likes, lets the requests
overlap in any way, and waits.

* **`Session`** — the requests of a host and how far they have come.
* **`Session.Step`** — one step of a session.
* **`Execution.Reaches`** — the sessions that an execution can come to, with what happened on the
  way.
* **`Execution.Started`** — an execution before anything is requested.
-/

namespace RuleGraph

/-- The requests of a host and how far they have come. -/
structure Session where
  /-- The names requested, in order. -/
  names : List String
  /-- For every request, its thread. -/
  threads : List Thread
  /-- The state of the execution. -/
  state : State

namespace Session

/-- One step of a session: a further request, a step of one of the requests made, or something that
is no computation. -/
inductive Step (setting : Setting) : Session → Trace → Session → Prop where
  /-- The host requests a slot by name. -/
  | call {names threads state} (name mark) :
    Step setting ⟨names, threads, state⟩ []
      ⟨names ++ [name], threads ++ [.resting mark (setting.fetchNamed name)], state⟩
  /-- One of the requests comes a step further. -/
  | go {names threads threads' state state' trace}
    (step : Thread.SideStep setting [] threads state trace threads' state') :
    Step setting ⟨names, threads, state⟩ trace ⟨names, threads', state'⟩
  /-- Something else happens. -/
  | meanwhile {names threads state state'} (other : state.Meanwhile state') :
    Step setting ⟨names, threads, state⟩ [] ⟨names, threads, state'⟩

/-- Whether all requests are answered. -/
def IsQuiet (session : Session) : Prop :=
  ∃ outcomes, Thread.outcomes? session.threads = some outcomes

end Session

/-- Dropping entries under other keys changes no value. -/
theorem Dictionary.find?_filter {α : Type} {entries : Dictionary α} {keep : String → Bool}
    {key : String} (kept : keep key = true) :
    Dictionary.find? (entries.filter fun entry => keep entry.1) key =
      Dictionary.find? entries key := by
  induction entries with
  | nil => rfl
  | cons entry rest ih =>
    obtain ⟨key', value⟩ := entry
    rw [find?, find?] at ih ⊢
    by_cases same : key = key'
    · subst same
      rw [List.filter_cons, if_pos kept, List.lookup_cons_self, List.lookup_cons_self]
    · have apart : (key == key') = false := by simpa using same
      have beyond : ((key', value) :: rest).lookup key = rest.lookup key := by
        rw [List.lookup_cons, apart]
      rw [List.filter_cons, beyond, ← ih]
      split
      · rw [List.lookup_cons, apart]
      · rfl

namespace Execution

/-- The sessions that an execution can come to, with what happened on the way. -/
inductive Reaches (execution : Execution) : Trace → Session → Prop where
  /-- Nothing is requested yet. -/
  | start : Reaches execution [] ⟨[], [], execution.state⟩
  /-- A step more. -/
  | step {trace trace' session session'} (before : Reaches execution trace session)
    (last : Session.Step execution.setting session trace' session') :
    Reaches execution (trace ++ trace') session'

/-- Running requests leads from session to session. -/
theorem Reaches.runs {execution : Execution} {trace trace' : Trace} {names : List String}
    {threads threads' : List Thread} {state state' : State}
    (before : execution.Reaches trace ⟨names, threads, state⟩)
    (runs : Runs (Thread.SideStep execution.setting []) threads state trace' threads' state') :
    execution.Reaches (trace ++ trace') ⟨names, threads', state'⟩ := by
  induction runs generalizing trace with
  | refl => simpa using before
  | step first _ ih =>
    rw [← List.append_assoc]
    exact ih (before.step (.go first))
  | meanwhile first _ ih => exact ih (by simpa using before.step (.meanwhile first))

/-- An execution before anything is requested. -/
structure Started (execution : Execution) : Prop where
  /-- Its graph is linked. -/
  linked : execution.setting.graph.Linked
  /-- No slot is computed. -/
  cells : execution.state.cells = List.replicate execution.setting.graph.size (.idle 0)
  /-- Nothing waits. -/
  waits : execution.state.waits = List.replicate execution.setting.graph.size []

/-- At first every slot is idle. -/
theorem Started.cell_eq {execution : Execution} (started : execution.Started) {slot : Nat} :
    execution.state.cell slot = .idle 0 := by
  rw [State.cell, started.cells, List.getElem?_replicate]
  split <;> rfl

/-- At first no slot waits. -/
theorem Started.targets_eq {execution : Execution} (started : execution.Started) {slot : Nat} :
    execution.state.waits.targets slot = [] := by
  rw [Waits.targets, started.waits, List.getElem?_replicate]
  split <;> rfl

/-- What starting an execution fixes: the graph and the functions, and that statements can run if
and only if there is a manipulator. -/
theorem eq_of_execute {executable : Executable} {options : ExecuteOptions} {history : History}
    {execution : Execution} (h : executable.execute options history = .ok execution) :
    execution.setting.executable = executable ∧
      execution.setting.hasManipulator = execution.state.manipulator.isSome ∧
      execution.state.cells = List.replicate executable.graph.size (.idle 0) ∧
      execution.state.waits = List.replicate executable.graph.size [] ∧
      execution.state.manipulator = options.manipulator ∧
      execution.state.invocations = history.invocations ∧
      execution.setting.started = execution.state.now ∧
      execution.setting.featureTimeout =
        options.featureTimeout.or executable.config.featureTimeout := by
  unfold Executable.execute at h
  dsimp only at h
  split at h
  · cases h
  · cases h
    exact ⟨rfl, rfl, rfl, rfl, rfl, rfl, rfl, rfl⟩

/-- At first nothing is late. -/
theorem hasTimedOut_of_execute {executable : Executable} {options : ExecuteOptions}
    {history : History} {execution : Execution}
    (h : executable.execute options history = .ok execution) :
    execution.state.hasTimedOut = false := by
  unfold Executable.execute at h
  dsimp only at h
  split at h
  · cases h
  · cases h
    rfl

/-- Inputs for which there is a slot have the values that the host has supplied. All others are left
out. -/
theorem find?_inputs_of_execute {executable : Executable} {options : ExecuteOptions}
    {history : History} {execution : Execution} {name : String}
    (h : executable.execute options history = .ok execution)
    (input : executable.graph.hasInput name = true) :
    Dictionary.find? execution.setting.inputs name = Dictionary.find? options.inputs name := by
  have kept : execution.setting.inputs =
      options.inputs.filter fun input => executable.graph.hasInput input.1 := by
    unfold Executable.execute at h
    dsimp only at h
    rw [List.partition_eq_filter_filter] at h
    split at h
    · cases h
    · cases h
      rfl
  rw [kept]
  exact @Dictionary.find?_filter _ _ executable.graph.hasInput _ input

/-- An execution is one of the graph that its executable was made for. -/
theorem graph_of_execute {graph : Graph} {scope : Scope} {config : EngineConfig}
    {options : ExecuteOptions} {history : History} {execution : Execution}
    (h : (Executable.ofGraph graph scope config).execute options history = .ok execution) :
    execution.setting.graph = graph := by
  rw [Setting.graph, (eq_of_execute h).1]
  rfl

end Execution

/-- An execution of a graph that was made starts with nothing requested. -/
theorem Execution.started_of_execute {executable : Executable} {options : ExecuteOptions}
    {history : History} {execution : Execution} (built : executable.graph.IsBuilt)
    (h : executable.execute options history = .ok execution) : execution.Started := by
  obtain ⟨same, -, cells, waits, -⟩ := Execution.eq_of_execute h
  have graph : execution.setting.graph = executable.graph := by rw [Setting.graph, same]
  exact ⟨graph ▸ built.linked, graph ▸ cells, graph ▸ waits⟩

/-! ## A sample -/

/-- An execution to look at: a feature that calls a function on an event. -/
def Execution.sample : Execution where
  setting := {
    executable := {
      graph := {
        slots := [.input "Event", .feature "User" (.call "user" [.feature "Event"])]
        edges := [[], [0]]
        cycles := [none, none] }
      functions := [("user", .ofRegistration none {
        name := "user", kind := .sync fun _ args => ([], .ok (args.headD .null)) })] }
    inputs := [("Event", .text "login")] }
  state := State.initial 2

/-- The graph of the sample is one that was made. -/
theorem Execution.isBuilt_sample : Execution.sample.setting.executable.graph.IsBuilt :=
  ⟨Execution.sample.setting.executable.graph.slots, by decide⟩

/-- The sample is what its executable starts with. -/
theorem Execution.execute_sample :
    Execution.sample.setting.executable.execute { inputs := [("Event", .text "login")] } {} =
      .ok Execution.sample := rfl

end RuleGraph
