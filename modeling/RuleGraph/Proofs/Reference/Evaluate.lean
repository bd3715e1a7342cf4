import RuleGraph.Proofs.Graph.Built
import RuleGraph.Proofs.Routine.Does

/-! # The reference evaluator

What a slot comes to, by plain recursion: nothing is kept, nothing is shared, and everything happens
in order.

* **`Executable.Returns`** — functions whose results depend on their arguments only.
* **`Executable.evaluate`** — the outcome of a slot.
* **`Graph.IsPlain`** — slots that come down to inputs and features, without a cycle.
* **`Executable.reference_eq`** — for these slots, the depth of the recursion is no limit.
-/

namespace RuleGraph

open Relation

/-! ## Results of functions -/

/-- The steps of a function fetch nothing and end with a result. -/
inductive Action.Returns {α : Type} (result : Except FunctionError α) : Action α → Prop where
  /-- At once. -/
  | finish : Returns result (.finish result)
  /-- After a pause. -/
  | pause {next} (rest : Returns result next) : Returns result (.pause next)
  /-- After a sleep. -/
  | sleep {milliseconds next} (rest : Returns result next) :
    Returns result (.sleep milliseconds next)
  /-- After an effect. -/
  | perform {effect next} (rest : Returns result next) : Returns result (.perform effect next)

/-- A function that computes values, if it is one, fetches nothing and returns a result that depends
on its arguments only. -/
def Entry.Returns (entry : Entry) (result : List Value → Except FunctionError Value) : Prop :=
  match entry.kind with
  | .sync body => ∀ invocation args, (body invocation args).2 = result args
  | .async body => ∀ invocation args, (body invocation args).Returns (result args)
  | .statement _ _ | .custom _ | .transform _ => True

/-- The results of functions, by the names under which they are called. -/
abbrev Results := String → List Value → Except FunctionError Value

/-- All functions that compute values fetch nothing and return results that depend on their
arguments only. -/
def Executable.Returns (executable : Executable) (results : Results) : Prop :=
  ∀ name entry, executable.function? name = some entry → entry.Returns (results name)

/-! ## The evaluator -/

namespace Executable

/-- The outcome of a call: the function is looked up, the number of arguments has to fit, a null may
stand for the result, and entities may be replaced by their keys. -/
def evaluateCall (executable : Executable) (results : Results) (name : String)
    (args : List Value) : Outcome :=
  match executable.function? name with
  | none => .error (.unknownFunction name)
  | some entry =>
    match entry.arityError? args.length with
    | some error => .error (.functionFailed entry.qualifiedName error)
    | none =>
      match entry.admit? args, entry.kind with
      | none, _ => .ok .null
      | some args, .sync _ | some args, .async _ =>
        (results name args).mapError (.functionFailed entry.qualifiedName)
      | some _, _ => .error (.unknownFunction name)

mutual

/-- The outcome of an expression, given the outcomes of the slots that it names. -/
def evaluateExpr (executable : Executable) (results : Results) (known : String → Outcome) :
    SlotExpr → Outcome
  | .const value => .ok value
  | .feature name => known name
  | .list items => do
    let values ← evaluateExprs executable results known items
    return .list values
  | .call function args => do
    -- All arguments come first, and the leftmost error among them is that of the call.
    let values ← evaluateExprs executable results known args
    executable.evaluateCall results function values

/-- The values of several expressions, or the leftmost error. -/
def evaluateExprs (executable : Executable) (results : Results) (known : String → Outcome) :
    List SlotExpr → Except ExecutionError (List Value)
  | [] => return []
  | item :: rest => do
    let value ← evaluateExpr executable results known item
    let values ← evaluateExprs executable results known rest
    return value :: values

end

/-- The outcome of an input or a feature, given the outcomes of the slots that it names. A feature
fails with the first error among its dependencies. -/
def evaluateSlot (executable : Executable) (inputs : Dictionary Value) (results : Results)
    (known : String → Outcome) (slot : Slot) : Outcome :=
  match slot.kind with
  | .input => .ok ((Dictionary.find? inputs slot.name).getD .null)
  | .feature body => do
    let _ ← slot.deps.mapM known
    executable.evaluateExpr results known body
  | .statement _ _ _ | .group => .ok .null

/-- The outcome of the slot of a name. `depth` bounds how deep dependencies go. -/
def evaluate (executable : Executable) (inputs : Dictionary Value) (results : Results) :
    Nat → String → Outcome
  | 0, _ => .ok .null
  | depth + 1, name =>
    match executable.graph.get? name with
    | some slot =>
      executable.evaluateSlot inputs results (evaluate executable inputs results depth) slot
    | none => .error (.unknownFeature name)

/-- The outcome of the slot of a name, by plain recursion. No chain of dependencies without a cycle
is longer than there are slots. -/
def reference (executable : Executable) (inputs : Dictionary Value) (results : Results)
    (name : String) : Outcome :=
  executable.evaluate inputs results executable.graph.size name

end Executable

/-! ## Plain slots -/

/-- A slot comes down to inputs and features, and to no cycle. -/
structure Graph.IsPlain (graph : Graph) (index : Nat) : Prop where
  /-- It is a slot. -/
  bound : index < graph.size
  /-- All that it depends on is an input or a feature. -/
  kinds : ∀ target slot, ReflTransGen (Leads graph.edges) index target →
    graph.slots[target]? = some slot → slot.kind = .input ∨ ∃ body, slot.kind = .feature body
  /-- Nothing that it depends on depends on itself. -/
  acyclic : ∀ target, ReflTransGen (Leads graph.edges) index target →
    ¬TransGen (Leads graph.edges) target target

namespace Graph

variable {graph : Graph} {index target : Nat}

/-- What a plain slot depends on is plain. -/
theorem IsPlain.of_leads (linked : graph.Linked) (plain : graph.IsPlain index)
    (edge : Leads graph.edges index target) : graph.IsPlain target :=
  ⟨lt_size_of_mem_dependencies linked edge,
    fun other slot reaches => plain.kinds other slot (.head edge reaches),
    fun other reaches => plain.acyclic other (.head edge reaches)⟩

/-- A plain slot knows no cycle. -/
theorem IsPlain.cycleFrom?_eq_none (linked : graph.Linked) (plain : graph.IsPlain index) :
    graph.cycleFrom? index = none := by
  obtain ⟨found, here, verdict⟩ :=
    findCycles_spec linked.lt_length_edges (linked.length_edges ▸ plain.bound)
  rw [cycleFrom?, linked.cycles, List.getElem?_map, here]
  cases found with
  | none => rfl
  | some cycle =>
    obtain ⟨turn, reaches, around⟩ := verdict.exists_cycle
    exact absurd around (plain.acyclic turn reaches)

/-- Following the dependencies of a plain slot comes to an end. -/
theorem IsPlain.grounded (linked : graph.Linked) (plain : graph.IsPlain index) :
    Grounded graph.edges index :=
  (cycleFrom?_eq_none_iff linked plain.bound).1 (plain.cycleFrom?_eq_none linked)

end Graph

/-- A feature that its constructor has made depends on what its expression reads. -/
theorem Slot.IsConstructed.mem_deps {slot : Slot} (constructed : slot.IsConstructed)
    {body : SlotExpr} (kind : slot.kind = .feature body) {name : String} :
    name ∈ slot.deps ↔ name ∈ body.features := by
  cases constructed with
  | feature =>
    cases kind
    exact SlotExpr.mem_references
  | input | statement | group => cases kind

/-! ## The depth of the recursion -/

namespace Executable

variable {executable : Executable} {inputs inputs' : Dictionary Value} {results : Results}
  {known known' : String → Outcome}

/-- What several expressions come to depends on the slots that they read only, if that is so of each
of them. -/
theorem evaluateExprs_congr {bodies : List SlotExpr}
    (each : ∀ body ∈ bodies, (∀ name ∈ body.features, known name = known' name) →
      executable.evaluateExpr results known body = executable.evaluateExpr results known' body)
    (same : ∀ name ∈ SlotExpr.featuresOfAll bodies, known name = known' name) :
    executable.evaluateExprs results known bodies =
      executable.evaluateExprs results known' bodies := by
  induction bodies with
  | nil => rw [evaluateExprs, evaluateExprs]
  | cons body rest ih =>
    rw [SlotExpr.featuresOfAll] at same
    have first := each body List.mem_cons_self fun name read =>
      same name (List.mem_append_left _ read)
    have others := ih (fun later member => each later (List.mem_cons_of_mem _ member))
      fun name read => same name (List.mem_append_right _ read)
    rw [evaluateExprs, evaluateExprs, first, others]

/-- What an expression comes to depends on the slots that it reads only. -/
theorem evaluateExpr_congr {body : SlotExpr}
    (same : ∀ name ∈ body.features, known name = known' name) :
    executable.evaluateExpr results known body = executable.evaluateExpr results known' body := by
  induction body with
  | const => rw [evaluateExpr, evaluateExpr]
  | feature name =>
    rw [evaluateExpr, evaluateExpr]
    exact same name List.mem_cons_self
  | list items ih =>
    rw [SlotExpr.features] at same
    rw [evaluateExpr, evaluateExpr, evaluateExprs_congr ih same]
  | call function args ih =>
    rw [SlotExpr.features] at same
    rw [evaluateExpr, evaluateExpr, evaluateExprs_congr ih same]

/-- The first error among the outcomes of names, or their values. -/
theorem mapM_eq_collect {names : List String} : names.mapM known = collect (names.map known) := by
  rw [collect, List.mapM_map]
  rfl

/-- What a slot comes to depends on its dependencies only. -/
theorem evaluateSlot_congr {slot : Slot} (constructed : slot.IsConstructed)
    (same : ∀ name ∈ slot.deps, known name = known' name) :
    executable.evaluateSlot inputs results known slot =
      executable.evaluateSlot inputs results known' slot := by
  cases kind : slot.kind with
  | feature body =>
    have deps : slot.deps.mapM known = slot.deps.mapM known' := by
      rw [mapM_eq_collect, mapM_eq_collect, List.map_congr_left same]
    simp only [evaluateSlot, kind, deps]
    rw [evaluateExpr_congr fun name read => same name ((constructed.mem_deps kind).2 read)]
  | input | statement | group => simp only [evaluateSlot, kind]

/-- Only the values of input slots make a difference. -/
theorem reference_congr (same : ∀ name slot, executable.graph.get? name = some slot →
      slot.kind = .input → Dictionary.find? inputs slot.name = Dictionary.find? inputs' slot.name)
    (name : String) :
    executable.reference inputs results name = executable.reference inputs' results name := by
  have depths : ∀ depth, executable.evaluate inputs results depth =
      executable.evaluate inputs' results depth := by
    intro depth
    induction depth with
    | zero => rfl
    | succ depth ih =>
      funext name
      rw [evaluate, evaluate, ih]
      cases found : executable.graph.get? name with
      | none => rfl
      | some slot =>
        cases kind : slot.kind with
        | input => simp only [evaluateSlot, kind, same name slot found kind]
        | feature | statement | group => simp only [evaluateSlot, kind]
  rw [reference, reference, depths]

/-- Depth beyond the length of any path makes no difference. -/
theorem evaluate_congr (linked : executable.graph.Linked)
    (constructed : ∀ slot ∈ executable.graph.slots, slot.IsConstructed) {depth depth' : Nat}
    {path : List Nat} {index : Nat} (isPath : executable.graph.IsPath path)
    (links : path.IsChain (Leads executable.graph.edges)) (last : path.getLast? = some index)
    (plain : executable.graph.IsPlain index) (enough : executable.graph.size < depth + path.length)
    (enough' : executable.graph.size < depth' + path.length) :
    executable.evaluate inputs results depth (executable.graph.name index) =
      executable.evaluate inputs results depth' (executable.graph.name index) := by
  have short := isPath.length_le
  induction depth generalizing depth' path index with
  | zero => omega
  | succ depth ih =>
    cases depth' with
    | zero => omega
    | succ depth' =>
      have here := List.getElem?_eq_getElem (l := executable.graph.slots) plain.bound
      have got := Graph.get?_eq_some_iff.2 ⟨index, Graph.indexOf?_name linked plain.bound, here⟩
      rw [evaluate, evaluate, got]
      refine evaluateSlot_congr (constructed _ (List.getElem_mem _)) fun dep member => ?_
      obtain ⟨target, found, edge⟩ := Graph.exists_indexOf?_of_mem_deps linked here member
      -- A dependency on the path would close a cycle.
      have fresh : target ∉ path := fun onPath =>
        plain.acyclic index .refl
          (TransGen.head' edge (reflTransGen_of_mem_of_isChain links onPath last))
      have bound := Graph.lt_size_of_indexOf? found
      have longer : (path ++ [target]).length = path.length + 1 := List.length_append
      rw [← Graph.name_of_indexOf? found]
      refine ih (isPath.concat bound fresh) ?_ List.getLast?_concat
        (plain.of_leads linked edge) (by omega) (by omega) (isPath.concat bound fresh).length_le
      refine List.isChain_append.2 ⟨links, .singleton _, fun a lastOf b firstOf => ?_⟩
      rw [last] at lastOf
      cases lastOf
      cases firstOf
      exact edge

/-- **The reference evaluator is a plain recursion**: a plain slot comes to what its dependencies
make of it. -/
theorem reference_eq (linked : executable.graph.Linked)
    (constructed : ∀ slot ∈ executable.graph.slots, slot.IsConstructed) {index : Nat} {slot : Slot}
    (plain : executable.graph.IsPlain index) (found : executable.graph.slots[index]? = some slot) :
    executable.reference inputs results (executable.graph.name index) =
      executable.evaluateSlot inputs results (executable.reference inputs results) slot := by
  have isPath : executable.graph.IsPath [index] :=
    ⟨List.nodup_singleton _, fun _ member => List.mem_singleton.1 member ▸ plain.bound⟩
  have enough : executable.graph.size < executable.graph.size + [index].length :=
    Nat.lt_add_one _
  have enough' : executable.graph.size < executable.graph.size + 1 + [index].length :=
    Nat.lt_succ_of_lt enough
  -- One more level of depth makes no difference from the slot itself.
  have deeper := @evaluate_congr _ inputs results linked constructed _ _ [index] index isPath
    (.singleton _) rfl plain enough enough'
  have got := Graph.get?_eq_some_iff.2 ⟨index, Graph.indexOf?_name linked plain.bound, found⟩
  rw [reference, deeper, evaluate, got]
  rfl

end Executable

end RuleGraph
