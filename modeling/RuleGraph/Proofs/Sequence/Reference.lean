import RuleGraph.Proofs.Interleaving.Deeds
import RuleGraph.Proofs.Reference.Evaluate

/-! # Statements one after the other

What running all statements would do without any concurrency: one statement feature after the other,
and of each one statement after the other.

* **`Action.run`** — the effects of a function and its result.
* **`Setting.invocationDeeds`** — what a statement does once it has its arguments.
* **`Setting.statementDeeds`** — what a statement does.
* **`inOrder`** — things done one after the other, each knowing what was invoked before.
* **`Setting.sequentialDeeds`** — what all statements do.
-/

namespace RuleGraph

/-! ## Functions without suspensions -/

namespace Action

variable {α : Type}

/-- The effects of a function in order, and its result. Suspending makes no difference to them, and
what a fetch would be answered with is left out. -/
def run : Action α → List Effect × Except FunctionError α
  | .finish result => ([], result)
  | .pause next => run next
  | .sleep _ next => run next
  | .fetch names next => run (next (names.map fun _ => .ok .null))
  | .fetchWithin _ _ next => run (next (some (.ok .null)))
  | .perform effect next => (effect :: (run next).1, (run next).2)

/-- The steps of a function neither suspend nor fetch. -/
inductive IsPrompt : Action α → Prop where
  /-- The end. -/
  | finish {result} : IsPrompt (.finish result)
  /-- A sleep of no length does not suspend. -/
  | sleep {next} (rest : IsPrompt next) : IsPrompt (.sleep 0 next)
  /-- An effect. -/
  | perform {effect next} (rest : IsPrompt next) : IsPrompt (.perform effect next)

end Action

namespace Entry

/-- The function neither suspends nor fetches. -/
def IsPrompt (entry : Entry) : Prop :=
  match entry.kind with
  | .async body => ∀ invocation args, (body invocation args).IsPrompt
  | .statement _ body => ∀ invocation args, (body invocation args).IsPrompt
  | .sync _ | .custom _ | .transform _ => True

/-- The function has no effects if it computes values. -/
def IsMute (entry : Entry) : Prop :=
  match entry.kind with
  | .async body => ∀ invocation args, (body invocation args).run.1 = []
  | .sync body => ∀ invocation args, (body invocation args).1 = []
  | .statement _ _ | .custom _ | .transform _ => True

end Entry

/-! ## The reference -/

/-- Whether a condition holds, given the outcomes of the slots that it names. Without a condition a
statement always runs. -/
def Executable.verdict (executable : Executable) (results : Results) (known : String → Outcome) :
    Option SlotExpr → Except ExecutionError Bool
  | none => .ok true
  | some condition => (executable.evaluateExpr results known condition).map Value.isTruthy

/-- The statements of a graph: those of each statement feature in the order of the graph. -/
def Graph.statements (graph : Graph) : List Slot :=
  (graph.slots.filter Slot.isGroup).flatMap fun group => group.deps.filterMap graph.get?

namespace Setting

/-- A failure is recorded. -/
def failureDeed (entry : Entry) (error : FunctionError) : Deed :=
  .perform (.report error.message ⟨some entry.name, false⟩)

/-- What a statement does once it has its arguments. Arguments in the wrong number are recorded;
otherwise the entities among them are tracked, and unless a null keeps it from being invoked the
function of the statement runs, and its failure is recorded. `earlier` holds what was invoked
before. -/
def invocationDeeds (setting : Setting) (earlier : List InvocationRecord) (name : String)
    (args : List Value) : List Deed :=
  match setting.executable.function? name with
  | none => []
  | some entry =>
    match entry.kind with
    | .statement _ body =>
      match entry.arityError? args.length with
      | some error => [failureDeed entry error]
      | none =>
        let tracked := (setting.trackingEffects args).map Deed.perform
        match entry.admit? args with
        | none => tracked
        | some args =>
          let ordinal := earlier.countP (fun record => record.1 = entry.key) + 1
          let (effects, result) := (body (setting.invocation entry ordinal) args).run
          let failed := match result with
            | .ok _ => []
            | .error error => [failureDeed entry error]
          tracked ++ .invoke entry.key args :: effects.map Deed.perform ++ failed
    | _ => []

/-- What a statement does: its condition comes first and then its arguments, and if the condition
does not hold or one of them fails, nothing is done. -/
def statementDeeds (setting : Setting) (results : Results) (earlier : List InvocationRecord)
    (slot : Slot) : List Deed :=
  let known := setting.executable.reference setting.inputs results
  match slot.kind with
  | .statement _ condition (.call function args) =>
    match setting.executable.verdict results known condition with
    | .ok true =>
      match setting.executable.evaluateExprs results known args with
      | .ok values => setting.invocationDeeds earlier function values
      | .error _ => []
    | _ => []
  | _ => []

end Setting

/-- Things done one after the other, each knowing what was invoked before. -/
def inOrder {α : Type} (does : List InvocationRecord → α → List Deed) :
    List InvocationRecord → List α → List Deed
  | _, [] => []
  | earlier, item :: rest =>
    let deeds := does earlier item
    deeds ++ inOrder does (earlier ++ deeds.filterMap Deed.invocation?) rest

/-- What all statements do, one after the other. -/
def Setting.sequentialDeeds (setting : Setting) (results : Results)
    (earlier : List InvocationRecord) : List Deed :=
  inOrder (setting.statementDeeds results) earlier setting.graph.statements

section

variable {α β : Type} {does : List InvocationRecord → α → List Deed}
  {earlier : List InvocationRecord}

/-- First some things, then others. -/
theorem inOrder_append (items items' : List α) :
    inOrder does earlier (items ++ items') = inOrder does earlier items ++
      inOrder does (earlier ++ (inOrder does earlier items).filterMap Deed.invocation?) items' := by
  induction items generalizing earlier with
  | nil => simp [inOrder]
  | cons item rest ih =>
    rw [List.cons_append, inOrder, inOrder, ih]
    simp only [List.filterMap_append, List.append_assoc]

/-- Things that some members of a list stand for are done in the order of the list. -/
theorem inOrder_filterMap {f : β → Option α} (items : List β) :
    inOrder (fun earlier item => (f item).elim [] (does earlier)) earlier items =
      inOrder does earlier (items.filterMap f) := by
  induction items generalizing earlier with
  | nil => rfl
  | cons item rest ih =>
    cases found : f item with
    | none =>
      rw [List.filterMap_cons_none found, inOrder, found, ih]
      simp
    | some thing =>
      rw [List.filterMap_cons_some found, inOrder, inOrder, found, ih]
      rfl

end

end RuleGraph
