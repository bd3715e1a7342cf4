import RuleGraph.Proofs.Reference.Agreement
import RuleGraph.Proofs.Routine.Ends
import RuleGraph.Proofs.Sequence.Sight

/-! # What routines come to

A routine that only computes values comes to what the reference evaluator says, if the plain slots
that it fetches do. On the way it may have to wait, but only if a function suspends.

* **`Setting.IsOrderly`** — what executions have to be like.
* **`Setting.MayWait`** — a slot may have to wait until it is computed.
* **`Setting.HeadsFor`** — one routine comes to where another one starts.
* **`Setting.headsFor_exprRoutine`** — expressions come to what the reference evaluator says.
* **`Setting.headsFor_slotRoutine`** — so do plain slots.
-/

namespace RuleGraph

open Relation Routine

/-- What executions have to be like for statements to run one after the other: slots are linked
without cycles, there is a manipulator and no deadline, functions that compute values are pure,
those of statements do not suspend, and no two bound functions have the same package and name. -/
structure Setting.IsOrderly (setting : Setting) (results : Results) : Prop where
  /-- The graph is linked. -/
  linked : setting.graph.Linked
  /-- Slots depend on what they read. -/
  constructed : ∀ slot ∈ setting.graph.slots, slot.IsConstructed
  /-- No slot knows a cycle. -/
  acyclic : ∀ index < setting.graph.size, setting.graph.cycleFrom? index = none
  /-- There is a manipulator. -/
  handled : setting.hasManipulator = true
  /-- There is no deadline. -/
  timeless : setting.featureTimeout = none
  /-- Results depend on arguments only. -/
  returns : setting.executable.Returns results
  /-- Functions that compute values have no effects. -/
  mute : ∀ name entry, setting.executable.function? name = some entry → entry.IsMute
  /-- Statements do not suspend. -/
  prompt : ∀ name entry, setting.executable.function? name = some entry →
    entry.isStatement = true → entry.IsPrompt
  /-- A package and a name are those of one function. -/
  apart : ∀ bound ∈ setting.executable.functions, ∀ bound' ∈ setting.executable.functions,
    bound.2.key = bound'.2.key → bound.2 = bound'.2

/-- Following dependencies comes to an end. -/
theorem Setting.IsOrderly.grounded {setting : Setting} {results : Results} {index : Nat}
    (orderly : setting.IsOrderly results) (bound : index < setting.graph.size) :
    Grounded setting.graph.edges index :=
  (Graph.cycleFrom?_eq_none_iff orderly.linked bound).1 (orderly.acyclic index bound)

/-- An expression calls a function that may suspend. -/
def Executable.Suspends (executable : Executable) (body : SlotExpr) : Prop :=
  ∃ call ∈ body.calls, ∃ entry, executable.function? call.1 = some entry ∧ ¬entry.IsPrompt

/-- A slot may have to wait until it is computed: it calls a function that may suspend, or something
that it depends on does. -/
def Setting.MayWait (setting : Setting) (index : Nat) : Prop :=
  ∃ target slot, ReflTransGen (Leads setting.graph.edges) index target ∧
    setting.graph.slots[target]? = some slot ∧
    ∃ body ∈ slot.expressions, setting.executable.Suspends body

/-- What depends on something that may have to wait may have to wait itself. -/
theorem Setting.MayWait.of_leads {setting : Setting} {index target : Nat}
    (waits : setting.MayWait target) (edge : Leads setting.graph.edges index target) :
    setting.MayWait index := by
  obtain ⟨last, slot, way, rest⟩ := waits
  exact ⟨last, slot, .head edge way, rest⟩

/-- The outcome of a slot as the reference evaluator says. -/
def Setting.known (setting : Setting) (results : Results) : String → Outcome :=
  setting.executable.reference setting.inputs results

/-- A routine of a slot comes to where another routine starts, with invocations of functions that
compute values and with requests for plain slots, which are answered as the reference evaluator
says. It suspends only if the slot may have to wait. -/
inductive Setting.HeadsFor (setting : Setting) (results : Results) (slot : Nat) :
    Routine → Routine → Prop where
  /-- It is there. -/
  | here {routine} : HeadsFor setting results slot routine routine
  /-- Behind an invocation of a function that is no statement. -/
  | invoke {function args next goal} (value : setting.executable.hasStatement function = false)
    (rest : ∀ ordinal, HeadsFor setting results slot (next ordinal) goal) :
    HeadsFor setting results slot (.invoke function args next) goal
  /-- Behind a pause. -/
  | pause {next goal} (waits : setting.MayWait slot)
    (rest : HeadsFor setting results slot next goal) :
    HeadsFor setting results slot (.pause next) goal
  /-- Behind a sleep. -/
  | sleep {milliseconds next goal} (waits : milliseconds = 0 ∨ setting.MayWait slot)
    (rest : HeadsFor setting results slot next goal) :
    HeadsFor setting results slot (.sleep milliseconds next) goal
  /-- Behind a request for a plain slot. -/
  | fetch {index next goal} (edge : Leads setting.graph.edges slot index)
    (plain : setting.graph.IsPlain index)
    (rest : HeadsFor setting results slot (next (setting.known results (setting.graph.name index)))
      goal) :
    HeadsFor setting results slot (.fetch index next) goal
  /-- Behind routines side by side. -/
  | join {breadth children outcomes next goal}
    (each : List.Forall₂ (fun child outcome =>
      HeadsFor setting results slot child (.done outcome)) children outcomes)
    (rest : HeadsFor setting results slot (next outcomes) goal) :
    HeadsFor setting results slot (.join breadth children next) goal

namespace Setting

variable {setting : Setting} {results : Results} {slot index : Nat}
  {routine routine' goal : Routine} {name : String}

namespace HeadsFor

/-- From where a routine comes to, it goes on. -/
theorem trans (first : setting.HeadsFor results slot routine routine')
    (second : setting.HeadsFor results slot routine' goal) :
    setting.HeadsFor results slot routine goal := by
  induction routine generalizing routine' with
  | done | perform | within =>
    cases first
    exact second
  | invoke function args next ih =>
    cases first with
    | here => exact second
    | invoke value rest => exact .invoke value fun ordinal => ih ordinal (rest ordinal) second
  | pause next ih =>
    cases first with
    | here => exact second
    | pause waits rest => exact .pause waits (ih rest second)
  | sleep milliseconds next ih =>
    cases first with
    | here => exact second
    | sleep waits rest => exact .sleep waits (ih rest second)
  | fetch index next ih =>
    cases first with
    | here => exact second
    | fetch edge plain rest => exact .fetch edge plain (ih _ rest second)
  | join breadth children next onChildren ih =>
    cases first with
    | here => exact second
    | join each rest => exact .join each (ih _ rest second)

/-- After routines side by side, with their values or the first error. -/
theorem allValues {children : List Routine} {outcomes : List Outcome}
    (each : List.Forall₂ (fun child outcome => setting.HeadsFor results slot child (.done outcome))
      children outcomes) (next : List Value → Routine) :
    match collect outcomes with
    | .ok values => setting.HeadsFor results slot (.allValues children next) (next values)
    | .error error =>
      setting.HeadsFor results slot (.allValues children next) (.done (.error error)) := by
  cases collected : collect outcomes with
  | ok values =>
    refine .join each ?_
    simp only [collected]
    exact .here
  | error error =>
    refine .join each ?_
    simp only [collected]
    exact .here

/-- After a routine with a value. -/
theorem value {child : Routine} {found : Value}
    (heads : setting.HeadsFor results slot child (.done (.ok found))) (next : Value → Routine) :
    setting.HeadsFor results slot (.value child next) (next found) :=
  allValues (.cons heads .nil) fun values => next (values.head?.getD .null)

/-- After a routine with an error. -/
theorem value_error {child : Routine} {error : ExecutionError}
    (heads : setting.HeadsFor results slot child (.done (.error error))) (next : Value → Routine) :
    setting.HeadsFor results slot (.value child next) (.done (.error error)) :=
  allValues (.cons heads .nil) fun values => next (values.head?.getD .null)

end HeadsFor

/-- An expression can be evaluated for a slot: requests for the slots that it names come to what the
reference evaluator says, and it calls functions that may suspend only if the slot may have to
wait. -/
structure CanEvaluate (setting : Setting) (results : Results) (slot : Nat) (body : SlotExpr) :
    Prop where
  /-- The slots that it names can be read. -/
  reads : ∀ name ∈ body.features, setting.HeadsFor results slot (setting.fetchNamed name)
    (.done (setting.known results name))
  /-- It suspends only if the slot may have to wait. -/
  waits : setting.executable.Suspends body → setting.MayWait slot

/-- So can the items of a list. -/
theorem CanEvaluate.item {items : List SlotExpr} {item : SlotExpr}
    (can : setting.CanEvaluate results slot (.list items)) (member : item ∈ items) :
    setting.CanEvaluate results slot item :=
  ⟨fun name read => can.reads name (SlotExpr.mem_featuresOfAll.2 ⟨item, member, read⟩),
    fun ⟨call, inside, slow⟩ =>
      can.waits ⟨call, SlotExpr.mem_callsOfAll.2 ⟨item, member, inside⟩, slow⟩⟩

/-- So can the arguments of a call. -/
theorem CanEvaluate.arg {function : String} {args : List SlotExpr} {arg : SlotExpr}
    (can : setting.CanEvaluate results slot (.call function args)) (member : arg ∈ args) :
    setting.CanEvaluate results slot arg :=
  ⟨fun name read => can.reads name (SlotExpr.mem_featuresOfAll.2 ⟨arg, member, read⟩),
    fun ⟨call, inside, slow⟩ => can.waits
      ⟨call, List.mem_cons_of_mem _ (SlotExpr.mem_callsOfAll.2 ⟨arg, member, inside⟩), slow⟩⟩

/-- Fetching ahead comes to the first error, or goes on. -/
theorem headsFor_prefetch {names : List String}
    (reads : ∀ name ∈ names, setting.HeadsFor results slot (setting.fetchNamed name)
      (.done (setting.known results name)))
    (next : Routine) :
    match names.mapM (setting.known results) with
    | .ok _ => setting.HeadsFor results slot (setting.prefetch names next) next
    | .error error =>
      setting.HeadsFor results slot (setting.prefetch names next) (.done (.error error)) := by
  have each : List.Forall₂
      (fun child outcome => setting.HeadsFor results slot child (.done outcome))
      (names.map setting.fetchNamed) (names.map (setting.known results)) := by
    rw [List.forall₂_map_left_iff, List.forall₂_map_right_iff, List.forall₂_same]
    exact reads
  rw [Executable.mapM_eq_collect]
  exact HeadsFor.allValues each _

/-- The steps of a pure function come to its result. -/
theorem headsFor_actionRoutine {action : Action Value} {result : Except FunctionError Value}
    (returns : action.Returns result) (mute : action.run.1 = [])
    (waits : ¬action.IsPrompt → setting.MayWait slot)
    (next : Except FunctionError Value → Routine) :
    setting.HeadsFor results slot (setting.actionRoutine next action) (next result) := by
  induction returns with
  | finish => exact .here
  | pause _ ih =>
    have waiting : setting.MayWait slot := waits nofun
    exact .pause waiting (ih mute fun _ => waiting)
  | @sleep milliseconds rest _ ih =>
    by_cases waiting : setting.MayWait slot
    · exact .sleep (.inr waiting) (ih mute fun _ => waiting)
    · -- What does not wait is prompt, so that the sleep has no length.
      have prompt := not_imp_comm.1 waits waiting
      cases prompt with
      | sleep rest => exact .sleep (.inl rfl) (ih mute fun slow => absurd rest slow)
  | perform => cases mute

/-- Several expressions come to their values or the first error if each of them does. -/
theorem headsFor_exprRoutines {bodies : List SlotExpr}
    (each : ∀ body ∈ bodies, setting.HeadsFor results slot (setting.exprRoutine body)
      (.done (setting.executable.evaluateExpr results (setting.known results) body)))
    (next : List Value → Routine) :
    match setting.executable.evaluateExprs results (setting.known results) bodies with
    | .ok values =>
      setting.HeadsFor results slot (.allValues (setting.exprRoutines bodies) next) (next values)
    | .error error =>
      setting.HeadsFor results slot (.allValues (setting.exprRoutines bodies) next)
        (.done (.error error)) := by
  have all : List.Forall₂
      (fun child outcome => setting.HeadsFor results slot child (.done outcome))
      (bodies.map setting.exprRoutine)
      (bodies.map (setting.executable.evaluateExpr results (setting.known results))) := by
    rw [List.forall₂_map_left_iff, List.forall₂_map_right_iff, List.forall₂_same]
    exact each
  rw [exprRoutines_eq_map, evaluateExprs_eq_collect]
  exact HeadsFor.allValues all _

section

variable (orderly : setting.IsOrderly results)
include orderly

/-! ## Calls -/

/-- A function that computes values is not taken for a statement. -/
theorem IsOrderly.hasStatement_eq_false {entry : Entry}
    (bound : setting.executable.function? name = some entry) (value : entry.isStatement = false) :
    setting.executable.hasStatement entry.key = false := by
  rw [Executable.hasStatement, List.any_eq_false]
  intro other listed both
  rw [Bool.and_eq_true, decide_eq_true_eq] at both
  have inside : (name, entry) ∈ setting.executable.functions := by
    obtain ⟨before, after, same, -⟩ := List.lookup_eq_some_iff.1 bound
    rw [same]
    exact List.mem_append_right _ List.mem_cons_self
  have same := orderly.apart other listed (name, entry) inside both.2
  rw [same, value] at both
  cases both.1

/-- A call comes to what the reference evaluator says. -/
theorem headsFor_callRoutine
    (waits : ∀ entry, setting.executable.function? name = some entry → ¬entry.IsPrompt →
      setting.MayWait slot) (args : List Value) :
    setting.HeadsFor results slot (setting.callRoutine name args)
      (.done (setting.executable.evaluateCall results name args)) := by
  cases bound : setting.executable.function? name with
  | none =>
    simp only [callRoutine, Executable.evaluateCall, bound]
    exact .here
  | some entry =>
    have result := orderly.returns name entry bound
    have mute := orderly.mute name entry bound
    have slow := waits entry bound
    cases arity : entry.arityError? args.length with
    | some error =>
      simp only [callRoutine, Executable.evaluateCall, bound, arity]
      exact .here
    | none =>
      cases admitted : entry.admit? args with
      | none =>
        simp only [callRoutine, Executable.evaluateCall, bound, arity, admitted]
        exact .here
      | some args' =>
        simp only [callRoutine, Executable.evaluateCall, bound, arity, admitted, invokeValue]
        cases kind : entry.kind with
        | sync body =>
          simp only [Entry.Returns, Entry.IsMute, kind] at result mute
          refine .invoke (orderly.hasStatement_eq_false bound ?_) fun ordinal => ?_
          · rw [Entry.isStatement, kind]
          · rw [mute, result]
            exact .here
        | async body =>
          simp only [Entry.Returns, Entry.IsMute, Entry.IsPrompt, kind] at result mute slow
          refine .invoke (orderly.hasStatement_eq_false bound ?_) fun ordinal => ?_
          · rw [Entry.isStatement, kind]
          · exact headsFor_actionRoutine (result _ _) (mute _ _)
              (fun some => slow fun all => some (all _ _)) _
        | _ => exact .here

/-! ## Expressions -/

/-- **An expression comes to what the reference evaluator says.** -/
theorem headsFor_exprRoutine {body : SlotExpr} (can : setting.CanEvaluate results slot body) :
    setting.HeadsFor results slot (setting.exprRoutine body)
      (.done (setting.executable.evaluateExpr results (setting.known results) body)) := by
  induction body with
  | const value =>
    rw [exprRoutine, Executable.evaluateExpr]
    exact .here
  | feature name =>
    rw [exprRoutine, Executable.evaluateExpr]
    exact can.reads name List.mem_cons_self
  | list items ih =>
    have all := headsFor_exprRoutines (fun item member => ih item member (can.item member))
      fun values => .done (.ok (.list values))
    rw [exprRoutine, Executable.evaluateExpr]
    cases found : setting.executable.evaluateExprs results (setting.known results) items with
    | ok values =>
      rw [found] at all
      exact all
    | error error =>
      rw [found] at all
      exact all
  | call function args ih =>
    have all := headsFor_exprRoutines (fun arg member => ih arg member (can.arg member))
      fun values => setting.callRoutine function values
    rw [exprRoutine, Executable.evaluateExpr]
    cases found : setting.executable.evaluateExprs results (setting.known results) args with
    | ok values =>
      rw [found] at all
      exact all.trans (headsFor_callRoutine orderly (fun entry bound slow =>
        can.waits ⟨(function, args.length), List.mem_cons_self, entry, bound, slow⟩) values)
    | error error =>
      rw [found] at all
      exact all

/-! ## Slots -/

/-- A plain slot comes to what the reference evaluator says. -/
theorem headsFor_slotRoutine (plain : setting.graph.IsPlain index) :
    setting.HeadsFor results index (setting.slotRoutine index)
      (.done (setting.known results (setting.graph.name index))) := by
  obtain ⟨slot, found⟩ : ∃ slot, setting.graph.slots[index]? = some slot :=
    ⟨_, List.getElem?_eq_getElem plain.bound⟩
  have made := orderly.constructed slot (List.mem_of_getElem? found)
  have same : setting.known results (setting.graph.name index) =
      setting.executable.evaluateSlot setting.inputs results (setting.known results) slot :=
    Executable.reference_eq orderly.linked orderly.constructed plain found
  have deps : ∀ name ∈ slot.deps, setting.HeadsFor results index (setting.fetchNamed name)
      (.done (setting.known results name)) := by
    intro name member
    obtain ⟨target, place, edge⟩ := Graph.exists_indexOf?_of_mem_deps orderly.linked found member
    have named : setting.graph.name target = name := Graph.name_of_indexOf? place
    rw [fetchNamed, place, ← named]
    exact .fetch edge (plain.of_leads orderly.linked edge) .here
  rw [same]
  rcases plain.kinds index slot .refl found with kind | ⟨body, kind⟩
  · simp only [slotRoutine, found, Executable.evaluateSlot, kind]
    exact .here
  · have ahead := headsFor_prefetch deps (setting.exprRoutine body)
    have inside : body ∈ slot.expressions := by
      rw [Slot.expressions, kind]
      exact List.mem_singleton_self body
    simp only [slotRoutine, found, Executable.evaluateSlot, kind]
    cases fetched : slot.deps.mapM (setting.known results) with
    | error error =>
      rw [fetched] at ahead
      exact ahead
    | ok values =>
      rw [fetched] at ahead
      refine ahead.trans (headsFor_exprRoutine orderly ⟨fun name read => deps name ?_, ?_⟩)
      · exact (made.mem_deps kind).2 read
      · exact fun slow => ⟨index, slot, .refl, found, body, inside, slow⟩

end

end Setting

end RuleGraph
