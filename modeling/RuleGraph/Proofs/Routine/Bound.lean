import RuleGraph.Proofs.Catalog.Names
import RuleGraph.Proofs.Compile.CallSites
import RuleGraph.Proofs.Routine.Ends

/-! # Bound calls

A call is bound if its name stands for a function that may be called where the call stands and that
takes so many arguments. A slot whose calls are bound never asks in vain for a function: it ends in
a value, in an error that a function has raised itself, or in what its fetches are answered with.

* **`Slot.CallsValue`**, **`Slot.CallsStatement`** — where calls stand in a slot.
* **`Setting.Ready`** — a call is bound to a function of a kind, which takes so many arguments.
* **`Setting.IsBound`** — all calls of a slot are bound to functions that may be called there.
* **`Setting.Admits`** — a kind of outcomes in which bound calls end.
* **`Setting.endsIn_exprRoutine`**, **`Setting.endsIn_statementRoutine`** — expressions and
  statements end in it.
* **`Setting.endsIn_slotRoutine_of_isBound`** — so does the computation of a slot.
* **`Setting.dispatches_of_invokes`** — a slot invokes only functions that its calls are bound to.
-/

namespace RuleGraph

/-- A statement of some statement feature. -/
def Entry.IsStatement (entry : Entry) : Prop :=
  ∃ feature run, entry.kind = .statement feature run

/-- Statements are told by their kind. -/
theorem Entry.isStatement_iff {entry : Entry} : entry.isStatement = true ↔ entry.IsStatement := by
  unfold isStatement IsStatement
  cases entry.kind <;> simp

namespace Slot

/-- A call stands in a slot where a value is wanted: in a feature, in a condition, among the
arguments of a statement, or in the body of a statement that is no call. -/
def CallsValue (slot : Slot) (call : String × Nat) : Prop :=
  match slot.kind with
  | .input | .group => False
  | .feature body => call ∈ body.calls
  | .statement _ condition body =>
    (∃ guard ∈ condition, call ∈ guard.calls) ∨
      match body with
      | .call _ args => ∃ arg ∈ args, call ∈ arg.calls
      | other => call ∈ other.calls

/-- A call is the statement of a slot. -/
def CallsStatement (slot : Slot) (call : String × Nat) : Prop :=
  match slot.kind with
  | .statement _ _ (.call function args) => call = (function, args.length)
  | _ => False

/-- Every call of a slot stands where a value is wanted or is its statement. -/
theorem mem_calls_iff {slot : Slot} {call : String × Nat} :
    call ∈ slot.calls ↔ slot.CallsValue call ∨ slot.CallsStatement call := by
  unfold calls expressions CallsValue CallsStatement
  cases slot.kind with
  | input | group => simp
  | feature body => simp
  | statement feature condition body =>
    -- The calls of the condition come first, whatever the body is.
    rw [List.mem_flatMap]
    simp only [List.mem_append, Option.mem_toList, or_and_right, exists_or, or_assoc]
    refine or_congr Iff.rfl ?_
    simp only [List.mem_cons, List.not_mem_nil, or_false, exists_eq_left]
    cases body with
    | call function args =>
      rw [SlotExpr.calls, List.mem_cons, SlotExpr.mem_callsOfAll]
      exact or_comm
    | const | feature | list => simp

end Slot

namespace Setting

open Routine

/-- The body of a function raises an error when it is invoked in an execution. -/
def Raises (setting : Setting) (entry : Entry) (source : FunctionError) : Prop :=
  match entry.kind with
  | .sync body => ∃ ordinal args,
    (body (setting.invocation entry ordinal) args).2 = .error source
  | .async body => ∃ ordinal args,
    (body (setting.invocation entry ordinal) args).EndsWith (.error source)
  | .statement _ body => ∃ ordinal args,
    (body (setting.invocation entry ordinal) args).EndsWith (.error source)
  | .custom _ | .transform _ => False

/-- A call is bound to a function of a kind, which takes so many arguments. -/
def Ready (setting : Setting) (kind : Entry → Prop) (call : String × Nat) : Prop :=
  ∃ entry, setting.executable.function? call.1 = some entry ∧ kind entry ∧
    entry.arityError? call.2 = none

/-- Every call of a slot is bound to a function that may be called there: where a value is wanted,
to one that computes values, and as a statement, to a statement. -/
structure IsBound (setting : Setting) (slot : Slot) : Prop where
  /-- Where a value is wanted. -/
  value : ∀ call, slot.CallsValue call → setting.Ready Entry.IsValue call
  /-- As a statement. -/
  statement : ∀ call, slot.CallsStatement call → setting.Ready Entry.IsStatement call

/-- A kind of outcomes in which bound calls end: it includes values, the errors that bound functions
raise, and that there is no manipulator when there is none. -/
structure Admits (setting : Setting) (kind : Outcome → Prop) : Prop where
  /-- Values. -/
  value : ∀ value, kind (.ok value)
  /-- Errors of functions. -/
  failed : ∀ {name entry source}, setting.executable.function? name = some entry →
    setting.Raises entry source → kind (.error (.functionFailed entry.qualifiedName source))
  /-- Statements without a manipulator. -/
  unhandled : ∀ name, setting.hasManipulator = false → kind (.error (.missingManipulator name))

/-- Fetches of slots by name are answered by outcomes of a kind. -/
def AnswersIn (setting : Setting) (reply : Nat → Outcome → Prop) (kind : Outcome → Prop)
    (names : List String) : Prop :=
  ∀ name ∈ names, (setting.fetchNamed name).EndsIn reply kind

variable {setting : Setting} {reply : Nat → Outcome → Prop} {kind : Outcome → Prop}

/-! ## Expressions -/

/-- Fetching ahead ends in an outcome of a kind if what comes after it does. -/
theorem endsIn_prefetch {names : List String} {next : Routine}
    (answers : setting.AnswersIn reply kind names) (rest : next.EndsIn reply kind) :
    (setting.prefetch names next).EndsIn reply kind := by
  refine .allValues (fun child member => ?_) fun _ _ => rest
  obtain ⟨name, listed, rfl⟩ := List.mem_map.1 member
  exact answers name listed

section

variable (admits : setting.Admits kind)
include admits

/-- The outcome of a call is admitted if its error was raised by the function. -/
theorem Admits.callOutcome {name : String} {entry : Entry} {result : Except FunctionError Value}
    (bound : setting.executable.function? name = some entry)
    (raises : ∀ source, result = .error source → setting.Raises entry source) :
    kind (callOutcome entry result) := by
  cases result with
  | ok value => exact admits.value value
  | error source => exact admits.failed bound (raises source rfl)

/-- A call that is bound to a function that computes values ends in an admitted outcome. -/
theorem endsIn_callRoutine {name : String} {args : List Value}
    (ready : setting.Ready Entry.IsValue (name, args.length)) :
    (setting.callRoutine name args).EndsIn reply kind := by
  obtain ⟨entry, bound, isValue, arity⟩ := ready
  simp only [callRoutine, bound, arity]
  cases admitted : entry.admit? args with
  | none => exact .done (admits.value _)
  | some args' =>
    rcases isValue with ⟨body, same⟩ | ⟨body, same⟩
    · simp only [invokeValue, same]
      refine .invoke fun ordinal => endsIn_actionRoutine fun result ends => .done ?_
      refine admits.callOutcome bound fun source raised => ?_
      subst raised
      simp only [Raises, same]
      exact ⟨ordinal, args', ends⟩
    · simp only [invokeValue, same]
      refine .invoke fun ordinal => .performAll (.done ?_)
      refine admits.callOutcome bound fun source raised => ?_
      simp only [Raises, same]
      exact ⟨ordinal, args', raised⟩

/-- **Evaluating an expression ends in an admitted outcome**, if its calls are bound and so end the
fetches of the slots that it names. -/
theorem endsIn_exprRoutine {body : SlotExpr}
    (ready : ∀ call ∈ body.calls, setting.Ready Entry.IsValue call)
    (answers : setting.AnswersIn reply kind body.features) :
    (setting.exprRoutine body).EndsIn reply kind := by
  induction body with
  | const value =>
    rw [exprRoutine]
    exact .done (admits.value value)
  | feature name =>
    rw [exprRoutine]
    exact answers name List.mem_cons_self
  | list items ih =>
    rw [exprRoutine]
    refine .allValues (endsIn_exprRoutines fun item member => ih item member ?_ ?_)
      fun values _ => .done (admits.value _)
    · exact fun call called => ready call (SlotExpr.mem_callsOfAll.2 ⟨item, member, called⟩)
    · exact fun name read => answers name (SlotExpr.mem_featuresOfAll.2 ⟨item, member, read⟩)
  | call function args ih =>
    rw [exprRoutine]
    refine .allValues (endsIn_exprRoutines fun arg member => ih arg member ?_ ?_)
      fun values length => endsIn_callRoutine admits ?_
    · exact fun call called =>
        ready call (List.mem_cons_of_mem _ (SlotExpr.mem_callsOfAll.2 ⟨arg, member, called⟩))
    · exact fun name read => answers name (SlotExpr.mem_featuresOfAll.2 ⟨arg, member, read⟩)
    · rw [length, exprRoutines_eq_map, List.length_map]
      exact ready _ List.mem_cons_self

/-! ## Statements -/

/-- Running a statement that is bound ends in an admitted outcome. -/
theorem endsIn_invokeStatement {name : String} {args : List Value}
    (ready : setting.Ready Entry.IsStatement (name, args.length)) :
    (setting.invokeStatement name args).EndsIn reply kind := by
  obtain ⟨entry, bound, ⟨feature, body, same⟩, arity⟩ := ready
  simp only [invokeStatement, bound, same, arity]
  refine .performAll ?_
  cases admitted : entry.admit? args with
  | none => exact .done (admits.value _)
  | some args' =>
    refine .invoke fun ordinal => endsIn_actionRoutine fun result ends => ?_
    cases result with
    | ok value => exact .done (admits.value _)
    | error source =>
      -- The statement is reported before it fails.
      refine .perform (.done (admits.failed bound ?_))
      simp only [Raises, same]
      exact ⟨ordinal, args', ends⟩

/-- So does handing it its arguments. -/
theorem endsIn_statementCall {function : String} {args : List SlotExpr}
    (ready : setting.Ready Entry.IsStatement (function, args.length))
    (inner : ∀ arg ∈ args, ∀ call ∈ arg.calls, setting.Ready Entry.IsValue call)
    (answers : setting.AnswersIn reply kind (SlotExpr.call function args).features) :
    (setting.statementCall (.call function args)).EndsIn reply kind := by
  rw [statementCall]
  refine endsIn_prefetch (fun name member => answers name (SlotExpr.mem_references.1 member)) ?_
  refine .allValues (endsIn_exprRoutines fun arg member => ?_) fun values length => ?_
  · exact endsIn_exprRoutine admits (inner arg member) fun name read =>
      answers name (SlotExpr.mem_featuresOfAll.2 ⟨arg, member, read⟩)
  · apply endsIn_invokeStatement admits
    rw [length, exprRoutines_eq_map, List.length_map]
    exact ready

/-- So does a statement with its condition. -/
theorem endsIn_statementRoutine {name : String} {condition : Option SlotExpr} {call : SlotExpr}
    (holds : ∀ body ∈ condition,
      (∀ call ∈ body.calls, setting.Ready Entry.IsValue call) ∧
        setting.AnswersIn reply kind body.features)
    (runs : (setting.statementCall call).EndsIn reply kind) :
    (setting.statementRoutine name condition call).EndsIn reply kind := by
  unfold statementRoutine
  split
  · rename_i lacks
    exact .done (admits.unhandled name (by simpa using lacks))
  · cases condition with
    | none => exact runs
    | some body =>
      obtain ⟨ready, answers⟩ := holds body rfl
      refine endsIn_prefetch (fun name member => answers name (SlotExpr.mem_references.1 member)) ?_
      refine .value (endsIn_exprRoutine admits ready answers) fun value => ?_
      split
      · exact runs
      · exact .done (admits.value _)

/-! ## Slots -/

/-- **Computing a slot whose calls are bound ends in an admitted outcome**, if so end the fetches of
what it depends on and of what its expressions name. -/
theorem endsIn_slotRoutine_of_isBound {index : Nat} {slot : Slot}
    (found : setting.graph.slots[index]? = some slot) (bound : setting.IsBound slot)
    (ahead : setting.AnswersIn reply kind slot.deps)
    (named : ∀ body ∈ slot.expressions, setting.AnswersIn reply kind body.features)
    (members : ∀ dep ∈ setting.graph.dependencies index, ∀ outcome, reply dep outcome →
      kind outcome) :
    (setting.slotRoutine index).EndsIn reply kind := by
  obtain ⟨slotName, slotKind, deps⟩ := slot
  obtain ⟨value, statement⟩ := bound
  simp only [slotRoutine, found]
  cases slotKind with
  | input => exact .done (admits.value _)
  | feature body =>
    exact endsIn_prefetch ahead
      (endsIn_exprRoutine admits value (named body List.mem_cons_self))
  | statement feature condition call =>
    have guards : ∀ body ∈ condition, (∀ call ∈ body.calls, setting.Ready Entry.IsValue call) ∧
        setting.AnswersIn reply kind body.features :=
      fun body same => ⟨fun call called => value call (.inl ⟨body, same, called⟩),
        named body (List.mem_append_left _ (Option.mem_toList.2 same))⟩
    have own := named call (List.mem_append_right _ List.mem_cons_self)
    refine endsIn_statementRoutine admits guards ?_
    cases call with
    | call function args =>
      exact endsIn_statementCall admits (statement _ rfl)
        (fun arg member call called => value call (.inr ⟨arg, member, called⟩)) own
    -- A body that is no call is evaluated like any other expression.
    | const | feature | list =>
      exact endsIn_exprRoutine admits (fun call called => value call (.inr called)) own
  | group =>
    refine .all (fun child listed => ?_) fun outcomes _ each =>
      .done (groupOutcome_of_forall (admits.value _) each)
    obtain ⟨dep, edge, rfl⟩ := List.mem_map.1 listed
    exact .fetch fun outcome told => .done (members dep edge outcome told)

end

/-! ## Invocations -/

/-- A slot has a call that is bound to a function: where a value is wanted, to one that computes
values, and as a statement, to a statement. -/
def Dispatches (setting : Setting) (slot : Slot) (function : EntryKey) : Prop :=
  ∃ call entry, setting.executable.function? call.1 = some entry ∧ entry.key = function ∧
    entry.arityError? call.2 = none ∧
    (slot.CallsValue call ∧ entry.IsValue ∨ slot.CallsStatement call ∧ entry.IsStatement)

/-- What a slot whose calls are bound calls, it calls properly. -/
theorem IsBound.dispatches {slot : Slot} (bound : setting.IsBound slot) {call : String × Nat}
    (called : call ∈ slot.calls) {entry : Entry}
    (found : setting.executable.function? call.1 = some entry) :
    setting.Dispatches slot entry.key := by
  refine ⟨call, entry, found, rfl, ?_⟩
  rcases Slot.mem_calls_iff.1 called with asValue | asStatement
  · obtain ⟨other, found', isValue, takes⟩ := bound.value call asValue
    cases found.symm.trans found'
    exact ⟨takes, .inl ⟨asValue, isValue⟩⟩
  · obtain ⟨other, found', isStatement, takes⟩ := bound.statement call asStatement
    cases found.symm.trans found'
    exact ⟨takes, .inr ⟨asStatement, isStatement⟩⟩

/-- **A slot invokes only functions that its calls are bound to**, each where it may be called. -/
theorem dispatches_of_invokes {index : Nat} {slot : Slot} {deeds : Multiset Deed}
    {result : Option Outcome} (found : setting.graph.slots[index]? = some slot)
    (bound : setting.IsBound slot) (does : (setting.slotRoutine index).Does reply deeds result)
    {function : EntryKey} {args : List Value} (invoked : .invoke function args ∈ deeds) :
    setting.Dispatches slot function := by
  have some_invocation : 0 < invocationsOf function deeds :=
    Multiset.countP_pos.2 ⟨_, invoked, by simp [Deed.invokes]⟩
  -- There are at most as many invocations as calls that are bound to the function.
  have some_call : 0 < setting.executable.boundCalls function slot.calls :=
    some_invocation.trans_le (invokesAtMost_slotRoutine found _ _ _ does)
  obtain ⟨call, called, isBound⟩ := List.countP_pos_iff.1 some_call
  obtain ⟨entry, looked, same⟩ := (Option.any_eq_true _ _).1 isBound
  exact of_decide_eq_true same ▸ bound.dispatches called looked

end Setting

end RuleGraph
