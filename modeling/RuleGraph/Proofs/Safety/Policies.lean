import RuleGraph.Proofs.Interleaving.Deeds
import RuleGraph.Proofs.Interleaving.Outcomes
import RuleGraph.Proofs.Interleaving.Termination
import RuleGraph.Proofs.Routine.Bound
import RuleGraph.Proofs.Routine.Calls
import RuleGraph.Proofs.Value.Unwrap

/-! # What functions are handed

A function is registered with or without two permissions: to be invoked when an argument is null,
and to receive entities rather than their keys. Whatever is called in an execution, by a feature or
as a statement, and however deep the call is nested, its function is invoked within them.

* **`Entry.Receives`** — the arguments that a function may be handed for those of a call.
* **`Entry.Refuses`** — calls that a function refuses whatever the values of their arguments are.
* **`Entry.Goes`** — the ways in which a call goes.
* **`MadeCall.Obeys`** — a call goes by the permissions of its function.
* **`MadeCall.obeys`** — every call does.
* **`Execution.calls_obey`** — all that is invoked in an execution is invoked by such calls.
-/

namespace RuleGraph

/-- Only null is null. -/
theorem Value.isNull_iff {value : Value} : value.isNull = true ↔ value = .null := by
  cases value <;> simp [isNull]

namespace Entry

/-- The arguments that a function may be handed for those of a call. -/
structure Receives (entry : Entry) (args handed : List Value) : Prop where
  /-- Without the permission it is handed no null. -/
  noNull : entry.allowNull = false → .null ∉ handed
  /-- Without the permission it is handed nothing that is or holds an entity. -/
  noEntity : entry.allowEntities = false → ∀ value ∈ handed, value.hasEntity = false
  /-- Then every entity is replaced by its key, and nothing else changes. -/
  keyed : entry.allowEntities = false → List.Forall₂ Value.IsKeyed args handed
  /-- With the permission all arguments are handed to it as they are. -/
  unchanged : entry.allowEntities = true → handed = args

/-- A call is refused whatever the values of its arguments are: there are too few or too many, or it
stands as a statement and the function is none. -/
def Refuses (entry : Entry) (asStatement : Bool) (count : Nat) : Prop :=
  entry.arityError? count ≠ none ∨ asStatement = true ∧ ¬entry.IsStatement

/-- A function may be called as a statement, or where a value is wanted. -/
def Suits (entry : Entry) (asStatement : Bool) : Prop :=
  if asStatement then entry.IsStatement else entry.IsValue

variable {entry : Entry} {args handed : List Value}

/-- A null keeps a function from being invoked if it has no permission for it. -/
theorem admit?_eq_none_iff :
    entry.admit? args = none ↔ entry.allowNull = false ∧ .null ∈ args := by
  have null : args.any Value.isNull = true ↔ .null ∈ args := by
    simp only [List.any_eq_true, Value.isNull_iff, exists_eq_right]
  rw [← null, admit?]
  cases entry.allowNull <;> cases args.any Value.isNull <;> simp <;> split <;> simp

/-- What is admitted holds no null without the permission. -/
theorem null_notMem_of_admit? (admitted : entry.admit? args = some handed)
    (lacks : entry.allowNull = false) : .null ∉ args := by
  intro member
  rw [admit?_eq_none_iff.2 ⟨lacks, member⟩] at admitted
  cases admitted

/-- What is admitted is handed over by the permissions. -/
theorem receives_of_admit? (admitted : entry.admit? args = some handed) :
    entry.Receives args handed := by
  have noNull := null_notMem_of_admit? admitted
  unfold admit? at admitted
  split at admitted
  · cases admitted
  · split at admitted
    · rename_i permitted
      cases admitted
      have never {p : Prop} (lacks : entry.allowEntities = false) : p := by
        rw [permitted] at lacks
        cases lacks
      exact ⟨noNull, never, never, fun _ => rfl⟩
    · rename_i forbidden
      cases admitted
      refine ⟨fun lacks member => ?_, fun _ value member => ?_, fun _ => ?_,
        fun permitted => absurd permitted forbidden⟩
      · obtain ⟨arg, listed, same⟩ := List.mem_map.1 member
        exact noNull lacks (Value.unwrap_eq_null_iff.1 same ▸ listed)
      · obtain ⟨arg, -, rfl⟩ := List.mem_map.1 member
        exact arg.hasEntity_unwrap
      · exact List.forall₂_map_right_iff.2
          (List.forall₂_same.2 fun arg _ => Value.isKeyed_iff.2 rfl)

/-- The ways in which a call of a function goes once its arguments are evaluated. -/
inductive Goes (entry : Entry) (asStatement : Bool) (args : List Value) : Routine → Prop where
  /-- It is refused. -/
  | refused {effects error} (refuses : entry.Refuses asStatement args.length) :
    Goes entry asStatement args (.performAll effects (.done (.error error)))
  /-- A null keeps the function from being invoked. -/
  | withheld {effects} (takes : ¬entry.Refuses asStatement args.length)
    (withheld : entry.admit? args = none) :
    Goes entry asStatement args (.performAll effects (.done (.ok .null)))
  /-- It stands where a value is wanted, and the function computes none. -/
  | unsuited {error handed} (takes : ¬entry.Refuses asStatement args.length)
    (admitted : entry.admit? args = some handed) (unfit : ¬entry.Suits asStatement) :
    Goes entry asStatement args (.done (.error error))
  /-- The function is invoked, once. -/
  | invoked {handed effects next} (takes : ¬entry.Refuses asStatement args.length)
    (admitted : entry.admit? args = some handed) (suits : entry.Suits asStatement)
    (rest : ∀ ordinal function, (next ordinal).InvokesAtMost function 0) :
    Goes entry asStatement args (.performAll effects (.invoke entry.key handed next))

end Entry

namespace Setting

open Routine

variable {setting : Setting} {asStatement : Bool} {function : String} {entry : Entry}
  {args : List Value}

/-- A call where a value is wanted goes in one of these ways. -/
theorem goes_callRoutine (bound : setting.executable.function? function = some entry) :
    entry.Goes false args (setting.callRoutine function args) := by
  simp only [callRoutine, bound]
  cases arity : entry.arityError? args.length with
  | some error =>
    have refuses : entry.Refuses false args.length := .inl (by simp [arity])
    exact @Entry.Goes.refused _ _ _ [] _ refuses
  | none =>
    have takes : ¬entry.Refuses false args.length := by simp [Entry.Refuses, arity]
    cases admitted : entry.admit? args with
    | none => exact @Entry.Goes.withheld _ _ _ [] takes admitted
    | some handed =>
      dsimp only [invokeValue]
      cases kind : entry.kind with
      | sync body =>
        have suits : entry.Suits false := .inr ⟨body, kind⟩
        exact @Entry.Goes.invoked _ _ _ _ [] _ takes admitted suits fun ordinal _ =>
          .performAll .done
      | async body =>
        have suits : entry.Suits false := .inl ⟨body, kind⟩
        exact @Entry.Goes.invoked _ _ _ _ [] _ takes admitted suits fun ordinal _ =>
          invokesAtMost_actionRoutine (fun _ => .done) _
      | statement | custom | transform =>
        exact .unsuited takes admitted (by simp [Entry.Suits, Entry.IsValue, kind])

/-- So does a statement. -/
theorem goes_invokeStatement (bound : setting.executable.function? function = some entry) :
    entry.Goes true args (setting.invokeStatement function args) := by
  simp only [invokeStatement, bound]
  cases kind : entry.kind with
  | statement feature body =>
    have isStatement : entry.IsStatement := ⟨feature, body, kind⟩
    cases arity : entry.arityError? args.length with
    | some error =>
      have refuses : entry.Refuses true args.length := .inl (by simp [arity])
      exact @Entry.Goes.refused _ _ _ [_] _ refuses
    | none =>
      have takes : ¬entry.Refuses true args.length := by simp [Entry.Refuses, arity, isStatement]
      dsimp only
      cases admitted : entry.admit? args with
      | none => exact .withheld takes admitted
      | some handed =>
        refine .invoked takes admitted isStatement fun ordinal _ =>
          invokesAtMost_actionRoutine (fun result => ?_) _
        split
        · exact .done
        · exact .perform .done
  | sync | async | custom | transform =>
    have refuses : entry.Refuses true args.length := .inr ⟨rfl, by simp [Entry.IsStatement, kind]⟩
    exact @Entry.Goes.refused _ _ _ [] _ refuses

/-- **A call of a function that there is goes in one of these ways.** -/
theorem goes_dispatch (bound : setting.executable.function? function = some entry) :
    entry.Goes asStatement args (setting.dispatch asStatement function args) := by
  cases asStatement
  · exact goes_callRoutine bound
  · exact goes_invokeStatement bound

end Setting

/-! ## Invocations -/

/-- The invocations among deeds. -/
def invokedBy (deeds : Multiset Deed) : Multiset InvocationRecord :=
  deeds.filterMap Deed.invocation?

section

variable {deeds deeds' : Multiset Deed}

/-- Invocations add up. -/
@[simp] theorem invokedBy_add :
    invokedBy (deeds + deeds') = invokedBy deeds + invokedBy deeds' :=
  Multiset.filterMap_add _ _ _

/-- An effect is no invocation. -/
@[simp] theorem invokedBy_perform {effect : Effect} :
    invokedBy (.perform effect ::ₘ deeds) = invokedBy deeds :=
  Multiset.filterMap_cons_none _ _ rfl

/-- An invocation is one of its function with its arguments. -/
@[simp] theorem invokedBy_invoke {function : EntryKey} {args : List Value} :
    invokedBy (.invoke function args ::ₘ deeds) = (function, args) ::ₘ invokedBy deeds :=
  Multiset.filterMap_cons_some Deed.invocation? _ _ rfl

end

/-- The invocations among the deeds of several slots. -/
theorem invokedBy_sum {size : Nat} {deeds : Nat → Multiset Deed} :
    invokedBy (∑ slot ∈ Finset.range size, deeds slot) =
      ∑ slot ∈ Finset.range size, invokedBy (deeds slot) :=
  map_sum (⟨⟨invokedBy, rfl⟩, fun _ _ => invokedBy_add⟩ :
    Multiset Deed →+ Multiset InvocationRecord) _ _

/-- Deeds that invoke no function have no invocations among them. -/
theorem invokedBy_eq_zero {deeds : Multiset Deed}
    (none : ∀ function, invocationsOf function deeds = 0) : invokedBy deeds = 0 := by
  refine Multiset.eq_zero_of_forall_notMem fun record member => ?_
  obtain ⟨deed, done, same⟩ := (Multiset.mem_filterMap _ _).1 member
  cases deed with
  | perform => cases same
  | invoke function args =>
    exact Multiset.countP_eq_zero.1 (none function) _ done (by simp [Deed.invokes])

/-- Effects are no invocations. -/
theorem exists_of_does_performAll {reply : Nat → Outcome → Prop} {effects : List Effect}
    {next : Routine} {deeds : Multiset Deed} {result : Option Outcome}
    (does : (Routine.performAll effects next).Does reply deeds result) :
    ∃ rest, next.Does reply rest result ∧ invokedBy deeds = invokedBy rest := by
  induction effects generalizing deeds with
  | nil => exact ⟨deeds, does, rfl⟩
  | cons effect effects ih =>
    cases does with
    | abandoned => exact ⟨0, .abandoned, rfl⟩
    | perform does =>
      obtain ⟨rest, later, same⟩ := ih does
      exact ⟨rest, later, invokedBy_perform.trans same⟩

/-- Steps that end after effects invoke nothing. -/
theorem of_does_performAll_done {reply : Nat → Outcome → Prop} {effects : List Effect}
    {outcome : Outcome} {deeds : Multiset Deed} {result : Option Outcome}
    (does : (Routine.performAll effects (.done outcome)).Does reply deeds result) :
    invokedBy deeds = 0 ∧ ∀ outcome' ∈ result, outcome' = outcome := by
  obtain ⟨rest, last, same⟩ := exists_of_does_performAll does
  rw [same]
  cases last with
  | abandoned => exact ⟨rfl, by simp⟩
  | done => exact ⟨rfl, by simp⟩

/-- A call goes by the permissions of its function: its steps, what it invokes, and the outcome with
which it ends. -/
structure Entry.Governs (entry : Entry) (asStatement : Bool) (args : List Value)
    (routine : Routine) (invocations : Multiset InvocationRecord) (result : Option Outcome) :
    Prop where
  /-- It invokes nothing or its function, once, with arguments that the function may be handed. -/
  invoked : invocations = 0 ∨
    ∃ handed, invocations = {(entry.key, handed)} ∧ entry.Receives args handed
  /-- If there is a null among its arguments and no permission for it, it invokes nothing, and unless
  it is refused it comes to null, without waiting for anything. -/
  withheld : entry.allowNull = false → .null ∈ args → invocations = 0 ∧
    (¬entry.Refuses asStatement args.length →
      (∃ effects, routine = .performAll effects (.done (.ok .null))) ∧
        ∀ outcome ∈ result, outcome = .ok .null)
  /-- If it is refused, it invokes nothing and fails. -/
  refused : entry.Refuses asStatement args.length → invocations = 0 ∧
    ∀ outcome ∈ result, ∃ error, outcome = .error error
  /-- If no null keeps the function from being invoked and it may be called so, then it has been
  invoked when the call ends. -/
  reached : ¬entry.Refuses asStatement args.length → entry.Suits asStatement →
    (entry.allowNull = true ∨ .null ∉ args) → result ≠ none → invocations ≠ 0

/-- However a call goes, it goes by the permissions of its function. -/
theorem Entry.Goes.governs {entry : Entry} {asStatement : Bool} {args : List Value}
    {routine : Routine} {reply : Nat → Outcome → Prop} {deeds : Multiset Deed}
    {result : Option Outcome} (goes : entry.Goes asStatement args routine)
    (does : routine.Does reply deeds result) :
    entry.Governs asStatement args routine (invokedBy deeds) result := by
  cases goes with
  | refused refuses =>
    obtain ⟨quiet, ends⟩ := of_does_performAll_done does
    exact {
      invoked := .inl quiet
      withheld _ _ := ⟨quiet, fun takes => absurd refuses takes⟩
      refused _ := ⟨quiet, fun outcome member => ⟨_, ends outcome member⟩⟩
      reached takes := absurd refuses takes }
  | withheld takes withheld =>
    obtain ⟨quiet, ends⟩ := of_does_performAll_done does
    obtain ⟨lacks, null⟩ := admit?_eq_none_iff.1 withheld
    exact {
      invoked := .inl quiet
      withheld _ _ := ⟨quiet, fun _ => ⟨⟨_, rfl⟩, ends⟩⟩
      refused refuses := absurd refuses takes
      reached _ _ free := absurd null (free.resolve_left (by simp [lacks])) }
  | unsuited takes admitted unfit =>
    obtain ⟨quiet, -⟩ := @of_does_performAll_done _ [] _ _ _ does
    exact {
      invoked := .inl quiet
      withheld lacks null := absurd null (null_notMem_of_admit? admitted lacks)
      refused refuses := absurd refuses takes
      reached _ suits := absurd suits unfit }
  | @invoked handed _ _ takes admitted suits rest =>
    obtain ⟨deeds', last, same⟩ := exists_of_does_performAll does
    rw [same]
    -- Either it stops before the function is invoked, or the function is invoked and no other.
    have once : invokedBy deeds' = 0 ∧ result = none ∨ invokedBy deeds' = {(entry.key, handed)} := by
      cases last with
      | abandoned => exact .inl ⟨rfl, rfl⟩
      | invoke later =>
        right
        have quiet := invokedBy_eq_zero fun function =>
          Nat.le_zero.1 (rest _ function _ _ _ later)
        rw [invokedBy_invoke, quiet]
        rfl
    exact {
      invoked := once.imp And.left fun whole => ⟨handed, whole, receives_of_admit? admitted⟩
      withheld lacks null := absurd null (null_notMem_of_admit? admitted lacks)
      refused refuses := absurd refuses takes
      reached _ _ _ ended := by
        rcases once with ⟨-, abandoned⟩ | whole
        · exact absurd abandoned ended
        · simp [whole] }

namespace MadeCall

variable {setting : Setting} {reply : Nat → Outcome → Prop}

/-- The invocations that a call makes. -/
def invocations (call : MadeCall setting reply) : Multiset InvocationRecord :=
  invokedBy call.deeds

/-- A call goes by the permissions of its function, and if there is none it invokes nothing. -/
def Obeys (call : MadeCall setting reply) : Prop :=
  match setting.executable.function? call.function with
  | none => call.invocations = 0
  | some entry =>
    entry.Governs call.asStatement call.args
      (setting.dispatch call.asStatement call.function call.args) call.invocations call.result

/-- **Every call goes by the permissions of its function.** -/
theorem obeys (call : MadeCall setting reply) : call.Obeys := by
  unfold Obeys
  cases bound : setting.executable.function? call.function with
  | none =>
    have unknown : setting.dispatch call.asStatement call.function call.args =
        .done (.error (.unknownFunction call.function)) := by
      simp [Setting.dispatch, Setting.invokeStatement, Setting.callRoutine, bound]
    exact (@of_does_performAll_done _ [] _ _ _ (unknown ▸ call.does)).1
  | some entry => exact (Setting.goes_dispatch bound).governs call.does

/-- What several calls do invokes what each of them invokes. -/
theorem invokedBy_deedsOfCalls (calls : List (MadeCall setting reply)) :
    invokedBy (deedsOfCalls calls) = (calls.map invocations).sum := by
  induction calls with
  | nil => rfl
  | cons call rest ih =>
    have first : deedsOfCalls (call :: rest) = call.deeds + deedsOfCalls rest := List.sum_cons
    rw [first, invokedBy_add, ih, List.map_cons, List.sum_cons, invocations]

end MadeCall

/-! ## Executions -/

/-- A call that a slot makes, whose requests are answered or refused as they are in a session. -/
abbrev Session.SlotCall (setting : Setting) (session : Session) (slot : Nat) : Type :=
  MadeCall setting (session.state.Replies setting (some slot))

/-- The calls that a slot has made so far: what it has done is what they have done. Earlier attempts to
compute it were abandoned; if the last one has come to an outcome of its own, all its calls have
ended. -/
structure Session.Calls (setting : Setting) (trace : Trace) (session : Session) (slot : Nat)
    (calls : List (session.SlotCall setting slot)) : Prop where
  /-- What the slot has done is what they have done. -/
  deeds_eq : (trace.deedsOf slot : Multiset Deed) = deedsOfCalls calls
  /-- They are the calls of the slot up to somewhere, in as many attempts as have begun, and to its
  end if it has come to one. -/
  account : ∃ (past : List (List (session.SlotCall setting slot)))
      (last : List (session.SlotCall setting slot)) (result : Option Outcome),
    calls = past.flatten ++ last ∧
    past.length = trace.begins.count slot - 1 ∧
    (∀ calls ∈ past, setting.slotAccount (session.state.Replies setting (some slot)) slot calls
      none) ∧
    setting.slotAccount (session.state.Replies setting (some slot)) slot last result ∧
    ∀ outcome, session.state.outcome? slot = some outcome →
      result = some outcome ∧ (∀ call ∈ last, call.result ≠ none) ∨
        outcome = .error (setting.timeoutError slot) ∧ session.state.isOverdue setting slot = true

/-- What several abandoned attempts to compute a slot have done, they have done by calls. -/
theorem exists_calls_of_past {setting : Setting} {reply : Nat → Outcome → Prop} {slot : Nat}
    {past : List (List Deed)}
    (each : ∀ deeds ∈ past, (setting.slotRoutine slot).Does reply (deeds : Multiset Deed) none) :
    ∃ calls : List (List (MadeCall setting reply)), calls.length = past.length ∧
      (past.flatten : Multiset Deed) = deedsOfCalls calls.flatten ∧
      ∀ attempt ∈ calls, setting.slotAccount reply slot attempt none := by
  induction past with
  | nil => exact ⟨[], rfl, rfl, by simp⟩
  | cons deeds rest ih =>
    obtain ⟨first, others⟩ := List.forall_mem_cons.1 each
    obtain ⟨calls, length, same, accounts⟩ := ih others
    obtain ⟨attempt, account, own⟩ := ((Setting.hasAccount_slotRoutine slot).does_iff _ _).1 first
    refine ⟨attempt :: calls, by simp [length], ?_, List.forall_mem_cons.2 ⟨account, accounts⟩⟩
    rw [List.flatten_cons, List.flatten_cons, ← Multiset.coe_add, own, same, deedsOfCalls_append]

namespace Execution

variable {execution : Execution} {trace : Trace} {session : Session}

/-- **Whatever a slot has done so far, it has done by its calls.** -/
theorem Reaches.exists_calls (started : execution.Started)
    (reaches : execution.Reaches trace session) (slot : Nat) :
    ∃ calls, session.Calls execution.setting trace slot calls := by
  obtain ⟨past, length, whole, each⟩ := reaches.exists_past started slot
  obtain ⟨earlier, length', same', accounts⟩ := exists_calls_of_past each
  -- What the slot has done in its last attempt, it has done up to its own outcome, if it has one.
  obtain ⟨result, told, own⟩ : ∃ result, session.Tells execution.setting trace slot result ∧
      ∀ outcome, session.state.outcome? slot = some outcome → result = some outcome ∨
        outcome = .error (execution.setting.timeoutError slot) ∧
          session.state.isOverdue execution.setting slot = true := by
    cases kept : session.state.outcome? slot with
    | none =>
      obtain ⟨result, told⟩ := reaches.exists_tells started slot
      exact ⟨result, told, fun outcome other => nomatch other⟩
    | some outcome =>
      rcases reaches.tells_of_kept started kept with told | late
      · exact ⟨_, told, fun _ again => .inl again⟩
      · obtain ⟨result, told⟩ := reaches.exists_tells started slot
        refine ⟨result, told, fun _ again => ?_⟩
        cases again
        exact .inr late
  obtain ⟨calls, account, same⟩ := ((Setting.hasAccount_slotRoutine slot).does_iff _ _).1 told
  refine ⟨earlier.flatten ++ calls, ?_, earlier, calls, result, rfl, length'.trans length, accounts,
    account, fun outcome kept => (own outcome kept).imp_left ?_⟩
  · rw [whole, ← Multiset.coe_add, same, same', deedsOfCalls_append]
  · rintro rfl
    exact ⟨rfl, (Setting.hasAccount_slotRoutine slot).ended _ _ account⟩

/-- **Functions are invoked within their permissions**, in every session of an execution of every
executable. What each slot has done so far, it has done by calls, nested ones and statements
included, and whichever calls these were, all that has been invoked since the start was invoked by
them, and each of them goes by the permissions of its function: the function is invoked once at most,
with no null and with nothing that is or holds an entity unless it is registered for them, every
entity among the arguments being replaced by its key and nothing else changed; and a null that it is
not registered for makes the value of the call null, unless the call is refused. When a slot has come
to an outcome of its own, all calls of its last attempt have ended, and in the end all requests are
answered. -/
theorem calls_obey {executable : Executable} {options : ExecuteOptions} {history : History}
    (built : executable.graph.IsBuilt) (begun : executable.execute options history = .ok execution)
    (reaches : execution.Reaches trace session) :
    (∀ slot, ∃ calls, session.Calls execution.setting trace slot calls) ∧
    (∀ slot calls, session.Calls execution.setting trace slot calls →
      ∀ call ∈ calls, call.Obeys) ∧
    (∀ calls : ∀ slot, List (session.SlotCall execution.setting slot),
      (∀ slot, session.Calls execution.setting trace slot (calls slot)) →
      ∃ further, session.state.invocations = history.invocations ++ further ∧
        (further : Multiset InvocationRecord) =
          ∑ slot ∈ Finset.range executable.graph.size,
            ((calls slot).map MadeCall.invocations).sum) ∧
    session.Settles execution.setting := by
  have started := started_of_execute built begun
  obtain ⟨same, -, -, -, -, earlier, -⟩ := eq_of_execute begun
  refine ⟨reaches.exists_calls started, fun slot calls _ call _ => call.obeys,
    fun calls made => ⟨_, earlier ▸ reaches.invocations_eq started, ?_⟩, reaches.settles started⟩
  have invoked : invokedBy (trace.deeds : Multiset Deed) =
      (trace.deeds.filterMap Deed.invocation? : List InvocationRecord) :=
    Multiset.filterMap_coe _ _
  have graph : execution.setting.graph = executable.graph := by rw [Setting.graph, same]
  rw [← invoked, reaches.coe_deeds started, graph, invokedBy_sum]
  refine Finset.sum_congr rfl fun slot _ => ?_
  rw [(made slot).deeds_eq, MadeCall.invokedBy_deedsOfCalls]

end Execution

/-! ## A function without permissions -/

/-- A function of one argument that is registered without permissions. -/
def Scope.guarded : Scope where
  catalog := { entries := [
    .ofRegistration none {
      name := "first", kind := .sync fun _ args => ([], .ok (args.headD .null))
      options := { args := some { required := [.any] } } }] }

/-- The function called on a list with an entity in it, on a null, and on one argument too many. -/
def Graph.guarded : Graph where
  slots := [
    .feature "Shops" (.call "first" [.const (.list [.entity ⟨"Shop", "7"⟩, .int 3])]),
    .feature "Nothing" (.call "first" [.const .null]),
    .feature "Refused" (.call "first" [.const .null, .const (.int 1)])]
  edges := [[], [], []]
  cycles := [none, none, none]

/-- An execution of these features. -/
def Execution.guarded : Execution where
  setting := { executable := .ofGraph .guarded .guarded {} }
  state := .initial 3

/-- On the list the function is invoked with the key of the entity, and on the null it is not
invoked. -/
theorem Execution.calls_obey_of_guarded : ∃ (trace : Trace) (session : Session)
    (calls : ∀ slot, List (session.SlotCall Execution.guarded.setting slot)),
    Execution.guarded.Reaches trace session ∧
    (∀ slot, session.Calls Execution.guarded.setting trace slot (calls slot)) ∧
    (∀ slot, ∀ call ∈ calls slot, call.Obeys) ∧
    session.state.outcome? 0 = some (.ok (.list [.text "7", .int 3])) ∧
    session.state.outcome? 1 = some (.ok .null) ∧
    (∑ slot ∈ Finset.range 3, ((calls slot).map MadeCall.invocations).sum) =
      {((none, "first"), [.list [.text "7", .int 3]])} := by
  have made : Graph.ofSlots Graph.guarded.slots = .ok .guarded := by decide +kernel
  have begun : (Executable.ofGraph .guarded .guarded {}).execute {} {} = .ok Execution.guarded :=
    rfl
  have linked := (started_of_execute ⟨_, made⟩ begun).linked
  obtain ⟨trace, threads, reaches, -⟩ := reaches_of_runSide linked .start 1 2 ["Shops", "Nothing"]
  obtain ⟨known, obey, all, -⟩ := calls_obey ⟨_, made⟩ begun reaches
  choose calls known using known
  have shops : (guarded.fetchEach 1 ["Shops", "Nothing"]).2.state.outcome? 0 =
      some (.ok (.list [.text "7", .int 3])) := by decide +kernel
  have nothing : (guarded.fetchEach 1 ["Shops", "Nothing"]).2.state.outcome? 1 =
      some (.ok .null) := by decide +kernel
  have invoked : (guarded.fetchEach 1 ["Shops", "Nothing"]).2.state.invocations =
      [((none, "first"), [.list [.text "7", .int 3]])] := by decide +kernel
  obtain ⟨further, whole, sum⟩ := all calls known
  have single : [((none, "first"), [.list [.text "7", .int 3]])] = further := invoked.symm.trans whole
  exact ⟨_, _, calls, reaches, known, fun slot => obey slot _ (known slot), shops, nothing,
    sum.symm.trans (congrArg _ single.symm)⟩

/-- **The number of arguments is looked at first.** On a null and a further argument the function,
which has no permission for null, is not invoked, but the value of the call is not null either: the
call fails. -/
theorem Execution.fails_despite_null :
    Graph.ofSlots Graph.guarded.slots = .ok .guarded ∧
    (Executable.ofGraph .guarded .guarded {}).execute {} {} = .ok Execution.guarded ∧
    (∃ entry, Execution.guarded.setting.executable.function? "first" = some entry ∧
      entry.allowNull = false) ∧
    Graph.guarded.get? "Refused" =
      some (.feature "Refused" (.call "first" [.const .null, .const (.int 1)])) ∧
    (Execution.guarded.fetchEach 1 ["Refused"]).1 =
      some [.error (.functionFailed "first" ⟨"expected at most 1 arguments, got 2"⟩)] :=
  ⟨by decide +kernel, rfl, ⟨_, rfl, rfl⟩, by decide +kernel, by decide +kernel⟩

end RuleGraph
