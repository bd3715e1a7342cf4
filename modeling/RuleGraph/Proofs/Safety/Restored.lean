import RuleGraph.Proofs.Blob.Refusals
import RuleGraph.Proofs.Interleaving.Deeds
import RuleGraph.Proofs.Interleaving.Outcomes
import RuleGraph.Proofs.Routine.Bound
import RuleGraph.Proofs.Safety.Compiled

/-! # Restored graphs call what was checked

A blob is accepted if all calls in its graph name functions that may be called there. The functions
are bound by the same names, and what runs is what is bound: in no execution is a function unknown
or its number of arguments wrong, however the slots are written and in whichever order they are
fetched.

* **`Setting.isBound_of_isCallable`** — the calls of a callable slot are bound.
* **`Catalog.exists_of_restore`** — what is restored from a blob.
* **`Setting.Dispatched`** — outcomes to which no call was refused.
* **`Execution.Reaches.dispatched_of_kept`** — all kept outcomes are such.
* **`Execution.Reaches.exists_dispatches`** — every function that is invoked was called properly.
* **`Execution.calls_dispatched`** — so it is in every execution of what is restored from a blob.
-/

namespace RuleGraph

namespace Setting

variable {setting : Setting} {graph : Graph} {scope : Scope} {config : EngineConfig} {slot : Slot}

/-- A call that was checked is bound to the function that was checked. -/
theorem ready_of_provides {kind : Entry → Prop} {call : String × Nat}
    (fixed : setting.executable = .ofGraph graph scope config)
    (called : call.1 ∈ Executable.calledNames graph) (provides : scope.Provides kind call) :
    setting.Ready kind call := by
  obtain ⟨entry, found, isKind, takes⟩ := provides
  refine ⟨entry, ?_, isKind, Entry.arityError?_eq_none_iff.2 takes⟩
  rw [fixed]
  exact Executable.function?_ofGraph called found

/-- **The calls of a callable slot are bound**: what is checked, what is bound and what runs are the
same calls in the same positions. -/
theorem isBound_of_isCallable (fixed : setting.executable = .ofGraph graph scope config)
    (member : slot ∈ graph.slots) (callable : slot.IsCallable scope) : setting.IsBound slot := by
  -- Whichever way a call stands in the slot, its name is one that the graph calls.
  have called : ∀ call ∈ slot.calls, call.1 ∈ Executable.calledNames graph := by
    intro call inside
    obtain ⟨body, listed, called⟩ := List.mem_flatMap.1 inside
    exact Executable.mem_calledNames member listed called
  constructor
  · intro call wanted
    refine ready_of_provides fixed (called call (Slot.mem_calls_iff.2 (.inl wanted))) ?_
    unfold Slot.CallsValue at wanted
    unfold Slot.IsCallable at callable
    cases kind : slot.kind with
    | input | group =>
      rw [kind] at wanted
      exact wanted.elim
    | feature body =>
      rw [kind] at wanted callable
      exact callable call wanted
    | statement feature condition body =>
      rw [kind] at wanted callable
      obtain ⟨guards, inner⟩ := callable
      rcases wanted with ⟨guard, same, inside⟩ | inside
      · exact guards guard same call inside
      · cases body with
        | call function args =>
          obtain ⟨arg, listed, inside⟩ := inside
          exact inner.2 arg listed call inside
        | const | feature | list => exact inner call inside
  · intro call own
    refine ready_of_provides fixed (called call (Slot.mem_calls_iff.2 (.inr own))) ?_
    unfold Slot.CallsStatement at own
    unfold Slot.IsCallable at callable
    cases kind : slot.kind with
    | input | group | feature =>
      rw [kind] at own
      exact own.elim
    | statement feature condition body =>
      rw [kind] at own callable
      cases body with
      | const | feature | list => exact own.elim
      | call function args =>
        cases own
        obtain ⟨entry, found, isStatement, takes⟩ := callable.2.1
        exact ⟨entry, found, Entry.isStatement_iff.1 isStatement, takes⟩

/-- An outcome to which no call was refused: no function was unknown, and a function that failed has
raised the error itself. -/
def Dispatched (setting : Setting) : Outcome → Prop
  | .error (.unknownFunction _) => False
  | .error (.functionFailed name source) => ∃ called entry,
    setting.executable.function? called = some entry ∧ entry.qualifiedName = name ∧
      setting.Raises entry source
  | _ => True

/-- Bound calls end in such outcomes. -/
theorem admits_dispatched : setting.Admits setting.Dispatched where
  value _ := trivial
  failed bound raises := ⟨_, _, bound, rfl, raises⟩
  unhandled _ _ := trivial

/-- **Computing a slot whose calls are bound ends in such an outcome**, if its fetches do. -/
theorem endsIn_slotRoutine_dispatched {reply : Nat → Outcome → Prop} {index : Nat}
    (bound : ∀ slot ∈ setting.graph.slots, setting.IsBound slot)
    (replies : ∀ target outcome, reply target outcome → setting.Dispatched outcome) :
    (setting.slotRoutine index).EndsIn reply setting.Dispatched := by
  -- A fetch by name is answered by the slot, or by saying that there is none.
  have answers : ∀ names, setting.AnswersIn reply setting.Dispatched names := by
    intro names name _
    rw [fetchNamed]
    split
    · exact .fetch fun outcome told => .done (replies _ outcome told)
    · exact .done trivial
  cases found : setting.graph.slots[index]? with
  | none =>
    rw [slotRoutine, found]
    exact .done trivial
  | some slot =>
    exact endsIn_slotRoutine_of_isBound admits_dispatched found
      (bound slot (List.mem_of_getElem? found)) (answers _) (fun _ _ => answers _)
      fun dep _ outcome told => replies dep outcome told

end Setting

/-- A blob that is decoded is restored. -/
theorem Catalog.restore_of_decode {catalog : Catalog} {package : Option String} {bytes : Bytes}
    {graph : Graph} (decoded : Blob.decode ⟨catalog, package⟩ bytes = .ok graph) :
    catalog.restore package bytes =
      (catalog.endRegistration, .ok (.ofGraph graph ⟨catalog, package⟩ {})) := by
  rw [restore, decoded]
  rfl

/-- What is restored from a blob: the graph that was decoded and checked, bound in the scope in
which it was checked. -/
theorem Catalog.exists_of_restore {catalog catalog' : Catalog} {package : Option String}
    {bytes : Bytes} {executable : Executable}
    (restored : catalog.restore package bytes = (catalog', .ok executable)) :
    ∃ graph, Blob.decode ⟨catalog, package⟩ bytes = .ok graph ∧ graph.IsBuilt ∧
      (∀ slot ∈ graph.slots, slot.IsCallable ⟨catalog, package⟩) ∧
      executable = .ofGraph graph ⟨catalog, package⟩ {} := by
  unfold restore at restored
  cases decoded : Blob.decode ⟨catalog, package⟩ bytes with
  | error error =>
    rw [decoded] at restored
    cases restored
  | ok graph =>
    rw [decoded] at restored
    cases restored
    obtain ⟨data, -, rest⟩ := bind_eq_ok_iff.1 decoded
    split at rest
    · cases rest
    · rename_i payload _ _
      have made := ofSlots_of_link rest
      have linked := Graph.linked_of_ofSlots made
      refine ⟨graph, rfl, ⟨_, made⟩, ?_, rfl⟩
      rcases @Blob.link_cases ⟨catalog, package⟩ _ _ made with ⟨-, _, refused, -⟩ | ⟨checked, -⟩
      · rw [rest] at refused
        cases refused
      · rw [linked.1]
        exact checked.2

namespace Execution

variable {execution : Execution} {trace : Trace} {session : Session} {index : Nat} {name : String}
  {outcome : Outcome}

section

variable (started : execution.Started)
  (bound : ∀ slot ∈ execution.setting.graph.slots, execution.setting.IsBound slot)
include started bound

/-- **To no kept outcome was a call refused**, in every session. -/
theorem Reaches.dispatched_of_kept (reaches : execution.Reaches trace session)
    (kept : session.state.outcome? index = some outcome) :
    execution.setting.Dispatched outcome :=
  reaches.forall_kept started (fun _ => trivial) (fun _ => trivial)
    (fun _ _ replies => Setting.endsIn_slotRoutine_dispatched bound replies) kept

/-- Nor to what a request is answered with. -/
theorem Reaches.dispatched_of_answers (reaches : execution.Reaches trace session)
    (answers : session.state.Answers execution.setting name outcome) :
    execution.setting.Dispatched outcome := by
  rw [State.Answers] at answers
  split at answers
  · rcases answers with kept | ⟨names, rfl, -⟩
    · exact reaches.dispatched_of_kept started bound kept
    · exact trivial
  · cases answers
    exact trivial

/-- **Every function that a slot has invoked, it was to call**, where it is called. -/
theorem Reaches.dispatches_of_deedsOf (reaches : execution.Reaches trace session) {slot : Slot}
    (found : execution.setting.graph.slots[index]? = some slot) {function : EntryKey}
    {args : List Value} (invoked : .invoke function args ∈ trace.deedsOf index) :
    execution.setting.Dispatches slot function := by
  obtain ⟨deeds, result, inside, does⟩ := reaches.exists_does_of_mem started invoked
  exact Setting.dispatches_of_invokes found (bound slot (List.mem_of_getElem? found)) does
    (Multiset.mem_coe.2 inside)

/-- **Every function that is invoked, some slot was to call**, where it is called. -/
theorem Reaches.exists_dispatches (reaches : execution.Reaches trace session) :
    ∃ further, session.state.invocations = execution.state.invocations ++ further ∧
      ∀ record ∈ further, ∃ slot ∈ execution.setting.graph.slots,
        execution.setting.Dispatches slot record.1 := by
  refine ⟨_, reaches.invocations_eq started, fun record member => ?_⟩
  obtain ⟨deed, done, same⟩ := List.mem_filterMap.1 member
  cases deed with
  | perform => cases same
  | invoke function args =>
    cases same
    -- It was done by some slot of the graph.
    have all : Deed.invoke function args ∈ (trace.deeds : Multiset Deed) := Multiset.mem_coe.2 done
    rw [reaches.coe_deeds started, Multiset.mem_sum] at all
    obtain ⟨index, inside, own⟩ := all
    have place : index < execution.setting.graph.slots.length := Finset.mem_range.1 inside
    exact ⟨_, List.getElem_mem place, reaches.dispatches_of_deedsOf started bound
      (List.getElem?_eq_getElem place) (Multiset.mem_coe.1 own)⟩

end

/-- **Blobs are checked soundly for calls.** Whatever graph is restored from a blob, with whatever
defaults it is started, and in whichever order and number requests and steps follow: every call of
its slots is bound to a function that takes so many arguments, one that computes values where a
value is wanted and a statement where a statement stands. So no kept outcome and no answer, also to
further requests and to running the statements, says that a function is unknown or that a call was
refused for its arguments, and whatever is invoked is a function that a slot calls there. -/
theorem calls_dispatched {catalog catalog' : Catalog} {package : Option String}
    {bytes : Bytes} {executable : Executable} {config : EngineConfig}
    {options : ExecuteOptions} {history : History}
    (restored : catalog.restore package bytes = (catalog', .ok executable))
    (begun : { executable with config := config }.execute options history = .ok execution)
    (reaches : execution.Reaches trace session) :
    (∀ slot ∈ executable.graph.slots, execution.setting.IsBound slot) ∧
    (∀ index outcome, session.state.outcome? index = some outcome →
      execution.setting.Dispatched outcome) ∧
    (∀ outcome, .finished outcome ∈ session.threads → execution.setting.Dispatched outcome) ∧
    (∀ (index : Nat) slot function args, executable.graph.slots[index]? = some slot →
      .invoke function args ∈ trace.deedsOf index → execution.setting.Dispatches slot function) ∧
    (∃ further, session.state.invocations = history.invocations ++ further ∧
      ∀ record ∈ further, ∃ slot ∈ executable.graph.slots,
        execution.setting.Dispatches slot record.1) ∧
    session.Settles execution.setting ∧
    (session.IsQuiet →
      (∀ names, ∃ enough outcomes trace' session', execution.Reaches (trace ++ trace') session' ∧
        session'.IsQuiet ∧ outcomes.length = names.length ∧
        (∀ outcome ∈ outcomes, execution.setting.Dispatched outcome) ∧
        ∀ passes, enough ≤ passes →
          { execution with state := session.state }.fetchEach passes names =
            (some outcomes, { execution with state := session'.state })) ∧
      ∃ enough result trace' session', execution.Reaches (trace ++ trace') session' ∧
        session'.IsQuiet ∧
        (∀ error, result = .error error → execution.setting.Dispatched (.error error)) ∧
        ∀ passes, enough ≤ passes →
          { execution with state := session.state }.runStatements passes =
            (some result, { execution with state := session'.state })) := by
  obtain ⟨graph, -, built, callable, rfl⟩ := Catalog.exists_of_restore restored
  obtain ⟨fixed, -, -, -, -, earlier, -⟩ := eq_of_execute begun
  have started := started_of_execute built begun
  have isGraph : execution.setting.graph = graph := by
    rw [Setting.graph, fixed]
    rfl
  have bound : ∀ slot ∈ graph.slots, execution.setting.IsBound slot := fun slot member =>
    Setting.isBound_of_isCallable fixed member (callable slot member)
  have bound' : ∀ slot ∈ execution.setting.graph.slots, execution.setting.IsBound slot := by
    rwa [isGraph]
  refine ⟨bound, fun index outcome kept => reaches.dispatched_of_kept started bound' kept, ?_, ?_,
    ?_, reaches.settles started, fun quiet => ⟨fun names => ?_, ?_⟩⟩
  · intro outcome member
    obtain ⟨name, -, isRequest⟩ := exists_mem_of_forall₂ (reaches.isRequest started) member
    cases isRequest with
    | finished answers => exact reaches.dispatched_of_answers started bound' answers
  · intro index slot function args found invoked
    exact reaches.dispatches_of_deedsOf started bound' (isGraph ▸ found) invoked
  · have further := reaches.exists_dispatches started bound'
    rwa [earlier, isGraph] at further
  · obtain ⟨enough, outcomes, trace', session', later, still, answers, done⟩ :=
      reaches.fetchEach_answers started quiet names
    refine ⟨enough, outcomes, trace', session', later, still, answers.length_eq.symm, ?_, done⟩
    intro outcome member
    obtain ⟨name, -, answer⟩ := exists_mem_of_forall₂ answers member
    exact later.dispatched_of_answers started bound' answer
  · obtain ⟨enough, result, trace', session', later, still, fails, done⟩ :=
      reaches.runStatements_fails started quiet
    refine ⟨enough, result, trace', session', later, still, fun error failed => ?_, done⟩
    obtain ⟨group, -, answer⟩ := fails error failed
    exact later.dispatched_of_answers started bound' answer

/-- Restored from its blob and started with a manipulator, the rule that holds large orders has its
calls bound, and its statement and its feature are requested side by side without a refusal. -/
theorem calls_dispatched_of_orders : ∃ bytes catalog' executable execution,
    Scope.orders.catalog.restore none bytes = (catalog', .ok executable) ∧
    ({ executable with config := {} } : Executable).execute { manipulator := some {} } {} =
      .ok execution ∧
    (∀ slot ∈ Slot.orders, execution.setting.IsBound slot) ∧
    ∃ enough outcomes, outcomes.length = 2 ∧
      (∀ outcome ∈ outcomes, execution.setting.Dispatched outcome) ∧
      ∀ passes, enough ≤ passes →
        (execution.fetchEach passes ["Holds", "Large"]).1 = some outcomes := by
  obtain ⟨graph, built⟩ : ∃ graph, Graph.ofSlots Slot.orders = .ok graph := ⟨_, rfl⟩
  obtain ⟨same, -⟩ := Graph.linked_of_ofSlots built
  have acyclic : graph.isAcyclic = true := by
    cases built
    decide +kernel
  have callable : ∀ slot ∈ graph.slots, slot.IsCallable .orders := by
    rw [same]
    intro slot member
    apply Blob.checkSlot_eq_ok_iff.1
    revert slot
    decide +kernel
  have fits : (Blob.payloadOf graph none).write.length < 2 ^ 32 := by
    cases built
    decide +kernel
  obtain ⟨bytes, encoded⟩ : ∃ bytes, Blob.encode graph none = .ok bytes := ⟨_, if_pos fits⟩
  have restored := Catalog.restore_of_decode ((Blob.decode_eq_link encoded .orders).trans
    (Blob.link_payloadOf (same ▸ built) acyclic callable))
  have begun : ({ Executable.ofGraph graph .orders {} with config := {} } : Executable).execute
      { manipulator := some {} } {} = .ok _ := rfl
  obtain ⟨bound, -, -, -, -, -, further⟩ := calls_dispatched restored begun .start
  obtain ⟨enough, outcomes, _, _, -, -, length, dispatched, done⟩ :=
    (further ⟨[], rfl⟩).1 ["Holds", "Large"]
  exact ⟨_, _, _, _, restored, begun, same ▸ bound, enough, outcomes, length, dispatched,
    fun passes more => congrArg Prod.fst (done passes more)⟩

end Execution

end RuleGraph
