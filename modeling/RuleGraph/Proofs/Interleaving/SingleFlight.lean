import RuleGraph.Proofs.Interleaving.Deeds
import RuleGraph.Proofs.Interleaving.Patience

/-! # Single flight

Every slot is computed at most once, whoever asks for it and however often, unless a function drops
what it has fetched; and that bounds how many times a function is invoked.

* **`Executable.callNodes`** — how many calls in a graph are bound to a function.
* **`Execution.Reaches.invocationCount_le`** — a function is invoked at most as many times for every
  time that a computation begins.
* **`Execution.single_flight`** — computations begin once, and again only after something is
  dropped; outcomes stay and answer all later requests; invocations are bounded.
* **`Execution.computed_twice`** — a slot that is computed twice, since a function drops it.
-/

namespace RuleGraph

/-- How many calls in the slots of a graph are bound to a function. -/
def Executable.callNodes (executable : Executable) (function : EntryKey) : Nat :=
  executable.boundCalls function (executable.graph.slots.flatMap Slot.calls)

variable {execution : Execution} {trace : Trace} {session : Session} {slot : Nat}
  {function : EntryKey}

/-- Several attempts invoke a function so many times each. -/
theorem invocationsOf_flatten_le {past : List (List Deed)} {bound : Nat}
    (each : ∀ deeds ∈ past, invocationsOf function deeds ≤ bound) :
    invocationsOf function past.flatten ≤ past.length * bound := by
  induction past with
  | nil => exact Nat.zero_le _
  | cons first rest ih =>
    obtain ⟨here, others⟩ := List.forall_mem_cons.1 each
    rw [List.flatten_cons, ← Multiset.coe_add, invocationsOf_add, List.length_cons, Nat.succ_mul,
      Nat.add_comm]
    exact Nat.add_le_add (ih others) here

/-- The calls in several slots are those in each of them. -/
theorem Executable.callNodes_eq (executable : Executable) :
    executable.callNodes function = ∑ index ∈ Finset.range executable.graph.size,
      executable.boundCalls function ((executable.graph.slots[index]?.map Slot.calls).getD []) := by
  rw [callNodes, Graph.size]
  induction executable.graph.slots with
  | nil => rfl
  | cons slot rest ih =>
    rw [List.flatMap_cons, Setting.boundCalls_append, ih, List.length_cons, Finset.sum_range_succ',
      add_comm]
    rfl

namespace Execution

/-- In what it has done since it last began, a slot has invoked a function at most as many times as
its routine may. -/
theorem Reaches.invocationsOf_attempt_le (started : execution.Started)
    (reaches : execution.Reaches trace session) {bound : Nat}
    (atMost : (execution.setting.slotRoutine slot).InvokesAtMost function bound) :
    invocationsOf function (trace.attempt slot) ≤ bound := by
  obtain ⟨result, told⟩ := reaches.exists_tells started slot
  exact atMost _ _ _ told

/-- Whatever has become of a slot, it has invoked a function at most as many times as its routine
may, for every time that it has begun. -/
theorem Reaches.invocationsOf_deedsOf_le (started : execution.Started)
    (reaches : execution.Reaches trace session) {bound : Nat}
    (atMost : (execution.setting.slotRoutine slot).InvokesAtMost function bound) :
    invocationsOf function (trace.deedsOf slot) ≤ trace.begins.count slot * bound := by
  by_cases begun : slot ∈ trace.begins
  · obtain ⟨past, length, whole, each⟩ := reaches.exists_past started slot
    -- The attempts that were abandoned, and the last one.
    have earlier : invocationsOf function past.flatten ≤ past.length * bound :=
      invocationsOf_flatten_le fun deeds member => atMost _ _ _ (each deeds member)
    have last := reaches.invocationsOf_attempt_le started atMost
    have once := List.count_pos_iff.2 begun
    have times : trace.begins.count slot = past.length + 1 := by omega
    rw [whole, ← Multiset.coe_add, invocationsOf_add, times, Nat.succ_mul]
    exact Nat.add_le_add earlier last
  · rw [reaches.deedsOf_of_not_mem_begins started begun]
    exact Nat.zero_le _

/-- **A function is invoked at most as many times as there are calls bound to it**, for every time
that a computation may begin. -/
theorem Reaches.invocationCount_le (started : execution.Started)
    (reaches : execution.Reaches trace session) {times : Nat}
    (atMost : ∀ slot, trace.begins.count slot ≤ times) (function : EntryKey) :
    session.state.invocationCount function ≤
      execution.state.invocationCount function +
        times * execution.setting.executable.callNodes function := by
  rw [State.invocationCount, reaches.invocations_eq started, List.countP_append,
    ← State.invocationCount, ← invocationsOf_coe, reaches.coe_deeds started, invocationsOf_sum,
    Executable.callNodes_eq, Finset.mul_sum]
  -- Each slot accounts for the invocations that it has made itself.
  refine Nat.add_le_add_left (Finset.sum_le_sum fun slot member => ?_) _
  have bound : slot < execution.setting.graph.slots.length := Finset.mem_range.1 member
  have found := List.getElem?_eq_getElem bound
  have calls : (execution.setting.graph.slots[slot]?.map Slot.calls).getD [] =
      execution.setting.graph.slots[slot].calls := by rw [found]; rfl
  have own := @Setting.invokesAtMost_slotRoutine _ function _ _ found
  rw [← calls] at own
  exact (reaches.invocationsOf_deedsOf_le started own).trans (Nat.mul_le_mul_right _ (atMost slot))

/-- **Single flight.** In every session, whatever the graph and the deadline, and whatever the
functions do that an `Action` can describe: a computation has begun at most once more than functions
have dropped what they had fetched, so at most once if they drop nothing; an outcome that is kept
stays what it is in every session that follows, and there every request for the slot, whoever makes
it, is answered by it; and every function has been invoked at most as many times as there are calls
in the graph bound to it, and as many times again for everything that was dropped. If every function
waits for what it fetches, nothing is dropped, also by requests that the host makes side by side from
then on. Functions that start tasks of their own, or that wait for some of several fetches only, are
not covered. -/
theorem single_flight {executable : Executable} {options : ExecuteOptions} {history : History}
    (built : executable.graph.IsBuilt)
    (begun : executable.execute options history = .ok execution)
    (reaches : execution.Reaches trace session) :
    (∀ slot, trace.begins.count slot ≤ trace.drops + 1) ∧
    (∀ trace' session', Session.Leads execution.setting session trace' session' →
      ∀ slot outcome since, session.state.cell slot = .settled outcome since →
        session'.state.cell slot = .settled outcome since ∧
        (∀ path mark next trace'' thread state,
          Thread.Step execution.setting path (.resting mark (.fetch slot next)) session'.state
            trace'' thread state →
          state = session'.state ∧ ∃ mark', thread = .resting mark' (next outcome)) ∧
        ∀ passes name, execution.setting.graph.indexOf? name = some slot →
          { execution with state := session'.state }.fetch passes name =
            (some outcome, { execution with state := session'.state })) ∧
    (∀ function, session.state.invocationCount function ≤
      execution.state.invocationCount function +
        (trace.drops + 1) * executable.callNodes function) ∧
    (executable.IsPatient → trace.drops = 0 ∧ ∀ passes breadth (names : List String) function,
      ({ execution with state := session.state }.runSide passes breadth
        (names.map execution.setting.fetchNamed)).2.state.invocationCount function ≤
      execution.state.invocationCount function + executable.callNodes function) := by
  have started := started_of_execute built begun
  have same := (eq_of_execute begun).1
  refine ⟨fun slot => (reaches.count_begins_le started slot).1, ?_, fun function => ?_,
    fun patient => ⟨reaches.keepsFetches (same ▸ patient), ?_⟩⟩
  · intro trace' session' leads slot outcome since settled
    have settled' := leads.cell_of_settled started reaches settled
    have known := State.outcome?_eq_some_iff.2 ⟨since, settled'⟩
    refine ⟨settled', fun path mark next trace'' thread state step => ?_,
      fun passes name found => ?_⟩
    · obtain ⟨-, unchanged, again⟩ := step.of_fetch known
      exact ⟨unchanged, again⟩
    · exact @fetch_of_settled { execution with state := session'.state } _ _ _ found known passes
  · rw [← same]
    exact reaches.invocationCount_le started (fun slot => (reaches.count_begins_le started slot).1) _
  · intro passes breadth names function
    -- Requests made side by side lead to another session, in which nothing is dropped either.
    obtain ⟨_, _, later, -⟩ := reaches_of_runSide started.linked reaches passes breadth names
    have keeps := later.keepsFetches (same ▸ patient)
    have once := fun slot => keeps ▸ (later.count_begins_le started slot).1
    have atMost := later.invocationCount_le started once function
    rwa [same, Nat.zero_add, Nat.one_mul] at atMost

/-- The function of the sample fetches nothing. -/
theorem isPatient_sample : sample.setting.executable.IsPatient := by
  intro name entry bound
  simp only [sample, Executable.function?, List.lookup_cons] at bound
  split at bound
  · cases bound
    trivial
  · cases bound

/-- Two requests for the same feature invoke its function once. -/
theorem single_flight_of_two_requests : ∃ trace session, sample.Reaches trace session ∧
    session.state.invocationCount (none, "user") = 1 ∧ trace.drops = 0 ∧
    (∀ slot, trace.begins.count slot ≤ trace.drops + 1) ∧
    session.state.invocationCount (none, "user") ≤
      sample.state.invocationCount (none, "user") +
        (trace.drops + 1) * sample.setting.executable.callNodes (none, "user") := by
  obtain ⟨trace, threads, reaches, -⟩ :=
    reaches_of_runSide isBuilt_sample.linked Reaches.start 1 2 ["User", "User"]
  have once : State.invocationCount
      (sample.runSide 1 2 (["User", "User"].map sample.setting.fetchNamed)).2.state
      (none, "user") = 1 := by decide +kernel
  have all := single_flight isBuilt_sample execute_sample reaches
  exact ⟨trace, _, reaches, once, (all.2.2.2 isPatient_sample).1, all.1, all.2.2.1 (none, "user")⟩

end Execution

/-! ## A slot that is computed twice -/

/-- A function that fetches a feature for one millisecond, and one that takes ten. -/
def Catalog.impatient : Catalog where
  entries := [
    .ofRegistration none {
      name := "glance"
      kind := .async fun _ _ => .fetchWithin 1 "Slow" fun _ => .finish (.ok .null) },
    .ofRegistration none {
      name := "dawdle", kind := .async fun _ _ => .sleep 10 (.finish (.ok .null)) }]

/-- Two features, each the value of one of these functions. -/
def Program.impatient : Program :=
  [.feature "Quick" (.call "glance" []), .feature "Slow" (.call "dawdle" [])]

/-- The graph of these features. -/
def Graph.impatient : Graph where
  slots := [.feature "Quick" (.call "glance" []), .feature "Slow" (.call "dawdle" [])]
  edges := [[], []]
  cycles := [none, none]

/-- An execution of these features. -/
def Execution.impatient : Execution where
  setting := { executable := .ofGraph .impatient ⟨.impatient, none⟩ {} }
  state := .initial 2

namespace Execution

/-- **A slot whose computation is dropped is computed again.** One feature fetches the other for one
millisecond and drops it; when both are requested side by side, the other one begins twice, and its
function is invoked twice, although there is one call of it. -/
theorem computed_twice :
    compile? ⟨.impatient, none⟩ 10 1 .impatient = .ok (some .impatient) ∧
    (Executable.ofGraph .impatient ⟨.impatient, none⟩ {}).execute {} {} = .ok impatient ∧
    ∃ trace session, impatient.Reaches trace session ∧ session.IsQuiet ∧ ¬trace.begins.Nodup ∧
      session.state.invocationCount (none, "dawdle") = 2 ∧
      impatient.setting.executable.callNodes (none, "dawdle") = 1 := by
  have compiled : compile? ⟨.impatient, none⟩ 10 1 .impatient = .ok (some .impatient) := by
    decide +kernel
  have begun : (Executable.ofGraph .impatient ⟨.impatient, none⟩ {}).execute {} {} =
      .ok impatient := rfl
  have started := started_of_execute (isCompiled_of_compile? compiled).built begun
  obtain ⟨trace, threads, reaches, ended⟩ :=
    reaches_of_runSide started.linked Reaches.start 5 2 ["Quick", "Slow"]
  have twice : State.invocationCount
      (impatient.runSide 5 2 (["Quick", "Slow"].map impatient.setting.fetchNamed)).2.state
      (none, "dawdle") = 2 := by decide +kernel
  have calls : impatient.setting.executable.callNodes (none, "dawdle") = 1 := by decide +kernel
  refine ⟨compiled, begun, trace, _, reaches, ?_, fun nodup => ?_, twice, calls⟩
  · have all : (impatient.runSide 5 2
        (["Quick", "Slow"].map impatient.setting.fetchNamed)).1.isSome := by decide +kernel
    obtain ⟨outcomes, same⟩ := Option.isSome_iff_exists.1 all
    exact ⟨outcomes, by rw [← same]; exact ended.symm⟩
  · -- Had every computation begun once, so would the call.
    have once := reaches.invocationCount_le started (List.nodup_iff_count_le_one.1 nodup)
      (none, "dawdle")
    rw [calls] at once
    exact absurd (twice ▸ once) (by decide +kernel)

end Execution

end RuleGraph
