import RuleGraph.Proofs.Interleaving.Request
import Mathlib.Algebra.Order.BigOperators.Group.Finset

/-! # What a session has done

All that others see of a session is done by its slots: the functions invoked and the errors reported
are those of their deeds.

* **`Deed.invocation?`**, **`Deed.report?`** — what a deed says to others.
* **`Trace.coe_deeds`** — all deeds are those of all slots.
* **`Execution.Reaches.exists_past`** — a slot has done what its attempts have done.
* **`Execution.Reaches.attempt_eq_deedsOf`** — if nothing is dropped, there is one attempt.
* **`Execution.Reaches.invocations_eq`** — the functions invoked are those of the deeds.
* **`Execution.Reaches.reported_eq`** — the errors reported by deeds are all recorded.
-/

namespace RuleGraph

/-- The invocation that a deed is, if it is one. -/
def Deed.invocation? : Deed → Option InvocationRecord
  | .invoke function args => some (function, args)
  | .perform _ => none

/-- The error that a deed reports, if it reports one. -/
def Deed.report? : Deed → Option RecordedError
  | .perform (.report message props) => some ⟨message, props.functionName, props.isFatal⟩
  | _ => none

/-- The errors that deeds report. -/
def reportsOf (deeds : Multiset Deed) : Multiset RecordedError :=
  deeds.filterMap Deed.report?

variable {setting : Setting} {execution : Execution} {trace : Trace} {session : Session}
  {state : State} {slot : Nat} {function : EntryKey} {deed : Deed}

/-- Reports add up. -/
@[simp] theorem reportsOf_add {deeds deeds' : Multiset Deed} :
    reportsOf (deeds + deeds') = reportsOf deeds + reportsOf deeds' :=
  Multiset.filterMap_add _ _ _

/-- The invocations of a function among several deeds. -/
theorem invocationsOf_coe {deeds : List Deed} :
    invocationsOf function deeds =
      (deeds.filterMap Deed.invocation?).countP fun record => record.1 = function := by
  rw [invocationsOf, Multiset.coe_countP]
  induction deeds with
  | nil => rfl
  | cons deed rest ih =>
    cases deed with
    | perform effect =>
      rw [List.countP_cons_of_neg (by simp [Deed.invokes])]
      exact ih
    | invoke other args => simpa [List.countP_cons, Deed.invokes, Deed.invocation?] using ih

/-- **All deeds are those of all slots.** -/
theorem Trace.coe_deeds {size : Nat} (inside : ∀ slot, size ≤ slot → trace.deedsOf slot = []) :
    (trace.deeds : Multiset Deed) =
      ∑ slot ∈ Finset.range size, (trace.deedsOf slot : Multiset Deed) := by
  induction trace with
  | nil => simp [deeds]
  | cons occurrence rest ih =>
    cases occurrence with
    | begun | dropped => exact ih inside
    | did other deed =>
      have whole : deeds (.did other deed :: rest) = deed :: deeds rest := rfl
      -- The first deed is that of one slot and of no other.
      have part : ∀ slot, (deedsOf (.did other deed :: rest) slot : Multiset Deed) =
          (if slot = other then {deed} else 0) + (deedsOf rest slot : Multiset Deed) := by
        intro slot
        by_cases same : slot = other
        · simp [deedsOf, same, ← Multiset.cons_coe]
        · simp [deedsOf, same, Ne.symm same]
      have bound : other < size := by
        by_contra beyond
        -- A slot beyond all others would have done something.
        have none := inside other (Nat.le_of_not_lt beyond)
        simp [deedsOf] at none
      have rest_inside : ∀ slot, size ≤ slot → deedsOf rest slot = [] := by
        intro slot beyond
        have none := congrArg (fun deeds : List Deed => (deeds : Multiset Deed))
          (inside slot beyond)
        simp only [part] at none
        simpa using (add_eq_zero.1 none).2
      simp only [part, Finset.sum_add_distrib]
      rw [whole, ← ih rest_inside, Finset.sum_ite_eq', if_pos (Finset.mem_range.2 bound),
        ← Multiset.cons_coe, Multiset.singleton_add]

/-- The invocations of a function among the deeds of several slots. -/
theorem invocationsOf_sum {size : Nat} {deeds : Nat → Multiset Deed} :
    invocationsOf function (∑ slot ∈ Finset.range size, deeds slot) =
      ∑ slot ∈ Finset.range size, invocationsOf function (deeds slot) :=
  map_sum (Multiset.countPAddMonoidHom fun deed : Deed => deed.invokes function = true) _ _

/-- The errors that the deeds of several slots report. -/
theorem reportsOf_sum {size : Nat} {deeds : Nat → Multiset Deed} :
    reportsOf (∑ slot ∈ Finset.range size, deeds slot) =
      ∑ slot ∈ Finset.range size, reportsOf (deeds slot) :=
  map_sum (⟨⟨reportsOf, rfl⟩, fun _ _ => reportsOf_add⟩ :
    Multiset Deed →+ Multiset RecordedError) _ _

/-- With a manipulator, a deed reports what it says. -/
theorem State.reported_act (given : state.manipulator.isSome) :
    (state.act setting deed).reported = state.reported ++ deed.report?.toList ∧
      (state.act setting deed).manipulator.isSome := by
  obtain ⟨manipulator, same⟩ := Option.isSome_iff_exists.1 given
  cases deed with
  | invoke => exact ⟨(List.append_nil _).symm, given⟩
  | perform effect =>
    cases effect <;>
      simp [act, State.perform, State.log, happen, changeManipulator, reported, same, Deed.report?,
        Manipulator.queue, Manipulator.track, Manipulator.report]

namespace Execution

/-- Whatever has become of a slot, since it last began it has done what its routine does up to
somewhere. -/
theorem Reaches.exists_tells (started : execution.Started)
    (reaches : execution.Reaches trace session) (slot : Nat) :
    ∃ result, session.Tells execution.setting trace slot result := by
  cases reaches.story started slot with
  | untouched _ fresh quiet =>
    refine ⟨none, ?_⟩
    rw [Session.Tells, Trace.attempt_of_not_mem_begins fresh, quiet]
    exact .abandoned
  | abandoned _ told | settled _ told | late _ _ told => exact ⟨_, told⟩
  | computing busy left =>
    -- Its computation stands somewhere, and might be abandoned where it stands.
    obtain ⟨body, holds⟩ := (reaches.isBalanced started).exists_holds busy
    have told := left body holds _ (fun _ _ replies => replies) 0 none .abandoned
    rw [add_zero] at told
    exact ⟨none, told⟩

/-- **All that a slot has done**, it has done since it last began or in earlier attempts, each of which
was abandoned: there its routine went up to somewhere as well. -/
theorem Reaches.exists_past (started : execution.Started)
    (reaches : execution.Reaches trace session) (slot : Nat) :
    ∃ past : List (List Deed), past.length = trace.begins.count slot - 1 ∧
      trace.deedsOf slot = past.flatten ++ trace.attempt slot ∧
      ∀ deeds ∈ past, (execution.setting.slotRoutine slot).Does
        (session.state.Replies execution.setting (some slot)) deeds none := by
  induction reaches with
  | start => exact ⟨[], rfl, rfl, by simp⟩
  | @step trace trace' session session' before last ih =>
    obtain ⟨past, length, whole, each⟩ := ih
    have kept := before.outcome?_of_step started last
    have more : ∀ index outcome,
        session.state.Replies execution.setting (some slot) index outcome →
        session'.state.Replies execution.setting (some slot) index outcome :=
      fun _ _ replies => replies.mono kept
    have later := fun deeds member => (each deeds member).mono more
    by_cases new : slot ∈ trace'.begins
    · cases last with
      | call | meanwhile => cases new
      | go step =>
        obtain ⟨rfl, ⟨since, idle⟩, -⟩ := (before.fate started step slot).of_mem_begins new
        simp only [Trace.begins_append, Trace.begins_begun, List.count_append,
          List.count_singleton_self, Nat.add_sub_cancel, Trace.deedsOf_append, Trace.deedsOf_begun,
          List.append_nil, Trace.attempt_begun]
        by_cases old : slot ∈ trace.begins
        -- What was the last attempt so far is an earlier one now.
        · have positive := List.count_pos_iff.2 old
          have told := (before.story started slot).tells_none (before.isBalanced started)
            (.inl ⟨since, idle⟩)
          refine ⟨past ++ [trace.attempt slot], ?_, by simp [whole], ?_⟩
          · rw [List.length_append, length, List.length_singleton]
            omega
          · rw [List.forall_mem_append, List.forall_mem_singleton]
            exact ⟨later, Routine.Does.mono more told⟩
        -- There was none so far.
        · rw [before.deedsOf_of_not_mem_begins started old, List.count_eq_zero_of_not_mem old]
          exact ⟨[], rfl, rfl, by simp⟩
    · refine ⟨past, ?_, ?_, later⟩
      · rw [Trace.begins_append, List.count_append, List.count_eq_zero_of_not_mem new, length]
        rfl
      · rw [Trace.deedsOf_append, Trace.attempt_append new, whole, List.append_assoc]

/-- **As long as nothing is dropped, all that a slot has done belongs to one attempt.** -/
theorem Reaches.attempt_eq_deedsOf (started : execution.Started)
    (reaches : execution.Reaches trace session) (keeps : trace.KeepsFetches) (slot : Nat) :
    trace.attempt slot = trace.deedsOf slot := by
  obtain ⟨past, length, whole, -⟩ := reaches.exists_past started slot
  have atMost := (reaches.count_begins_le started slot).1
  -- There is no earlier attempt.
  rw [Trace.KeepsFetches] at keeps
  have none : past = [] := List.length_eq_zero_iff.1 (by omega)
  rw [whole, none]
  rfl

/-- Whatever a slot has done, it has done in some attempt. -/
theorem Reaches.exists_does_of_mem (started : execution.Started)
    (reaches : execution.Reaches trace session) (done : deed ∈ trace.deedsOf slot) :
    ∃ (deeds : List Deed) (result : Option Outcome), deed ∈ deeds ∧
      (execution.setting.slotRoutine slot).Does
        (session.state.Replies execution.setting (some slot)) deeds result := by
  obtain ⟨past, -, whole, each⟩ := reaches.exists_past started slot
  rw [whole, List.mem_append, List.mem_flatten] at done
  rcases done with ⟨deeds, member, inside⟩ | last
  · exact ⟨deeds, none, inside, each deeds member⟩
  · obtain ⟨result, told⟩ := reaches.exists_tells started slot
    exact ⟨_, result, last, told⟩

/-- A slot that is not there does nothing. -/
theorem Reaches.deedsOf_eq_nil (started : execution.Started)
    (reaches : execution.Reaches trace session) (beyond : execution.setting.graph.size ≤ slot) :
    trace.deedsOf slot = [] := by
  induction reaches with
  | start => rfl
  | step before last ih =>
    rw [Trace.deedsOf_append, ih, List.nil_append]
    cases last with
    | call | meanwhile => rfl
    | go step =>
      by_contra done
      -- Only what is computed does anything.
      obtain ⟨body, holds⟩ := holds_of_deedsOf _ step done
      have bound := (Session.fits_requests (before.fits started.linked)).of_holds holds
      exact absurd bound.1 (Nat.not_lt.2 beyond)

/-- What all slots have done together. -/
theorem Reaches.coe_deeds (started : execution.Started)
    (reaches : execution.Reaches trace session) :
    (trace.deeds : Multiset Deed) =
      ∑ slot ∈ Finset.range execution.setting.graph.size, (trace.deedsOf slot : Multiset Deed) :=
  Trace.coe_deeds fun _ beyond => reaches.deedsOf_eq_nil started beyond

/-- What one of the requests does in a step. -/
theorem Reaches.acts (started : execution.Started) (reaches : execution.Reaches trace session)
    {trace' : Trace} {threads : List Thread} {state' : State}
    (step : Thread.SideStep execution.setting [] session.threads session.state trace' threads
      state') :
    (∃ deed, trace'.deeds = [deed] ∧ state' = session.state.act execution.setting deed) ∨
      trace'.deeds = [] ∧ state'.Unseen session.state := by
  have requests := reaches.isRequest started
  obtain ⟨names, threads, state⟩ := session
  obtain ⟨step⟩ := step
  obtain ⟨name, -, isRequest⟩ :=
    exists_mem_of_forall₂ requests (List.mem_append_right _ List.mem_cons_self)
  exact step.acts (.inr isRequest)

/-- **The functions invoked are those invoked before, and those that the slots have invoked.** -/
theorem Reaches.invocations_eq (started : execution.Started)
    (reaches : execution.Reaches trace session) :
    session.state.invocations =
      execution.state.invocations ++ trace.deeds.filterMap Deed.invocation? := by
  induction reaches with
  | start => exact (List.append_nil _).symm
  | step before last ih =>
    cases last with
    | call => simpa using ih
    | meanwhile other => simpa [other.invocations] using ih
    | go step =>
      rw [Trace.deeds_append, List.filterMap_append, ← List.append_assoc, ← ih]
      rcases before.acts started step with ⟨deed, done, rfl⟩ | ⟨quiet, unseen⟩
      · rw [done]
        cases deed with
        | invoke => rfl
        | perform effect => cases effect <;> exact (List.append_nil _).symm
      · rw [quiet]
        exact unseen.invocations.trans (List.append_nil _).symm

/-- **Every error that a slot has reported is recorded**, once for every time, behind those recorded
before. What else is recorded comes from deferred actions. -/
theorem Reaches.reported_eq (started : execution.Started)
    (given : execution.state.manipulator.isSome) (reaches : execution.Reaches trace session) :
    session.state.manipulator.isSome ∧ ∃ recorded,
      session.state.reported = execution.state.reported ++ recorded ∧
      (trace.deeds.filterMap Deed.report?).Sublist recorded := by
  induction reaches with
  | start => exact ⟨given, [], (List.append_nil _).symm, .slnil⟩
  | step before last ih =>
    obtain ⟨given', recorded, same, sub⟩ := ih
    cases last with
    | call => exact ⟨given', recorded, same, by simpa using sub⟩
    | meanwhile other =>
      -- Deferred actions and the host may record errors besides.
      obtain ⟨further, grown⟩ := other.reported
      refine ⟨other.manipulator ▸ given', recorded ++ further, ?_, ?_⟩
      · rw [← grown, same, List.append_assoc]
      · simpa using sub.trans (List.sublist_append_left recorded further)
    | go step =>
      rw [Trace.deeds_append, List.filterMap_append]
      rcases before.acts started step with ⟨deed, done, rfl⟩ | ⟨quiet, unseen⟩
      · obtain ⟨reported, given''⟩ := @State.reported_act execution.setting _ deed given'
        refine ⟨given'', recorded ++ deed.report?.toList, ?_, ?_⟩
        · rw [reported, same, List.append_assoc]
        · have single : [deed].filterMap Deed.report? = deed.report?.toList := by
            cases said : deed.report? <;> simp [said]
          rw [done, single]
          exact sub.append (.refl _)
      · refine ⟨unseen.manipulator ▸ given', recorded, ?_, ?_⟩
        · rw [State.reported, unseen.manipulator, ← State.reported, same]
        · simpa [quiet] using sub

end Execution

end RuleGraph
