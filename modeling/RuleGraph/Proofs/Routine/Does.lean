import RuleGraph.Proofs.Routine.Fetches
import Mathlib.Algebra.Order.Group.Multiset
import Mathlib.Algebra.BigOperators.Group.List.Basic
import Mathlib.Algebra.Order.Ring.Nat

/-! # What routines do

What a routine does up to its end, or up to where it is abandoned, given what its fetches are
answered with. Routines side by side do what each of them does, in no particular order.

* **`Deed`** — what the computation of a slot does and others can tell.
* **`Routine.Does`** — the deeds of a routine, and the outcome with which it ends, if it does.
* **`Routine.InvokesAtMost`** — a bound on how many times a routine invokes a function.
* **`Setting.invokesAtMost_slotRoutine`** — the computation of a slot invokes a function at most as
  many times as the slot has calls bound to it.
-/

namespace RuleGraph

/-- Something that the computation of a slot does and that others can tell. -/
inductive Deed where
  /-- It has an effect. -/
  | perform (effect : Effect)
  /-- It invokes a function. -/
  | invoke (function : EntryKey) (args : List Value)

namespace Routine

mutual

/-- What a routine does, and the outcome with which it ends; none if it is abandoned before. -/
inductive Does (reply : Nat → Outcome → Prop) :
    Routine → Multiset Deed → Option Outcome → Prop where
  /-- It is abandoned. -/
  | abandoned {routine} : Does reply routine 0 none
  /-- It ends. -/
  | done {outcome} : Does reply (.done outcome) 0 (some outcome)
  /-- It has an effect. -/
  | perform {effect next deeds result} (rest : Does reply next deeds result) :
    Does reply (.perform effect next) (.perform effect ::ₘ deeds) result
  /-- It invokes a function. -/
  | invoke {function args next ordinal deeds result}
    (rest : Does reply (next ordinal) deeds result) :
    Does reply (.invoke function args next) (.invoke function args ::ₘ deeds) result
  /-- It lets others go first. -/
  | pause {next deeds result} (rest : Does reply next deeds result) :
    Does reply (.pause next) deeds result
  /-- It sleeps. -/
  | sleep {milliseconds next deeds result} (rest : Does reply next deeds result) :
    Does reply (.sleep milliseconds next) deeds result
  /-- It fetches a slot and is answered. -/
  | fetch {index next outcome deeds result} (told : reply index outcome)
    (rest : Does reply (next outcome) deeds result) : Does reply (.fetch index next) deeds result
  /-- It runs another one, to its end or until that is abandoned, and goes on. -/
  | within {milliseconds child next deeds deeds' ended result}
    (first : Does reply child deeds ended) (rest : Does reply (next ended) deeds' result) :
    Does reply (.within milliseconds child next) (deeds + deeds') result
  /-- It spreads out and is abandoned. -/
  | apart {breadth children next deeds results} (each : DoesAll reply children deeds results) :
    Does reply (.join breadth children next) deeds none
  /-- It spreads out and goes on. -/
  | join {breadth children next deeds deeds' outcomes result}
    (each : DoesAll reply children deeds (outcomes.map some))
    (rest : Does reply (next outcomes) deeds' result) :
    Does reply (.join breadth children next) (deeds + deeds') result

/-- What several routines do side by side. -/
inductive DoesAll (reply : Nat → Outcome → Prop) :
    List Routine → Multiset Deed → List (Option Outcome) → Prop where
  /-- Nothing. -/
  | nil : DoesAll reply [] 0 []
  /-- What the first one does, and the others. -/
  | cons {routine rest deeds deeds' result results} (first : Does reply routine deeds result)
    (others : DoesAll reply rest deeds' results) :
    DoesAll reply (routine :: rest) (deeds + deeds') (result :: results)

end

section

variable {reply : Nat → Outcome → Prop} {deeds : Multiset Deed} {result : Outcome}

/-- Routines side by side that are not abandoned come to an outcome each. -/
theorem forall₂_of_doesAll {children : List Routine} {outcomes : List Outcome}
    (does : DoesAll reply children deeds (outcomes.map some)) :
    List.Forall₂ (fun child outcome => ∃ deeds, child.Does reply deeds (some outcome)) children
      outcomes := by
  induction children generalizing deeds outcomes with
  | nil =>
    cases outcomes with
    | nil => exact .nil
    | cons => cases does
  | cons child rest ih =>
    cases outcomes with
    | nil => cases does
    | cons outcome others =>
      cases does with
      | cons first later => exact .cons ⟨_, first⟩ (ih later)

/-- The end is an end. -/
theorem eq_of_does_done {outcome outcome' : Outcome}
    (does : (done outcome).Does reply deeds (some outcome')) : outcome' = outcome := by
  cases does
  rfl

/-- A fetch ends with what it is answered. -/
theorem reply_of_does_fetch {index : Nat} {outcome : Outcome}
    (does : (fetch index .done).Does reply deeds (some outcome)) : reply index outcome := by
  cases does with
  | fetch told rest =>
    exact eq_of_does_done rest ▸ told

/-- Routines side by side come to values or to the first error. -/
theorem of_does_allValues {children : List Routine} {next : List Value → Routine}
    (does : (allValues children next).Does reply deeds (some result)) :
    ∃ outcomes before after, DoesAll reply children before (outcomes.map some) ∧
      deeds = before + after ∧
      match collect outcomes with
      | .ok values => (next values).Does reply after (some result)
      | .error error => after = 0 ∧ result = .error error := by
  cases does with
  | @join _ _ _ before after outcomes _ each rest =>
    refine ⟨outcomes, before, after, each, rfl, ?_⟩
    -- With values it goes on, and with an error it is at its end.
    dsimp only at rest
    cases values : collect outcomes with
    | ok values' => rwa [values] at rest
    | error error =>
      rw [values] at rest
      cases rest
      exact ⟨rfl, rfl⟩

/-- Having effects is doing them. -/
theorem does_performAll {effects : List Effect} {next : Routine} :
    (performAll effects next).Does reply deeds (some result) ↔
      ∃ rest, deeds = (effects.map Deed.perform : Multiset Deed) + rest ∧
        next.Does reply rest (some result) := by
  induction effects generalizing deeds with
  | nil => simp [performAll]
  | cons effect effects ih =>
    rw [performAll, List.map_cons, ← Multiset.cons_coe]
    constructor
    · intro does
      cases does with
      | perform does =>
        obtain ⟨rest, rfl, later⟩ := ih.1 does
        exact ⟨rest, (Multiset.cons_add _ _ _).symm, later⟩
    · rintro ⟨rest, rfl, does⟩
      rw [Multiset.cons_add]
      exact .perform (ih.2 ⟨rest, rfl, does⟩)

end

/-! ## More replies -/

section

variable {reply reply' : Nat → Outcome → Prop} {deeds : Multiset Deed} {result : Option Outcome}

/-- Several routines do with more replies what each of them does. -/
theorem DoesAll.mono_of_forall {children : List Routine} {results : List (Option Outcome)}
    (each : ∀ child ∈ children, ∀ deeds result, child.Does reply deeds result →
      child.Does reply' deeds result)
    (does : DoesAll reply children deeds results) : DoesAll reply' children deeds results := by
  induction children generalizing deeds results with
  | nil =>
    cases does
    exact .nil
  | cons child rest ih =>
    cases does with
    | cons first others =>
      exact .cons (each child (by simp) _ _ first)
        (ih (fun later member => each later (by simp [member])) others)

/-- What a routine does with some replies, it does with more. -/
theorem Does.mono {routine : Routine} (more : ∀ index outcome, reply index outcome →
    reply' index outcome) (does : routine.Does reply deeds result) :
    routine.Does reply' deeds result := by
  induction routine generalizing deeds result with
  | done =>
    cases does with
    | abandoned => exact .abandoned
    | done => exact .done
  | perform _ _ ih =>
    cases does with
    | abandoned => exact .abandoned
    | perform rest => exact .perform (ih rest)
  | invoke _ _ _ ih =>
    cases does with
    | abandoned => exact .abandoned
    | invoke rest => exact .invoke (ih _ rest)
  | pause _ ih =>
    cases does with
    | abandoned => exact .abandoned
    | pause rest => exact .pause (ih rest)
  | sleep _ _ ih =>
    cases does with
    | abandoned => exact .abandoned
    | sleep rest => exact .sleep (ih rest)
  | fetch _ _ ih =>
    cases does with
    | abandoned => exact .abandoned
    | fetch told rest => exact .fetch (more _ _ told) (ih _ rest)
  | within _ _ _ onChild onNext =>
    cases does with
    | abandoned => exact .abandoned
    | within first rest => exact .within (onChild first) (onNext _ rest)
  | join _ _ _ onChildren onNext =>
    cases does with
    | abandoned => exact .abandoned
    | apart each =>
      exact .apart (each.mono_of_forall fun child member _ _ => onChildren child member)
    | join each rest =>
      exact .join (each.mono_of_forall fun child member _ _ => onChildren child member)
        (onNext _ rest)

end

end Routine

/-! ## Counting invocations -/

/-- Whether a deed is the invocation of a function. -/
def Deed.invokes (function : EntryKey) : Deed → Bool
  | .invoke other _ => other = function
  | .perform _ => false

/-- How many deeds are invocations of a function. -/
def invocationsOf (function : EntryKey) (deeds : Multiset Deed) : Nat :=
  deeds.countP fun deed => deed.invokes function = true

section

variable {function other : EntryKey} {deeds deeds' : Multiset Deed}

/-- No deeds, no invocations. -/
@[simp] theorem invocationsOf_zero : invocationsOf function 0 = 0 := rfl

/-- Invocations add up. -/
@[simp] theorem invocationsOf_add : invocationsOf function (deeds + deeds') =
    invocationsOf function deeds + invocationsOf function deeds' :=
  Multiset.countP_add _ _ _

/-- An effect is no invocation. -/
@[simp] theorem invocationsOf_perform {effect : Effect} :
    invocationsOf function (.perform effect ::ₘ deeds) = invocationsOf function deeds :=
  Multiset.countP_cons_of_neg _ (by simp [Deed.invokes])

/-- An invocation is one of its function. -/
theorem invocationsOf_invoke {args : List Value} :
    invocationsOf function (.invoke other args ::ₘ deeds) =
      invocationsOf function deeds + if other = function then 1 else 0 := by
  rw [invocationsOf, Multiset.countP_cons, ← invocationsOf]
  simp [Deed.invokes]

end

namespace Routine

variable {function : EntryKey} {routine next : Routine} {bound bound' : Nat}

/-- A routine invokes a function at most so many times, whatever it is answered. -/
def InvokesAtMost (function : EntryKey) (routine : Routine) (bound : Nat) : Prop :=
  ∀ reply deeds result, routine.Does reply deeds result → invocationsOf function deeds ≤ bound

namespace InvokesAtMost

/-- A greater bound is a bound. -/
theorem mono (h : InvokesAtMost function routine bound) (le : bound ≤ bound') :
    InvokesAtMost function routine bound' :=
  fun reply deeds result does => Nat.le_trans (h reply deeds result does) le

/-- The end invokes nothing. -/
theorem done {outcome : Outcome} : InvokesAtMost function (.done outcome) bound := by
  intro reply deeds result does
  cases does <;> simp

/-- Effects invoke nothing. -/
theorem perform {effect : Effect} (h : InvokesAtMost function next bound) :
    InvokesAtMost function (.perform effect next) bound := by
  intro reply deeds result does
  cases does with
  | abandoned => simp
  | perform rest => simpa using h _ _ _ rest

/-- Pauses invoke nothing. -/
theorem pause (h : InvokesAtMost function next bound) :
    InvokesAtMost function (.pause next) bound := by
  intro reply deeds result does
  cases does with
  | abandoned => simp
  | pause rest => exact h _ _ _ rest

/-- Sleeps invoke nothing. -/
theorem sleep {milliseconds : Nat} (h : InvokesAtMost function next bound) :
    InvokesAtMost function (.sleep milliseconds next) bound := by
  intro reply deeds result does
  cases does with
  | abandoned => simp
  | sleep rest => exact h _ _ _ rest

/-- Fetching invokes nothing. -/
theorem fetch {index : Nat} {next : Outcome → Routine}
    (h : ∀ outcome, InvokesAtMost function (next outcome) bound) :
    InvokesAtMost function (.fetch index next) bound := by
  intro reply deeds result does
  cases does with
  | abandoned => simp
  | fetch _ rest => exact h _ _ _ _ rest

/-- A routine run for some time, and what comes after it. -/
theorem within {milliseconds : Nat} {child : Routine} {next : Option Outcome → Routine}
    (first : InvokesAtMost function child bound)
    (rest : ∀ outcome, InvokesAtMost function (next outcome) bound') :
    InvokesAtMost function (.within milliseconds child next) (bound + bound') := by
  intro reply deeds result does
  cases does with
  | abandoned => simp
  | within here after =>
    rw [invocationsOf_add]
    exact Nat.add_le_add (first _ _ _ here) (rest _ _ _ _ after)

/-- An invocation is one, if it is of the function. -/
theorem invoke {other : EntryKey} {args : List Value} {next : Nat → Routine}
    (h : ∀ ordinal, InvokesAtMost function (next ordinal) 0) :
    InvokesAtMost function (.invoke other args next) (if other = function then 1 else 0) := by
  intro reply deeds result does
  cases does with
  | abandoned => simp
  | invoke rest =>
    -- What follows invokes nothing, so there is this invocation at most.
    have none := h _ _ _ _ rest
    rw [invocationsOf_invoke]
    omega

/-- Several effects invoke nothing. -/
theorem performAll {effects : List Effect} (h : InvokesAtMost function next bound) :
    InvokesAtMost function (.performAll effects next) bound := by
  induction effects with
  | nil => exact h
  | cons effect rest ih => exact ih.perform

/-- Routines side by side invoke as many times as all of them do. -/
theorem of_doesAll {reply : Nat → Outcome → Prop} {children : List Routine}
    {bounds : List Nat} (each : List.Forall₂ (InvokesAtMost function) children bounds)
    {deeds : Multiset Deed} {results : List (Option Outcome)}
    (does : DoesAll reply children deeds results) :
    invocationsOf function deeds ≤ bounds.sum := by
  induction each generalizing deeds results with
  | nil =>
    cases does
    simp
  | cons first _ ih =>
    cases does with
    | cons here others =>
      rw [invocationsOf_add, List.sum_cons]
      exact Nat.add_le_add (first _ _ _ here) (ih others)

/-- Routines side by side, and what comes after them. -/
theorem all {children : List Routine} {bounds : List Nat} {next : List Outcome → Routine}
    (each : List.Forall₂ (InvokesAtMost function) children bounds)
    (rest : ∀ outcomes, InvokesAtMost function (next outcomes) bound) :
    InvokesAtMost function (.all children next) (bounds.sum + bound) := by
  intro reply deeds result does
  cases does with
  | abandoned => simp
  | apart side => exact Nat.le_trans (of_doesAll each side) (Nat.le_add_right _ _)
  | join side after =>
    rw [invocationsOf_add]
    exact Nat.add_le_add (of_doesAll each side) (rest _ _ _ _ after)

/-- Going on with values only. -/
theorem allValues {children : List Routine} {bounds : List Nat} {next : List Value → Routine}
    (each : List.Forall₂ (InvokesAtMost function) children bounds)
    (rest : ∀ values, InvokesAtMost function (next values) bound) :
    InvokesAtMost function (.allValues children next) (bounds.sum + bound) := by
  refine all each fun outcomes => ?_
  split
  · exact rest _
  · exact done

/-- Going on with one value. -/
theorem value {child : Routine} {next : Value → Routine}
    (first : InvokesAtMost function child bound)
    (rest : ∀ value, InvokesAtMost function (next value) bound') :
    InvokesAtMost function (.value child next) (bound + bound') := by
  -- One value is several values, of which there is one.
  have each : List.Forall₂ (InvokesAtMost function) [child] [bound] := .cons first .nil
  exact (allValues each fun values => rest _).mono (by simp)

end InvokesAtMost

end Routine

/-! ## Calls -/

/-- How many of several calls are bound to a function. -/
def Executable.boundCalls (executable : Executable) (function : EntryKey)
    (calls : List (String × Nat)) : Nat :=
  calls.countP fun call =>
    (executable.function? call.1).any fun entry => entry.key = function

/-- The calls in a slot. -/
def Slot.calls (slot : Slot) : List (String × Nat) :=
  slot.expressions.flatMap SlotExpr.calls

namespace Setting

open Routine

variable {setting : Setting} {function : EntryKey} {bound : Nat}

/-- Fetching by name invokes nothing. -/
theorem invokesAtMost_fetchNamed {name : String} :
    InvokesAtMost function (setting.fetchNamed name) 0 := by
  unfold fetchNamed
  split
  · exact .fetch fun _ => .done
  · exact .done

/-- Nor does fetching several slots side by side. -/
theorem forall₂_fetchNamed (names : List String) :
    List.Forall₂ (InvokesAtMost function) (names.map setting.fetchNamed)
      (List.replicate names.length 0) := by
  induction names with
  | nil => exact .nil
  | cons name rest ih => exact .cons invokesAtMost_fetchNamed ih

/-- Nor does fetching ahead. -/
theorem invokesAtMost_prefetch {names : List String} {next : Routine}
    (rest : InvokesAtMost function next bound) :
    InvokesAtMost function (setting.prefetch names next) bound :=
  (InvokesAtMost.allValues (forall₂_fetchNamed names) fun _ => rest).mono (by simp)

/-- The steps of a function invoke no other one. -/
theorem invokesAtMost_actionRoutine {α : Type} {next : Except FunctionError α → Routine}
    (rest : ∀ result, InvokesAtMost function (next result) bound) (action : Action α) :
    InvokesAtMost function (setting.actionRoutine next action) bound := by
  induction action with
  | finish result => exact rest result
  | pause _ ih => exact ih.pause
  | sleep _ _ ih => exact ih.sleep
  | perform _ _ ih => exact ih.perform
  | fetch names _ ih =>
    exact (InvokesAtMost.all (forall₂_fetchNamed names) fun outcomes => ih outcomes).mono (by simp)
  | fetchWithin _ _ _ ih =>
    exact (InvokesAtMost.within invokesAtMost_fetchNamed fun outcome => ih outcome).mono (by simp)

/-- One call, of a name that is bound. -/
theorem boundCalls_singleton {executable : Executable} {name : String} {count : Nat} {entry : Entry}
    (found : executable.function? name = some entry) :
    executable.boundCalls function [(name, count)] = if entry.key = function then 1 else 0 := by
  simp [Executable.boundCalls, List.countP_cons, found]

/-- A call invokes a function at most once, and only the one it is bound to. -/
theorem invokesAtMost_callRoutine {name : String} {args : List Value} {count : Nat} :
    InvokesAtMost function (setting.callRoutine name args)
      (setting.executable.boundCalls function [(name, count)]) := by
  unfold callRoutine
  split
  · exact .done
  · rename_i entry found
    rw [boundCalls_singleton found]
    split
    · exact .done
    · split
      · exact .done
      · unfold invokeValue
        split
        · exact .invoke fun ordinal => .performAll .done
        · exact .invoke fun ordinal => invokesAtMost_actionRoutine (fun _ => .done) _
        all_goals exact .done

/-- Calls are counted one after the other. -/
theorem boundCalls_append {executable : Executable} {calls calls' : List (String × Nat)} :
    executable.boundCalls function (calls ++ calls') =
      executable.boundCalls function calls + executable.boundCalls function calls' :=
  List.countP_append

/-- Evaluating several expressions, if each of them invokes as often as it calls. -/
theorem forall₂_exprRoutines {bodies : List SlotExpr}
    (each : ∀ body ∈ bodies, InvokesAtMost function (setting.exprRoutine body)
      (setting.executable.boundCalls function body.calls)) :
    List.Forall₂ (InvokesAtMost function) (setting.exprRoutines bodies)
      (bodies.map fun body => setting.executable.boundCalls function body.calls) := by
  rw [exprRoutines_eq_map, List.forall₂_map_left_iff, List.forall₂_map_right_iff,
    List.forall₂_same]
  exact each

/-- The calls in several expressions are those in each of them. -/
theorem sum_boundCalls {executable : Executable} (bodies : List SlotExpr) :
    (bodies.map fun body => executable.boundCalls function body.calls).sum =
      executable.boundCalls function (SlotExpr.callsOfAll bodies) := by
  induction bodies with
  | nil => rfl
  | cons body rest ih =>
    rw [List.map_cons, List.sum_cons, ih, SlotExpr.callsOfAll, boundCalls_append]

/-- **Evaluating an expression invokes a function at most as many times as it calls it.** -/
theorem invokesAtMost_exprRoutine (body : SlotExpr) :
    InvokesAtMost function (setting.exprRoutine body)
      (setting.executable.boundCalls function body.calls) := by
  induction body with
  | const value => rw [exprRoutine]; exact .done
  | feature name =>
    rw [exprRoutine]
    exact invokesAtMost_fetchNamed.mono (Nat.zero_le _)
  | list items ih =>
    rw [exprRoutine, SlotExpr.calls, ← sum_boundCalls]
    have last (values : List Value) :
        InvokesAtMost function (.done (.ok (.list values))) 0 := .done
    exact (InvokesAtMost.allValues (forall₂_exprRoutines ih) last).mono (by simp)
  | call name args ih =>
    -- The call itself comes after those among its arguments.
    rw [exprRoutine, SlotExpr.calls, ← List.singleton_append, boundCalls_append, Nat.add_comm,
      ← sum_boundCalls]
    exact .allValues (forall₂_exprRoutines ih) fun _ => invokesAtMost_callRoutine

/-- Running a statement invokes a function at most once, and only the one it is bound to. -/
theorem invokesAtMost_invokeStatement {name : String} {args : List Value} {count : Nat} :
    InvokesAtMost function (setting.invokeStatement name args)
      (setting.executable.boundCalls function [(name, count)]) := by
  unfold invokeStatement
  split
  · exact .done
  · rename_i entry found
    rw [boundCalls_singleton found]
    split
    · split
      · exact .perform .done
      -- Neither tracking the arguments nor reporting a failure invokes anything.
      · refine .performAll ?_
        split
        · exact .done
        · refine .invoke fun ordinal => invokesAtMost_actionRoutine (fun result => ?_) _
          split
          · exact .done
          · exact .perform .done
    · exact .done

/-- Handing a statement its arguments and running it. -/
theorem invokesAtMost_statementCall {call : SlotExpr} :
    InvokesAtMost function (setting.statementCall call)
      (setting.executable.boundCalls function call.calls) := by
  unfold statementCall
  split
  · rw [SlotExpr.calls, ← List.singleton_append, boundCalls_append, Nat.add_comm, ← sum_boundCalls]
    exact invokesAtMost_prefetch (.allValues
      (forall₂_exprRoutines fun body _ => invokesAtMost_exprRoutine body)
      fun _ => invokesAtMost_invokeStatement)
  · exact invokesAtMost_exprRoutine call

/-- **The computation of a slot invokes a function at most as many times as the slot has calls bound
to it.** -/
theorem invokesAtMost_slotRoutine {index : Nat} {slot : Slot}
    (found : setting.graph.slots[index]? = some slot) :
    InvokesAtMost function (setting.slotRoutine index)
      (setting.executable.boundCalls function slot.calls) := by
  rw [slotRoutine, found, Slot.calls, Slot.expressions]
  cases kind : slot.kind with
  | input =>
    simp only [kind]
    exact .done
  | feature body =>
    simp only [kind, List.flatMap_singleton]
    exact invokesAtMost_prefetch (invokesAtMost_exprRoutine body)
  | statement feature condition call =>
    simp only [kind]
    unfold statementRoutine
    split
    · exact .done
    · cases condition with
      | none => simpa using invokesAtMost_statementCall
      | some condition =>
        rw [Option.toList_some, List.singleton_append, List.flatMap_cons, List.flatMap_singleton,
          boundCalls_append]
        refine invokesAtMost_prefetch (.value (invokesAtMost_exprRoutine condition) fun value => ?_)
        split
        · exact invokesAtMost_statementCall
        · exact .done
  | group =>
    simp only [kind]
    -- A statement feature invokes nothing, it only waits for its statements.
    have each : ∀ members : List Nat, List.Forall₂ (InvokesAtMost function)
        (members.map fun member => .fetch member .done) (List.replicate members.length 0) := by
      intro members
      induction members with
      | nil => exact .nil
      | cons member rest ih => exact .cons (.fetch fun _ => .done) ih
    have last (outcomes : List Outcome) :
        InvokesAtMost function (.done (groupOutcome outcomes)) 0 := .done
    exact (InvokesAtMost.all (each _) last).mono (by simp)

end Setting

end RuleGraph
