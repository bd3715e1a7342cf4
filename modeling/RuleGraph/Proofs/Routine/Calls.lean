import RuleGraph.Proofs.Routine.Does

/-! # Which calls are made

A routine no longer shows where the calls of an expression begin and end. Here every call that the
computation of a slot makes is put on record: the values of its arguments, what it does, and with
which outcome it ends. What a slot does is what the calls on record do, all of them together.

* **`MadeCall`** — a call whose arguments are evaluated.
* **`Account`** — the calls that some steps make, and the outcome with which the steps end.
* **`Setting.exprAccount`**, **`Setting.slotAccount`** — the calls of expressions and slots.
* **`Routine.HasAccount`** — a routine does what the calls on record do, and ends as they say.
* **`Setting.hasAccount_slotRoutine`** — so it is with the computation of a slot.
-/

namespace RuleGraph

/-- The steps of a call whose arguments are evaluated, where a value is wanted or as a statement. -/
def Setting.dispatch (setting : Setting) (asStatement : Bool) (function : String)
    (args : List Value) : Routine :=
  if asStatement then setting.invokeStatement function args else setting.callRoutine function args

/-- A call whose arguments are evaluated. -/
structure MadeCall (setting : Setting) (reply : Nat → Outcome → Prop) where
  /-- Whether it stands as a statement. -/
  asStatement : Bool
  /-- The name of the function. -/
  function : String
  /-- The values of the arguments. -/
  args : List Value
  /-- What it does. -/
  deeds : Multiset Deed
  /-- The outcome with which it ends; none if it is abandoned before. -/
  result : Option Outcome
  /-- Its steps do so. -/
  does : (setting.dispatch asStatement function args).Does reply deeds result

/-- A way in which some steps go: which calls they make, and the outcome with which they end; none
if they are abandoned before. -/
abbrev Account (setting : Setting) (reply : Nat → Outcome → Prop) :=
  List (MadeCall setting reply) → Option Outcome → Prop

namespace Account

variable {setting : Setting} {reply : Nat → Outcome → Prop}

/-- Steps without calls. -/
def silent (routine : Routine) : Account setting reply :=
  fun calls result => calls = [] ∧ routine.Does reply 0 result

/-- A call. -/
inductive Made (asStatement : Bool) (function : String) (args : List Value) :
    List (MadeCall setting reply) → Option Outcome → Prop where
  /-- It does something. -/
  | does {deeds result}
    (does : (setting.dispatch asStatement function args).Does reply deeds result) :
    Made asStatement function args [⟨asStatement, function, args, deeds, result, does⟩] result

/-- Steps side by side. -/
inductive Side : List (Account setting reply) → List (MadeCall setting reply) →
    List (Option Outcome) → Prop where
  /-- None. -/
  | nil : Side [] [] []
  /-- The first ones, and the others. -/
  | cons {account rest calls calls' result results} (first : account calls result)
    (others : Side rest calls' results) :
    Side (account :: rest) (calls ++ calls') (result :: results)

/-- Steps side by side, and what comes after them with their values. -/
inductive Values (accounts : List (Account setting reply))
    (next : List Value → Account setting reply) :
    List (MadeCall setting reply) → Option Outcome → Prop where
  /-- They are abandoned. -/
  | apart {calls results} (side : Side accounts calls results) : Values accounts next calls none
  /-- The first error among them is the end. -/
  | failed {calls outcomes error} (side : Side accounts calls (outcomes.map some))
    (first : collect outcomes = .error error) : Values accounts next calls (some (.error error))
  /-- They come to values. -/
  | onward {calls calls' outcomes values result} (side : Side accounts calls (outcomes.map some))
    (all : collect outcomes = .ok values) (rest : next values calls' result) :
    Values accounts next (calls ++ calls') result

end Account

namespace Setting

section

variable (setting : Setting) (reply : Nat → Outcome → Prop)

mutual

/-- The calls in an expression: those in its items or arguments, and then its own. -/
def exprAccount : SlotExpr → Account setting reply
  | .const value => .silent (.done (.ok value))
  | .feature name => .silent (setting.fetchNamed name)
  | .list items => .Values (exprAccounts items) fun values => .silent (.done (.ok (.list values)))
  | .call function args => .Values (exprAccounts args) (.Made false function)

/-- The calls in each of several expressions. -/
def exprAccounts : List SlotExpr → List (Account setting reply)
  | [] => []
  | item :: rest => exprAccount item :: exprAccounts rest

end

/-- Slots are fetched ahead. -/
def prefetchAccount (names : List String) (next : Account setting reply) :
    Account setting reply :=
  .Values (names.map fun name => .silent (setting.fetchNamed name)) fun _ => next

/-- The calls of a statement whose condition holds: those in its arguments, and then the
statement. -/
def callAccount (call : SlotExpr) : Account setting reply :=
  match call with
  | .call function args =>
    setting.prefetchAccount reply call.references <|
      .Values (setting.exprAccounts reply args) (.Made true function)
  | _ => setting.exprAccount reply call

/-- The calls of a statement: those in its condition, and then its own if that holds. -/
def statementAccount (name : String) (condition : Option SlotExpr) (call : SlotExpr) :
    Account setting reply :=
  if !setting.hasManipulator then .silent (.done (.error (.missingManipulator name)))
  else
    match condition with
    | none => setting.callAccount reply call
    | some condition =>
      setting.prefetchAccount reply condition.references <|
        .Values [setting.exprAccount reply condition] fun values =>
          if (values.head?.getD .null).isTruthy then setting.callAccount reply call
          else .silent (.done (.ok .null))

/-- The calls of the slot at a place. Inputs and statement features make none. -/
def slotAccount (index : Nat) : Account setting reply :=
  match setting.graph.slots[index]? with
  | none => .silent (setting.slotRoutine index)
  | some slot =>
    match slot.kind with
    | .input | .group => .silent (setting.slotRoutine index)
    | .feature body => setting.prefetchAccount reply slot.deps (setting.exprAccount reply body)
    | .statement _ condition call => setting.statementAccount reply slot.name condition call

end

end Setting

/-! ## Routines and their accounts -/

variable {setting : Setting} {reply : Nat → Outcome → Prop}

/-- All that several calls do. -/
def deedsOfCalls (calls : List (MadeCall setting reply)) : Multiset Deed :=
  (calls.map MadeCall.deeds).sum

/-- What calls do adds up. -/
@[simp] theorem deedsOfCalls_append {calls calls' : List (MadeCall setting reply)} :
    deedsOfCalls (calls ++ calls') = deedsOfCalls calls + deedsOfCalls calls' := by
  rw [deedsOfCalls, List.map_append, List.sum_append]
  rfl

namespace Routine

/-- A routine goes in the ways that an account says, and no others: it does what the calls do and
nothing else, and it comes to its end only if all of them do. -/
structure HasAccount (routine : Routine) (account : Account setting reply) : Prop where
  /-- What it does is what some calls do. -/
  does_iff : ∀ deeds result, routine.Does reply deeds result ↔
    ∃ calls, account calls result ∧ deeds = deedsOfCalls calls
  /-- Before its end come the ends of all calls. -/
  ended : ∀ calls outcome, account calls (some outcome) → ∀ call ∈ calls, call.result ≠ none

/-! ### Routines that do nothing -/

/-- A routine does nothing that others can tell. -/
def IsIdle (reply : Nat → Outcome → Prop) (routine : Routine) : Prop :=
  ∀ deeds result, routine.Does reply deeds result → deeds = 0

namespace IsIdle

/-- The end. -/
theorem done {outcome : Outcome} : (Routine.done outcome).IsIdle reply := by
  intro deeds result does
  cases does <;> rfl

/-- A fetch. -/
theorem fetch {index : Nat} : (Routine.fetch index .done).IsIdle reply := by
  intro deeds result does
  cases does with
  | abandoned => rfl
  | fetch told rest => exact done _ _ rest

/-- Several routines. -/
theorem of_doesAll {children : List Routine} (each : ∀ child ∈ children, child.IsIdle reply)
    {deeds : Multiset Deed} {results : List (Option Outcome)}
    (does : DoesAll reply children deeds results) : deeds = 0 := by
  induction children generalizing deeds results with
  | nil =>
    cases does
    rfl
  | cons child rest ih =>
    cases does with
    | cons first others =>
      obtain ⟨here, later⟩ := List.forall_mem_cons.1 each
      rw [here _ _ first, ih later others, add_zero]

/-- Routines side by side, and what comes after them. -/
theorem all {children : List Routine} {next : List Outcome → Routine}
    (each : ∀ child ∈ children, child.IsIdle reply)
    (rest : ∀ outcomes, (next outcomes).IsIdle reply) :
    (Routine.all children next).IsIdle reply := by
  intro deeds result does
  cases does with
  | abandoned => rfl
  | apart side => exact of_doesAll each side
  | join side after => rw [of_doesAll each side, rest _ _ _ after, add_zero]

end IsIdle

/-! ### Routines that make calls -/

/-- Several routines may be abandoned at once. -/
theorem doesAll_none {children : List Routine} :
    DoesAll reply children 0 (children.map fun _ => none) := by
  induction children with
  | nil => exact .nil
  | cons child rest ih => exact .cons .abandoned ih

namespace HasAccount

variable {routine : Routine} {children : List Routine} {accounts : List (Account setting reply)}

/-- Steps that do nothing make no calls. -/
theorem silent (idle : routine.IsIdle reply) :
    routine.HasAccount (.silent routine : Account setting reply) where
  does_iff deeds result := by
    constructor
    · intro does
      cases idle _ _ does
      exact ⟨[], ⟨rfl, does⟩, rfl⟩
    · rintro ⟨calls, ⟨rfl, does⟩, rfl⟩
      exact does
  ended := by
    rintro calls outcome ⟨rfl, -⟩ call member
    cases member

/-- The end. -/
theorem done {outcome : Outcome} :
    (Routine.done outcome).HasAccount (.silent (.done outcome) : Account setting reply) :=
  silent .done

/-- A call is on record. -/
theorem made (asStatement : Bool) (function : String) (args : List Value) :
    (setting.dispatch asStatement function args).HasAccount
      (.Made asStatement function args : Account setting reply) where
  does_iff deeds result := by
    constructor
    · intro does
      exact ⟨_, .does does, by simp [deedsOfCalls]⟩
    · rintro ⟨calls, ⟨does⟩, rfl⟩
      simpa [deedsOfCalls] using does
  ended := by
    rintro calls outcome ⟨does⟩ call member
    cases List.mem_singleton.1 member
    simp

/-- Routines side by side have their accounts side by side. -/
theorem doesAll_iff (each : List.Forall₂ HasAccount children accounts) (deeds : Multiset Deed)
    (results : List (Option Outcome)) :
    DoesAll reply children deeds results ↔
      ∃ calls, Account.Side accounts calls results ∧ deeds = deedsOfCalls calls := by
  induction each generalizing deeds results with
  | nil =>
    constructor
    · intro does
      cases does
      exact ⟨[], .nil, rfl⟩
    · rintro ⟨calls, side, rfl⟩
      cases side
      exact .nil
  | cons first _ ih =>
    constructor
    · intro does
      cases does with
      | cons here others =>
        obtain ⟨calls, account, rfl⟩ := (first.does_iff _ _).1 here
        obtain ⟨calls', side, rfl⟩ := (ih _ _).1 others
        exact ⟨_, .cons account side, deedsOfCalls_append.symm⟩
    · rintro ⟨calls, side, rfl⟩
      cases side with
      | cons account side =>
        rw [deedsOfCalls_append]
        exact .cons ((first.does_iff _ _).2 ⟨_, account, rfl⟩) ((ih _ _).2 ⟨_, side, rfl⟩)

/-- If all of them end, so do all calls. -/
theorem ended_of_side (each : List.Forall₂ HasAccount children accounts)
    {calls : List (MadeCall setting reply)} {outcomes : List Outcome}
    (side : Account.Side accounts calls (outcomes.map some)) :
    ∀ call ∈ calls, call.result ≠ none := by
  induction each generalizing calls outcomes with
  | nil =>
    cases outcomes with
    | nil =>
      cases side
      simp
    | cons => cases side
  | cons first _ ih =>
    cases outcomes with
    | nil => cases side
    | cons outcome others =>
      cases side with
      | cons account side =>
        exact List.forall_mem_append.2 ⟨first.ended _ _ account, ih side⟩

/-- Routines side by side, and what comes after them with their values. -/
theorem allValues {next : List Value → Routine} {onward : List Value → Account setting reply}
    (each : List.Forall₂ HasAccount children accounts)
    (rest : ∀ values, (next values).HasAccount (onward values)) :
    (Routine.allValues children next).HasAccount (.Values accounts onward) where
  does_iff deeds result := by
    constructor
    · intro does
      cases does with
      | abandoned =>
        obtain ⟨calls, side, none⟩ := (doesAll_iff each _ _).1 doesAll_none
        exact ⟨calls, .apart side, none⟩
      | apart does =>
        obtain ⟨calls, side, rfl⟩ := (doesAll_iff each _ _).1 does
        exact ⟨calls, .apart side, rfl⟩
      | @join _ _ _ _ _ outcomes _ does after =>
        obtain ⟨calls, side, rfl⟩ := (doesAll_iff each _ _).1 does
        -- With values it goes on, and with an error it is at its end.
        dsimp only at after
        cases values : collect outcomes with
        | ok values' =>
          rw [values] at after
          obtain ⟨calls', account, rfl⟩ := ((rest _).does_iff _ _).1 after
          exact ⟨_, .onward side values account, deedsOfCalls_append.symm⟩
        | error error =>
          rw [values] at after
          cases after with
          | abandoned => exact ⟨calls, .apart side, add_zero _⟩
          | done => exact ⟨calls, .failed side values, add_zero _⟩
    · rintro ⟨calls, account, rfl⟩
      cases account with
      | apart side => exact .apart ((doesAll_iff each _ _).2 ⟨_, side, rfl⟩)
      | failed side first =>
        rw [← add_zero (deedsOfCalls calls)]
        refine .join ((doesAll_iff each _ _).2 ⟨_, side, rfl⟩) ?_
        rw [first]
        exact .done
      | onward side values account =>
        rw [deedsOfCalls_append]
        refine .join ((doesAll_iff each _ _).2 ⟨_, side, rfl⟩) ?_
        rw [values]
        exact ((rest _).does_iff _ _).2 ⟨_, account, rfl⟩
  ended calls outcome account := by
    cases account with
    | failed side => exact ended_of_side each side
    | onward side _ account =>
      exact List.forall_mem_append.2 ⟨ended_of_side each side, (rest _).ended _ _ account⟩

end HasAccount

end Routine

/-! ## Slots and their accounts -/

namespace Setting

open Routine

/-- Fetching by name makes no call. -/
theorem hasAccount_fetchNamed {name : String} :
    (setting.fetchNamed name).HasAccount
      (.silent (setting.fetchNamed name) : Account setting reply) := by
  refine .silent ?_
  unfold fetchNamed
  split
  · exact .fetch
  · exact .done

/-- Fetching ahead makes no call, and what comes after it makes its own. -/
theorem hasAccount_prefetch {names : List String} {next : Routine}
    {account : Account setting reply} (rest : next.HasAccount account) :
    (setting.prefetch names next).HasAccount (setting.prefetchAccount reply names account) := by
  refine .allValues ?_ fun _ => rest
  rw [List.forall₂_map_left_iff, List.forall₂_map_right_iff, List.forall₂_same]
  exact fun name _ => hasAccount_fetchNamed

/-- The accounts of several expressions are those of each of them. -/
theorem exprAccounts_eq_map (bodies : List SlotExpr) :
    setting.exprAccounts reply bodies = bodies.map (setting.exprAccount reply) := by
  induction bodies with
  | nil => rw [exprAccounts, List.map_nil]
  | cons body rest ih => rw [exprAccounts, ih, List.map_cons]

/-- Several expressions have their accounts if each of them does. -/
theorem forall₂_hasAccount {bodies : List SlotExpr}
    (each : ∀ body ∈ bodies, (setting.exprRoutine body).HasAccount (setting.exprAccount reply body)) :
    List.Forall₂ HasAccount (setting.exprRoutines bodies) (setting.exprAccounts reply bodies) := by
  rw [exprRoutines_eq_map, exprAccounts_eq_map, List.forall₂_map_left_iff,
    List.forall₂_map_right_iff, List.forall₂_same]
  exact each

/-- **Evaluating an expression makes the calls in it**, those in the arguments of a call before the
call. -/
theorem hasAccount_exprRoutine (body : SlotExpr) :
    (setting.exprRoutine body).HasAccount (setting.exprAccount reply body) := by
  induction body with
  | const value =>
    rw [exprRoutine, exprAccount]
    exact .done
  | feature name =>
    rw [exprRoutine, exprAccount]
    exact hasAccount_fetchNamed
  | list items ih =>
    rw [exprRoutine, exprAccount]
    exact .allValues (forall₂_hasAccount ih) fun _ => .done
  | call function args ih =>
    rw [exprRoutine, exprAccount]
    exact .allValues (forall₂_hasAccount ih) fun values => .made false function values

/-- Running a statement makes the calls in its arguments, and then its own. -/
theorem hasAccount_statementCall {call : SlotExpr} :
    (setting.statementCall call).HasAccount (setting.callAccount reply call) := by
  cases call with
  | call function args =>
    rw [statementCall, callAccount]
    exact hasAccount_prefetch
      (.allValues (forall₂_hasAccount fun body _ => hasAccount_exprRoutine body)
        fun values => .made true function values)
  | const | feature | list => exact hasAccount_exprRoutine _

/-- So does a statement with its condition, whose calls come first. -/
theorem hasAccount_statementRoutine {name : String} {condition : Option SlotExpr}
    {call : SlotExpr} :
    (setting.statementRoutine name condition call).HasAccount
      (setting.statementAccount reply name condition call) := by
  unfold statementRoutine statementAccount
  split
  · exact .done
  · cases condition with
    | none => exact hasAccount_statementCall
    | some condition =>
      refine hasAccount_prefetch (.allValues (.cons (hasAccount_exprRoutine _) .nil) fun values => ?_)
      dsimp only
      split
      · exact hasAccount_statementCall
      · exact .done

/-- **The computation of a slot makes the calls of the slot**: it does what they do and nothing
else. -/
theorem hasAccount_slotRoutine (index : Nat) :
    (setting.slotRoutine index).HasAccount (setting.slotAccount reply index) := by
  rw [slotAccount]
  cases found : setting.graph.slots[index]? with
  | none =>
    simp only [slotRoutine, found]
    exact .done
  | some slot =>
    cases kind : slot.kind with
    | input =>
      simp only [slotRoutine, found, kind]
      exact .done
    | feature body =>
      simp only [slotRoutine, found, kind]
      exact hasAccount_prefetch (hasAccount_exprRoutine body)
    | statement feature condition call =>
      simp only [slotRoutine, found, kind]
      exact hasAccount_statementRoutine
    | group =>
      simp only [kind]
      refine .silent ?_
      simp only [slotRoutine, found, kind]
      refine .all (fun child member => ?_) fun outcomes => .done
      obtain ⟨dep, -, rfl⟩ := List.mem_map.1 member
      exact .fetch

end Setting

end RuleGraph
