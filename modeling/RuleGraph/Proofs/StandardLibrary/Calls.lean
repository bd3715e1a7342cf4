import RuleGraph.Proofs.Compile.Settled
import RuleGraph.Proofs.Graph.Grounded
import RuleGraph.Proofs.Interleaving.Outcomes
import RuleGraph.Proofs.Interleaving.Statements
import RuleGraph.Proofs.Routine.Ends
import RuleGraph.StandardLibrary

/-! # Calls of plain functions

Most functions of the library compute a value from their arguments alone. A call of such a function
has one outcome only, whatever else happens in the execution, and so has a feature that is such a
call once the values of its arguments are known.

* **`Entry.outcome`** — what a call of a function of its arguments alone comes to.
* **`Setting.comesTo_call_iff`** — the values that a call in an expression can come to.
* **`Setting.Yields`** — an expression that can come to one value only.
* **`Session.Gives`** — the value of an argument in a session: of a constant, or of a feature.
* **`Execution.Reaches.outcome_eq`** — a feature that is a call has come to the outcome of the call
  on the values of its arguments.
-/

namespace RuleGraph

open StandardLibrary

/-- What a call of a function of its arguments alone comes to: null if a null keeps it from being
invoked, else what it makes of the arguments as it receives them. -/
def Entry.outcome (entry : Entry) (body : List Value → Except FunctionError Value)
    (args : List Value) : Outcome :=
  match entry.admit? args with
  | none => .ok .null
  | some admitted => Setting.callOutcome entry (body admitted)

namespace Setting

open Routine

variable {setting : Setting} {reply : Nat → Outcome → Prop} {deeds : Multiset Deed}
  {values : List Value}

/-! ## The call -/

section

variable {name : String} {entry : Entry} {body : List Value → Except FunctionError Value}

/-- A call of such a function invokes it at most once, and ends with its outcome. -/
theorem callRoutine_plain (bound : setting.executable.function? name = some entry)
    (kind : entry.kind = plainFunction body) (arity : entry.arityError? values.length = none) :
    setting.callRoutine name values =
      match entry.admit? values with
      | none => .done (.ok .null)
      | some admitted => .invoke entry.key admitted fun _ => .done (entry.outcome body values) := by
  simp only [callRoutine, bound, arity, Entry.outcome]
  cases entry.admit? values with
  | none => rfl
  | some admitted =>
    simp only [invokeValue, kind, plainFunction]
    rfl

/-- **A call of such a function comes to its outcome.** -/
theorem does_callRoutine_plain (bound : setting.executable.function? name = some entry)
    (kind : entry.kind = plainFunction body) (arity : entry.arityError? values.length = none) :
    ∃ deeds, (setting.callRoutine name values).Does reply deeds
      (some (entry.outcome body values)) := by
  rw [callRoutine_plain bound kind arity]
  cases admits : entry.admit? values with
  | none =>
    have same : entry.outcome body values = .ok .null := by rw [Entry.outcome, admits]
    rw [same]
    exact ⟨_, .done⟩
  | some => exact ⟨_, @Does.invoke _ _ _ _ 0 _ _ .done⟩

/-- It comes to nothing else. -/
theorem eq_of_does_callRoutine_plain (bound : setting.executable.function? name = some entry)
    (kind : entry.kind = plainFunction body) (arity : entry.arityError? values.length = none)
    {outcome : Outcome}
    (does : (setting.callRoutine name values).Does reply deeds (some outcome)) :
    outcome = entry.outcome body values := by
  rw [callRoutine_plain bound kind arity] at does
  cases admits : entry.admit? values with
  | none =>
    rw [admits] at does
    rw [Entry.outcome, admits]
    exact eq_of_does_done does
  | some =>
    rw [admits] at does
    cases does with
    | invoke rest => exact eq_of_does_done rest

end

/-! ## Its arguments -/

/-- Evaluating an expression can come to a value. -/
def ComesTo (setting : Setting) (reply : Nat → Outcome → Prop) (body : SlotExpr) (value : Value) :
    Prop :=
  ∃ deeds, (setting.exprRoutine body).Does reply deeds (some (.ok value))

/-- If several expressions and what follows come to a value, each of them has come to one. -/
theorem exists_comesTo_of_does {bodies : List SlotExpr} {next : List Value → Routine} {result : Value}
    (does : (allValues (setting.exprRoutines bodies) next).Does reply deeds
      (some (.ok result))) :
    ∃ values deeds', List.Forall₂ (setting.ComesTo reply) bodies values ∧
      (next values).Does reply deeds' (some (.ok result)) := by
  obtain ⟨outcomes, before, after, each, -, rest⟩ := of_does_allValues does
  cases found : collect outcomes with
  | error error =>
    rw [found] at rest
    cases rest.2
  | ok values =>
    rw [found] at rest
    rw [eq_of_collect found, exprRoutines_eq_map] at each
    have all := forall₂_of_doesAll each
    rw [List.forall₂_map_left_iff, List.forall₂_map_right_iff] at all
    exact ⟨values, after, all, rest⟩

/-- Several expressions that can come to values do so side by side. -/
theorem doesAll_exprRoutines {bodies : List SlotExpr}
    (each : List.Forall₂ (setting.ComesTo reply) bodies values) :
    ∃ deeds, DoesAll reply (setting.exprRoutines bodies) deeds
      ((values.map Except.ok : List Outcome).map some) := by
  induction each with
  | nil => exact ⟨_, .nil⟩
  | cons here _ ih =>
    obtain ⟨_, does⟩ := here
    obtain ⟨_, others⟩ := ih
    exact ⟨_, .cons does others⟩

/-- **The values that a call in an expression can come to** are what the function makes of the
values that its arguments can come to. -/
theorem comesTo_call_iff {name : String} {entry : Entry}
    {body : List Value → Except FunctionError Value} {bodies : List SlotExpr} {result : Value}
    (bound : setting.executable.function? name = some entry)
    (kind : entry.kind = plainFunction body) (arity : entry.arityError? bodies.length = none) :
    setting.ComesTo reply (.call name bodies) result ↔
      ∃ values, List.Forall₂ (setting.ComesTo reply) bodies values ∧
        entry.outcome body values = .ok result := by
  constructor
  · rintro ⟨deeds, does⟩
    rw [exprRoutine] at does
    obtain ⟨values, _, each, ended⟩ := exists_comesTo_of_does does
    have same := eq_of_does_callRoutine_plain bound kind (each.length_eq ▸ arity) ended
    exact ⟨values, each, same.symm⟩
  · rintro ⟨values, each, same⟩
    obtain ⟨before, all⟩ := doesAll_exprRoutines each
    obtain ⟨after, called⟩ := @does_callRoutine_plain setting reply values _ _ _ bound kind
      (each.length_eq ▸ arity)
    rw [same] at called
    refine ⟨before + after, ?_⟩
    rw [exprRoutine]
    exact .join all (by rw [collect_map_ok]; exact called)

/-- If evaluating an expression comes to a value, it is this one. -/
def Yields (setting : Setting) (reply : Nat → Outcome → Prop) (body : SlotExpr) (value : Value) :
    Prop :=
  ∀ deeds result, (setting.exprRoutine body).Does reply deeds (some (.ok result)) → result = value

/-- If several expressions come to values, they are those that the expressions yield. -/
theorem eq_of_yields {bodies : List SlotExpr} {values values' : List Value}
    (yields : List.Forall₂ (setting.Yields reply) bodies values)
    (each : List.Forall₂ (setting.ComesTo reply) bodies values') : values' = values := by
  induction yields generalizing values' with
  | nil =>
    cases each
    rfl
  | cons first _ ih =>
    cases each with
    | cons here others =>
      obtain ⟨_, own⟩ := here
      rw [first _ _ own, ih others]

/-- If evaluating several expressions comes to values with which something comes to a value, they
are these. -/
theorem of_does_yields {bodies : List SlotExpr} {next : List Value → Routine} {result : Value}
    (yields : List.Forall₂ (setting.Yields reply) bodies values)
    (does : (allValues (setting.exprRoutines bodies) next).Does reply deeds
      (some (.ok result))) :
    ∃ deeds', (next values).Does reply deeds' (some (.ok result)) := by
  obtain ⟨values', deeds', each, rest⟩ := exists_comesTo_of_does does
  exact ⟨deeds', eq_of_yields yields each ▸ rest⟩

/-- A constant yields its value. -/
theorem yields_of_constant? {scope : Scope} {item : Expr} {body : SlotExpr} {value : Value}
    (constant : item.constant? = some value) (lowers : Lowers scope item body) :
    setting.Yields reply body value := by
  induction item generalizing body value with
  | const value' =>
    cases lowers
    cases constant
    intro deeds result does
    rw [exprRoutine] at does
    have same := eq_of_does_done does
    cases same
    rfl
  | list items ih =>
    obtain ⟨values, all, rfl⟩ := Option.map_eq_some_iff.1 constant
    cases lowers with
    | @list _ bodies each =>
      have constants := Expr.constants?_eq_some_iff.1 all
      have yields : List.Forall₂ (setting.Yields reply) bodies values :=
        forall₂_through (fun item _ _ member own lowers => ih item member own lowers) constants
          (lowersAll_iff.1 each)
      intro deeds result does
      rw [exprRoutine] at does
      obtain ⟨_, ended⟩ := of_does_yields yields does
      have same := eq_of_does_done ended
      cases same
      rfl
  | feature | call | custom => cases constant

/-- A feature yields the value that it has come to. -/
theorem yields_of_hasValue {session : Session} {requester : Option Nat} {name : String}
    {value : Value} (has : session.HasValue setting name value) :
    setting.Yields (session.state.Replies setting requester) (.feature name) value := by
  intro deeds result does
  obtain ⟨index, found, kept⟩ := has
  rw [exprRoutine, fetchNamed, found] at does
  -- A refusal would be an error.
  rcases reply_of_does_fetch does with kept' | ⟨names, refused, -⟩
  · rw [kept] at kept'
    cases kept'
    rfl
  · cases refused

/-- Fetching ahead comes to a value only if what follows does. -/
theorem of_does_prefetch_ok {names : List String} {next : Routine} {result : Value}
    (does : (setting.prefetch names next).Does reply deeds (some (.ok result))) :
    ∃ deeds', next.Does reply deeds' (some (.ok result)) := by
  obtain ⟨outcomes, before, after, -, -, rest⟩ := of_does_allValues does
  cases found : collect outcomes with
  | error error =>
    rw [found] at rest
    cases rest.2
  | ok values =>
    rw [found] at rest
    exact ⟨after, rest⟩

/-- A feature comes to a value only if its expression does. -/
theorem of_does_feature {index : Nat} {slot : Slot} {body : SlotExpr} {result : Value}
    (found : setting.graph.slots[index]? = some slot) (kind : slot.kind = .feature body)
    (does : (setting.slotRoutine index).Does reply deeds (some (.ok result))) :
    ∃ deeds', (setting.exprRoutine body).Does reply deeds' (some (.ok result)) := by
  simp only [slotRoutine, found, kind] at does
  exact of_does_prefetch_ok does

end Setting

/-! ## In an execution -/

/-- An argument has a value: it is a constant, or a feature that has come to it. -/
inductive Session.Gives (setting : Setting) (session : Session) : Expr → Value → Prop where
  /-- A constant. -/
  | const {item value} (constant : item.constant? = some value) : Gives setting session item value
  /-- A feature. -/
  | feature {name value} (has : session.HasValue setting name value) :
    Gives setting session (.feature name) value

/-- Constants and features hold no call sites. -/
theorem Session.Gives.isIdle {setting : Setting} {session : Session} {scope : Scope} {arg : Expr}
    {value : Value} (gives : session.Gives setting arg value) : arg.IsIdle scope := by
  cases gives with
  | const constant => exact Expr.isIdle_of_constant? constant
  | feature => exact Expr.isIdle_feature _

/-- What an argument is lowered to yields its value. -/
theorem Session.Gives.yields {setting : Setting} {session : Session} {scope : Scope}
    {requester : Option Nat} {arg : Expr} {body : SlotExpr} {value : Value}
    (gives : session.Gives setting arg value) (lowers : Lowers scope arg body) :
    setting.Yields (session.state.Replies setting requester) body value := by
  cases gives with
  | const constant => exact Setting.yields_of_constant? constant lowers
  | feature has =>
    cases lowers
    exact Setting.yields_of_hasValue has

namespace Execution

variable {graph : Graph} {program : Program} {config : EngineConfig} {options : ExecuteOptions}
  {history : History} {execution : Execution} {trace : Trace} {session : Session}
  {name : String} {result : Value} {values : List Value} {scope : Scope} {limit rounds : Nat}

/-- What a feature of a compiled program has come to, its definition comes to, rewritten and
lowered. -/
theorem Reaches.does_of_feature (compiled : compile? scope limit rounds program = .ok (some graph))
    (begun : (Executable.ofGraph graph scope config).execute options history = .ok execution)
    (reaches : execution.Reaches trace session) {item : Expr}
    (defined : .feature name item ∈ program)
    (has : session.HasValue execution.setting name result) :
    ∃ item' state state', rewrite scope limit item state = .ok (item', state') ∧
      (item' = .call inputFunction [] ∨ ∃ body index deeds, Lowers scope item' body ∧
        .feature name body ∈ graph.slots ∧
        (execution.setting.exprRoutine body).Does
          (session.state.Replies execution.setting (some index)) deeds (some (.ok result))) := by
  have built := (isCompiled_of_compile? compiled).built
  have started := started_of_execute built begun
  have isGraph := graph_of_execute begun
  obtain ⟨slots, hasSlots, -, inside⟩ := slots_of_compile? compiled defined
  cases hasSlots with
  | @feature _ _ item' state state' slot rewritten lowered =>
    refine ⟨item', state, state', rewritten, ?_⟩
    rcases lowerFeature_eq_ok lowered with ⟨isInput, -⟩ | ⟨body, lowers, rfl⟩
    · exact .inl isInput
    · obtain ⟨index, place, told⟩ := has.tells started reaches
      rw [isGraph] at place
      have member := inside _ (List.mem_singleton_self _)
      have found := Graph.getElem?_of_mem built.linked member place
      rw [← isGraph] at found
      obtain ⟨deeds, does⟩ := Setting.of_does_feature found rfl told
      exact .inr ⟨body, index, deeds, lowers, member, does⟩

/-- A feature that is a call of a function of its arguments alone comes to the outcome of the call
on the values of its arguments. -/
theorem outcome_eq_of_does {function : String} {args : List Expr} {body : SlotExpr} {entry : Entry}
    {run : List Value → Except FunctionError Value} {requester : Option Nat}
    {deeds : Multiset Deed}
    (begun : (Executable.ofGraph graph scope config).execute options history = .ok execution)
    (found : scope.lookup function = .ok entry) (root : entry.qualifiedName = function)
    (kind : entry.kind = plainFunction run) (member : .feature name body ∈ graph.slots)
    (lowers : Lowers scope (.call function args) body)
    (gives : List.Forall₂ (session.Gives execution.setting) args values)
    (does : (execution.setting.exprRoutine body).Does
      (session.state.Replies execution.setting requester) deeds (some (.ok result))) :
    entry.outcome run values = .ok result := by
  cases lowers with
  | @call _ _ entry' bodies _ found' _ accepts each =>
    rw [found] at found'
    cases found'
    rw [root] at member does
    obtain ⟨fixed, -⟩ := eq_of_execute begun
    -- The graph calls the function, so its name is bound to it.
    have called : function ∈ Executable.calledNames graph :=
      @Executable.mem_calledNames _ _ _ (function, bodies.length) member List.mem_cons_self
        List.mem_cons_self
    have bound : execution.setting.executable.function? function = some entry := by
      rw [fixed]
      exact Executable.function?_ofGraph called found
    have lowered := lowersAll_iff.1 each
    have yields : List.Forall₂ (execution.setting.Yields
        (session.state.Replies execution.setting requester)) bodies values :=
      forall₂_through (fun _ _ _ _ own lowers => own.yields lowers) gives lowered
    have arity : entry.arityError? bodies.length = none :=
      lowered.length_eq ▸ Entry.arityError?_eq_none accepts
    obtain ⟨values', all, same⟩ := (Setting.comesTo_call_iff bound kind arity).1 ⟨deeds, does⟩
    exact Setting.eq_of_yields yields all ▸ same

/-- **A feature that is a call of a function of its arguments alone has come to the outcome of the
call** on the values of its arguments. -/
theorem Reaches.outcome_eq {function : String} {args : List Expr} {entry : Entry}
    {run : List Value → Except FunctionError Value}
    (compiled : compile? scope limit rounds program = .ok (some graph))
    (begun : (Executable.ofGraph graph scope config).execute options history = .ok execution)
    (reaches : execution.Reaches trace session) (proper : function ≠ inputFunction)
    (found : scope.lookup function = .ok entry) (root : entry.qualifiedName = function)
    (kind : entry.kind = plainFunction run)
    (defined : .feature name (.call function args) ∈ program)
    (gives : List.Forall₂ (session.Gives execution.setting) args values)
    (has : session.HasValue execution.setting name result) :
    entry.outcome run values = .ok result := by
  have idle : (Expr.call function args).IsIdle scope := by
    refine Expr.isIdle_call found (fun hook same => ?_) fun arg member => ?_
    · rw [kind] at same
      cases same
    · obtain ⟨value, -, own⟩ := exists_mem_of_forall₂ gives.flip member
      exact own.isIdle
  obtain ⟨item, _, _, rewritten, lowered⟩ := reaches.does_of_feature compiled begun defined has
  -- Nothing is rewritten in the call.
  rw [rewrite_of_isIdle idle] at rewritten
  cases rewritten
  rcases lowered with isInput | ⟨body, index, deeds, lowers, member, does⟩
  · rw [Expr.call.injEq] at isInput
    exact absurd isInput.1 proper
  · exact outcome_eq_of_does begun found root kind member lowers gives does

end Execution

end RuleGraph
