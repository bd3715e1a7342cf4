import RuleGraph.Proofs.Compile.Added

/-! # What hooks ask of a compilation

While a program is compiled, hooks ask for names and define features. What they ask, and what they
are told, is read off the steps of the compilation, also of one that fails or does not come to an
end.

* **`HookCall`** — what a hook asks, and the answer.
* **`CompileState.Calls`** — calls one after the other, from one state to another.
* **`CompileState.Calls.defined_eq`** — what is defined is what hooks were allowed to define.
* **`Traces`** — steps of a compilation with the calls that are made meanwhile.
* **`Program.hookCalls`** — the calls that are made while a program is compiled.
* **`Program.traces`** — they lead from the first state of the compilation to its last one.
-/

namespace RuleGraph

/-- What a hook asks of a compilation, and the answer. -/
inductive HookCall where
  /-- A name with a stem, which is this one. -/
  | fresh (stem name : String)
  /-- A feature to be defined, which is accepted or refused. -/
  | define (name : String) (body : Expr) (accepted : Bool)

/-- Calls are made one after the other, from one state to another. What is pending may be taken up
meanwhile. -/
inductive CompileState.Calls : CompileState → List HookCall → CompileState → Prop where
  /-- No call is made. -/
  | done {state : CompileState} : Calls state [] state
  /-- What is pending is taken up. -/
  | taken {state state' : CompileState} {calls : List HookCall} {pending : List (String × Expr)}
    (later : Calls { state with pending } calls state') : Calls state calls state'
  /-- A name is asked for. -/
  | fresh {state state' : CompileState} {calls : List HookCall} {stem : String}
    (later : Calls (state.freshName stem).2 calls state') :
    Calls state (.fresh stem (state.freshName stem).1 :: calls) state'
  /-- A feature is defined. -/
  | accepted {state between state' : CompileState} {calls : List HookCall} {name : String}
    {body : Expr} (defined : state.define name body = .ok between)
    (later : Calls between calls state') :
    Calls state (.define name body true :: calls) state'
  /-- A feature is refused. -/
  | refused {state state' : CompileState} {calls : List HookCall} {name : String} {body : Expr}
    {error : CompileError} (failed : state.define name body = .error error)
    (later : Calls state calls state') :
    Calls state (.define name body false :: calls) state'

/-- Calls that follow on others. -/
theorem CompileState.Calls.append {state state' state'' : CompileState}
    {calls calls' : List HookCall} (first : state.Calls calls state')
    (second : state'.Calls calls' state'') : state.Calls (calls ++ calls') state'' := by
  induction first with
  | done => exact second
  | taken _ ih => exact .taken (ih second)
  | fresh _ ih => exact .fresh (ih second)
  | accepted defined _ ih => exact .accepted defined (ih second)
  | refused failed _ ih => exact .refused failed (ih second)

namespace HookCall

/-- The name that is given out in a call. -/
def given? : HookCall → Option String
  | .fresh _ name => some name
  | .define _ _ _ => none

/-- The name of the feature that is accepted in a call. -/
def accepted? : HookCall → Option String
  | .define name _ true => some name
  | _ => none

/-- The names that are given out in calls. -/
def generated (calls : List HookCall) : List String :=
  calls.filterMap given?

/-- The names of the features that are accepted in calls. -/
def defined (calls : List HookCall) : List String :=
  calls.filterMap accepted?

variable {calls : List HookCall} {name : String}

@[simp] theorem generated_fresh {stem : String} :
    generated (.fresh stem name :: calls) = name :: generated calls := rfl

@[simp] theorem defined_accepted {body : Expr} :
    defined (.define name body true :: calls) = name :: defined calls := rfl

end HookCall

namespace CompileState.Calls

variable {state state' : CompileState} {calls : List HookCall}

/-- What is defined is what was, and what is accepted. -/
theorem defined_eq (made : state.Calls calls state') :
    state'.defined = (HookCall.defined calls).reverse ++ state.defined := by
  induction made with
  | done => rfl
  | taken _ ih => exact ih
  | fresh _ ih => exact ih
  | accepted defined _ ih =>
    rw [ih, (adds_of_define defined).defined, HookCall.defined_accepted, List.reverse_cons,
      List.append_assoc]
    rfl
  | refused _ _ ih => exact ih

/-- The names of accepted features are distinct, and different from those that were defined. -/
theorem nodup_defined (made : state.Calls calls state') :
    (HookCall.defined calls).Nodup ∧ ∀ name ∈ HookCall.defined calls, name ∉ state.defined := by
  induction made with
  | done => exact ⟨.nil, nofun⟩
  | taken _ ih => exact ih
  | fresh _ ih => exact ih
  | @accepted state between _ _ name _ defined _ ih =>
    obtain ⟨nodup, apart⟩ := ih
    have adds := (adds_of_define defined).defined
    have fresh : name ∉ state.defined := by
      intro old
      rw [define, isDefined, if_pos (decide_eq_true old)] at defined
      cases defined
    rw [HookCall.defined_accepted]
    refine ⟨List.nodup_cons.2 ⟨fun again => ?_, nodup⟩, List.forall_mem_cons.2 ⟨fresh, ?_⟩⟩
    · exact apart name again (adds ▸ List.mem_cons_self)
    · exact fun other later old => apart other later (adds ▸ List.mem_cons_of_mem _ old)
  | refused _ _ ih => exact ih

end CompileState.Calls

/-! ## Steps of a compilation -/

section

variable {σ α β : Type}

/-- Calls that are made during steps, and then during those that follow unless they fail. -/
def callsThen (step : StateT σ (Except CompileError) α) (calls : σ → List HookCall)
    (next : α → σ → List HookCall) (state : σ) : List HookCall :=
  calls state ++
    match step state with
    | .ok (result, state) => next result state
    | .error _ => []

/-- Calls that are made during steps for each member of a list, up to the first ones that fail. -/
def callsEach (step : α → β → StateT σ (Except CompileError) α)
    (calls : α → β → σ → List HookCall) : List β → α → σ → List HookCall
  | [], _ => fun _ => []
  | b :: rest, a => callsThen (step a b) (calls a b) (callsEach step calls rest)

/-- Calls that are made during steps: from any state on, whether the steps succeed or not, and up to
the state that they come to if they do. -/
def Traces (part : σ → CompileState) (step : StateT σ (Except CompileError) α)
    (calls : σ → List HookCall) : Prop :=
  ∀ state, (∃ after, (part state).Calls (calls state) after) ∧
    ∀ result state', step state = .ok (result, state') →
      (part state).Calls (calls state) (part state')

variable {part : σ → CompileState} {step : StateT σ (Except CompileError) α}
  {next : α → StateT σ (Except CompileError) β} {calls : σ → List HookCall}
  {more : α → σ → List HookCall}

/-- No call is made during steps that leave the state of the compilation as it is. -/
theorem Traces.silent
    (still : ∀ state result state', step state = .ok (result, state') → part state' = part state) :
    Traces part step fun _ => [] :=
  fun state => ⟨⟨_, .done⟩, fun result state' ran => still state result state' ran ▸ .done⟩

/-- Steps one after the other. -/
theorem Traces.bind (first : Traces part step calls)
    (second : ∀ result, Traces part (next result) (more result)) :
    Traces part (step >>= next) (callsThen step calls more) := by
  intro state
  obtain ⟨⟨stop, some⟩, whole⟩ := first state
  unfold callsThen
  show _ ∧ ∀ result state', step state >>= (fun run => next run.1 run.2) = .ok (result, state') → _
  cases ran : step state with
  | error error =>
    refine ⟨⟨stop, ?_⟩, fun result state' none => ?_⟩
    · rwa [List.append_nil]
    · cases none
  | ok run =>
    obtain ⟨result, between⟩ := run
    obtain ⟨⟨stop', some'⟩, whole'⟩ := second result between
    have here := whole result between ran
    exact ⟨⟨stop', here.append some'⟩,
      fun result' state' ran' => here.append (whole' result' state' ran')⟩

/-- No call is made during further steps that leave the state of the compilation as it is. -/
theorem Traces.bind_silent (first : Traces part step calls)
    (still : ∀ result state result' state', next result state = .ok (result', state') →
      part state' = part state) :
    Traces part (step >>= next) calls := by
  have both := first.bind fun result => Traces.silent (still result)
  have same : callsThen step calls (fun _ _ => []) = calls := by
    funext state
    rw [callsThen]
    split <;> exact List.append_nil _
  rwa [same] at both

/-- Steps for each member of a list. -/
theorem Traces.foldlM {step : α → β → StateT σ (Except CompileError) α}
    {calls : α → β → σ → List HookCall} (each : ∀ a b, Traces part (step a b) (calls a b))
    (bs : List β) (a : α) : Traces part (bs.foldlM step a) (callsEach step calls bs a) := by
  induction bs generalizing a with
  | nil =>
    refine .silent fun state result state' ran => ?_
    cases ran
    rfl
  | cons b rest ih =>
    rw [List.foldlM_cons]
    exact (each a b).bind ih

end

variable {scope : Scope} {limit : Nat}

/-! ## Rewriting -/

/-- The calls that a hook makes. -/
def Hook.calls (scope : Scope) : Hook → CompileState → List HookCall
  | .finish _, _ => []
  | .freshName stem next, state =>
    let (name, state) := state.freshName stem
    .fresh stem name :: calls scope (next name) state
  | .define name body next, state =>
    match state.define name body with
    | .ok state => .define name body true :: calls scope (next (.ok ())) state
    | .error error => .define name body false :: calls scope (next (.error error)) state
  | .isDefined name next, state => calls scope (next (state.isDefined name)) state
  | .lookup name next, state => calls scope (next ((scope.lookup name).map Entry.info)) state

/-- The calls that are made at a call site with raw text. -/
def rewriteCustomCalls (scope : Scope) (node : CustomNode) (pass : Pass) : List HookCall :=
  match scope.lookup node.function with
  | .error _ => []
  | .ok entry =>
    match entry.kind with
    | .custom hook => (hook node).calls scope pass.state
    | _ => []

mutual

/-- The calls that are made during a pass over an expression. -/
def rewriteOnceCalls (scope : Scope) : Expr → Pass → List HookCall
  | .const _ | .feature _ => fun _ => []
  | .list items => rewriteAllCalls scope items
  | .call _ args => rewriteAllCalls scope args
  | .custom function source => rewriteCustomCalls scope ⟨function, source⟩

/-- The calls that are made during a pass over several expressions. -/
def rewriteAllCalls (scope : Scope) : List Expr → Pass → List HookCall
  | [] => fun _ => []
  | item :: rest =>
    callsThen (rewriteOnce scope item) (rewriteOnceCalls scope item) fun _ =>
      rewriteAllCalls scope rest

end

/-- The calls that are made during at most so many passes over an expression. -/
def rewritePassesCalls (scope : Scope) : Nat → Expr → CompileState → List HookCall
  | 0, _, _ => []
  | passes + 1, body, state =>
    rewriteOnceCalls scope body { state } ++
      match rewriteOnce scope body { state } with
      | .ok (body, ⟨state, some _⟩) => rewritePassesCalls scope passes body state
      | _ => []

/-- The calls that are made while an expression is rewritten. -/
def rewriteCalls (scope : Scope) (limit : Nat) (body : Expr) : CompileState → List HookCall :=
  rewritePassesCalls scope (limit + 1) body

/-- A hook makes its calls. -/
theorem Hook.traces (scope : Scope) (hook : Hook) :
    Traces id (hook.run scope) (hook.calls scope) := by
  induction hook with
  | finish found =>
    refine .silent fun state result state' ran => ?_
    cases found with
    | ok result =>
      cases ran
      rfl
    | error error => cases ran
  | freshName stem next ih =>
    intro state
    obtain ⟨⟨stop, some⟩, whole⟩ := ih (state.freshName stem).1 (state.freshName stem).2
    exact ⟨⟨stop, .fresh some⟩, fun result state' ran => .fresh (whole result state' ran)⟩
  | define name body next ih =>
    intro state
    rw [calls, run]
    cases defined : state.define name body with
    | ok between =>
      obtain ⟨⟨stop, some⟩, whole⟩ := ih (.ok ()) between
      exact ⟨⟨stop, .accepted defined some⟩,
        fun result state' ran => .accepted defined (whole result state' ran)⟩
    | error error =>
      obtain ⟨⟨stop, some⟩, whole⟩ := ih (.error error) state
      exact ⟨⟨stop, .refused defined some⟩,
        fun result state' ran => .refused defined (whole result state' ran)⟩
  | isDefined name next ih => exact fun state => ih _ state
  | lookup name next ih => exact fun state => ih _ state

/-- The calls at a call site with raw text are those of its hook. -/
theorem rewriteCustom_traces (node : CustomNode) :
    Traces Pass.state (rewriteCustom scope node) (rewriteCustomCalls scope node) := by
  intro pass
  unfold rewriteCustom rewriteCustomCalls
  cases scope.lookup node.function with
  | error error => exact ⟨⟨_, .done⟩, nofun⟩
  | ok entry =>
    dsimp only
    cases entry.kind with
    | custom hook =>
      obtain ⟨stop, whole⟩ := (hook node).traces scope pass.state
      refine ⟨stop, fun result pass' ran => ?_⟩
      dsimp only at ran
      split at ran
      · rename_i hooked
        cases ran
        exact whole _ _ hooked
      · cases ran
    | _ => exact ⟨⟨_, .done⟩, nofun⟩

/-- The calls during a pass over several expressions are those over each of them. -/
theorem rewriteAll_traces {items : List Expr} (each : ∀ item ∈ items,
    Traces Pass.state (rewriteOnce scope item) (rewriteOnceCalls scope item)) :
    Traces Pass.state (rewriteAll scope items) (rewriteAllCalls scope items) := by
  induction items with
  | nil =>
    refine .silent fun pass result pass' ran => ?_
    cases ran
    rfl
  | cons item rest ih =>
    obtain ⟨onItem, onRest⟩ := List.forall_mem_cons.1 each
    rw [rewriteAll]
    refine onItem.bind fun first => (ih onRest).bind_silent fun others pass result pass' ran => ?_
    cases ran
    rfl

/-- The calls during a pass over an expression. -/
theorem rewriteOnce_traces (body : Expr) :
    Traces Pass.state (rewriteOnce scope body) (rewriteOnceCalls scope body) := by
  induction body with
  | const | feature =>
    refine .silent fun pass result pass' ran => ?_
    cases ran
    rfl
  | list items ih =>
    rw [rewriteOnce]
    refine (rewriteAll_traces ih).bind_silent fun others pass result pass' ran => ?_
    cases ran
    rfl
  | call function args ih =>
    rw [rewriteOnce]
    exact (rewriteAll_traces ih).bind_silent fun others pass result pass' => rewriteCall_state
  | custom function source => exact rewriteCustom_traces ⟨function, source⟩

/-- **The calls that are made while an expression is rewritten.** -/
theorem rewrite_traces (body : Expr) :
    Traces id (rewrite scope limit body) (rewriteCalls scope limit body) := by
  have passes : ∀ count last body,
      Traces id (rewritePasses scope limit count last body) (rewritePassesCalls scope count body) := by
    intro count
    induction count with
    | zero => exact fun last body state => ⟨⟨_, .done⟩, fun _ _ ran => by cases ran⟩
    | succ count ih =>
      intro last body state
      obtain ⟨⟨stop, begun⟩, whole⟩ := @rewriteOnce_traces scope body { state }
      rw [rewritePasses, rewritePassesCalls]
      cases once : rewriteOnce scope body { state } with
      | error error =>
        refine ⟨⟨stop, ?_⟩, fun _ _ ran => by cases ran⟩
        rwa [List.append_nil]
      | ok run =>
        obtain ⟨body', between, applied⟩ := run
        have here := whole _ _ once
        cases applied with
        | none =>
          rw [List.append_nil]
          refine ⟨⟨stop, begun⟩, fun result state' ran => ?_⟩
          cases ran
          exact here
        -- The pass has replaced something, so there is another one.
        | some name =>
          obtain ⟨⟨stop', begun'⟩, whole'⟩ := ih (some name) body' between
          exact ⟨⟨stop', here.append begun'⟩,
            fun result state' ran => here.append (whole' result state' ran)⟩
  exact passes (limit + 1) none body

/-! ## Lowering -/

/-- What has no effect on the compilation leaves its state as it is. -/
theorem CompileM.eq_of_lift {α : Type} {step : Except CompileError α} {result : α}
    {state state' : CompileState}
    (ran : (liftM step : CompileM α) state = .ok (result, state')) : state' = state := by
  have steps : (step >>= fun result => .ok (result, state)) = .ok (result, state') := ran
  obtain ⟨_, -, same⟩ := RuleGraph.bind_eq_ok_iff.1 steps
  cases same
  rfl

namespace Lowered

/-- The calls that are made while a statement is lowered. -/
def statementCalls (scope : Scope) (limit : Nat) : Expr → CompileState → List HookCall
  | .call function args => rewriteCalls scope limit (.call function args)
  | _ => fun _ => []

/-- The calls that are made while statements are lowered. -/
def statementsCalls (scope : Scope) (limit : Nat) (condition : Option SlotExpr)
    (lowered : Lowered) (calls : List Expr) : CompileState → List HookCall :=
  callsEach (addStatement scope limit condition) (fun _ => statementCalls scope limit) calls
    lowered

/-- The calls that are made while a definition is lowered. -/
def definitionCalls (scope : Scope) (limit : Nat) (lowered : Lowered) :
    Definition → CompileState → List HookCall
  | .feature _ body => rewriteCalls scope limit body
  | .rule none calls => lowered.statementsCalls scope limit none calls
  | .rule (some condition) calls =>
    callsThen (rewrite scope limit condition) (rewriteCalls scope limit condition)
      fun condition => callsThen (liftM (lowerValue scope condition)) (fun _ => [])
        fun condition => lowered.statementsCalls scope limit (some condition) calls

/-- The calls that are made while features are lowered that hooks have added. -/
def featuresCalls (scope : Scope) (limit : Nat) (lowered : Lowered)
    (features : List (String × Expr)) : CompileState → List HookCall :=
  callsEach (fun lowered (name, body) => lowered.addFeature scope limit name body)
    (fun _ feature => rewriteCalls scope limit feature.2) features lowered

/-- The calls that are made in at most so many rounds of lowering such features. -/
def pendingCalls (scope : Scope) (limit : Nat) : Nat → Lowered → CompileState → List HookCall
  | 0, _, _ => []
  | rounds + 1, lowered, state =>
    if state.pending.isEmpty then []
    else callsThen (state.pending.foldlM
        (fun lowered (name, body) => lowered.addFeature scope limit name body) lowered)
      (lowered.featuresCalls scope limit state.pending) (pendingCalls scope limit rounds)
      { state with pending := [] }

/-- The calls that are made while a feature is lowered. -/
theorem addFeature_traces (lowered : Lowered) (name : String) (body : Expr) :
    Traces id (lowered.addFeature scope limit name body) (rewriteCalls scope limit body) := by
  refine (rewrite_traces body).bind_silent fun body state result state' ran => ?_
  obtain ⟨slot, between, made, last⟩ := CompileM.bind_eq_ok_iff.1 ran
  cases last
  exact CompileM.eq_of_lift made

/-- The calls that are made while a statement is lowered. -/
theorem addStatement_traces (condition : Option SlotExpr) (lowered : Lowered) (call : Expr) :
    Traces id (lowered.addStatement scope limit condition call)
      (statementCalls scope limit call) := by
  unfold addStatement statementCalls
  cases call with
  | call function args =>
    refine (rewrite_traces _).bind_silent fun body state result state' ran => ?_
    obtain ⟨slot, between, made, last⟩ := CompileM.bind_eq_ok_iff.1 ran
    cases last
    exact CompileM.eq_of_lift made
  | _ => exact .silent nofun

/-- The calls that are made while a definition is lowered. -/
theorem addDefinition_traces (lowered : Lowered) (definition : Definition) :
    Traces id (lowered.addDefinition scope limit definition)
      (lowered.definitionCalls scope limit definition) := by
  unfold addDefinition definitionCalls
  match definition with
  | .feature name body => exact lowered.addFeature_traces name body
  | .rule none calls => exact .foldlM (addStatement_traces none) calls lowered
  | .rule (some condition) calls =>
    refine (rewrite_traces condition).bind fun condition => ?_
    refine .bind (.silent fun state result state' ran => CompileM.eq_of_lift ran) fun condition => ?_
    exact .foldlM (addStatement_traces (some condition)) calls lowered

/-- The calls that are made while features are lowered that hooks have added. -/
theorem addPending_traces (rounds : Nat) (lowered : Lowered) :
    Traces id (lowered.addPending scope limit rounds)
      (lowered.pendingCalls scope limit rounds) := by
  induction rounds generalizing lowered with
  | zero =>
    refine .silent fun state result state' ran => ?_
    obtain ⟨_, _, same, run⟩ := CompileM.bind_eq_ok_iff.1 ran
    cases same
    cases run
    rfl
  | succ rounds ih =>
    intro state
    rw [pendingCalls]
    cases empty : state.pending.isEmpty with
    | true =>
      refine ⟨⟨_, .done⟩, fun result state' ran => ?_⟩
      obtain ⟨_, _, same, ran⟩ := CompileM.bind_eq_ok_iff.1 ran
      cases same
      rw [if_pos empty] at ran
      cases ran
      exact .done
    | false =>
      obtain ⟨⟨stop, begun⟩, whole⟩ := ((Traces.foldlM
        (fun lowered feature => addFeature_traces lowered feature.1 feature.2) state.pending
        lowered).bind ih) { state with pending := [] }
      refine ⟨⟨stop, .taken begun⟩, fun result state' ran => .taken (whole result state' ?_)⟩
      obtain ⟨_, _, same, ran⟩ := CompileM.bind_eq_ok_iff.1 ran
      cases same
      rw [if_neg (Bool.eq_false_iff.1 empty)] at ran
      exact ran

end Lowered

/-- **The calls that hooks make while a program is compiled**, in at most so many rounds. -/
def Program.hookCalls (scope : Scope) (limit rounds : Nat) (program : Program) : List HookCall :=
  callsThen (program.foldlM (Lowered.addDefinition scope limit) {})
    (callsEach (Lowered.addDefinition scope limit) (Lowered.definitionCalls scope limit) program {})
    (Lowered.pendingCalls scope limit rounds) { defined := program.featureNames }

/-- They lead from the first state of the compilation to its last one. -/
theorem Program.traces (scope : Scope) (limit rounds : Nat) (program : Program) :
    (∃ after, CompileState.Calls { defined := program.featureNames }
      (program.hookCalls scope limit rounds) after) ∧
    ∀ found state, (do
        let lowered ← program.foldlM (Lowered.addDefinition scope limit) {}
        lowered.addPending scope limit rounds : CompileM (Option Lowered))
          { defined := program.featureNames } = .ok (found, state) →
      CompileState.Calls { defined := program.featureNames } (program.hookCalls scope limit rounds)
        state :=
  (Traces.foldlM Lowered.addDefinition_traces program {}).bind
    (Lowered.addPending_traces rounds) { defined := program.featureNames }

end RuleGraph
