import Mathlib.CategoryTheory.CofilteredSystem
import Mathlib.CategoryTheory.Functor.OfSequence
import RuleGraph.Proofs.Compile.FreshNames

/-! # Rounds of a compilation

The features that hooks add are lowered in rounds: those that are added during a round are for the
next one. Rewriting one feature ends, but nothing bounds the number of rounds.

* **`Lowered.Rounds`** — rounds one after the other, each with something to lower.
* **`compile?_eq_none_iff`** — a compilation has not ended if and only if something is pending.
* **`Program.Spawns`** — a feature of a round during whose lowering another one is added.
* **`exists_chain`** — where each of infinitely many rounds has a feature, there is a chain of them.
* **`compilation_ends_iff`** — a compilation ends unless there is such a chain of features.
* **`compilation_endless`** — there are hooks with which it does not end.
-/

namespace RuleGraph

variable {scope : Scope} {limit rounds : Nat} {program : Program}

namespace Lowered

variable {here between there : Lowered} {state state' state'' : CompileState}

/-- Rewrite and lower features one after the other. -/
def addFeatures (scope : Scope) (limit : Nat) (lowered : Lowered)
    (features : List (String × Expr)) : CompileM Lowered :=
  features.foldlM (fun lowered (name, body) => lowered.addFeature scope limit name body) lowered

/-- A round: what is pending is lowered, and what hooks add meanwhile is pending after it. -/
def round (scope : Scope) (limit : Nat) (lowered : Lowered) : CompileM Lowered := fun state =>
  lowered.addFeatures scope limit state.pending { state with pending := [] }

/-- So many rounds one after the other, each with something to lower. -/
inductive Rounds (scope : Scope) (limit : Nat) :
    Nat → Lowered → CompileState → Lowered → CompileState → Prop where
  /-- There are none. -/
  | start {here : Lowered} {state : CompileState} : Rounds scope limit 0 here state here state
  /-- One more round. -/
  | round {here between there : Lowered} {state state' state'' : CompileState} {rounds : Nat}
    (before : Rounds scope limit rounds here state between state') (busy : state'.pending ≠ [])
    (ran : between.round scope limit state' = .ok (there, state'')) :
    Rounds scope limit (rounds + 1) here state there state''

/-- The first of several rounds. -/
theorem Rounds.cons (busy : state.pending ≠ [])
    (ran : here.round scope limit state = .ok (between, state'))
    (later : Rounds scope limit rounds between state' there state'') :
    Rounds scope limit (rounds + 1) here state there state'' := by
  induction later with
  | start => exact .round .start busy ran
  | round _ busy' ran' ih => exact .round (ih ran) busy' ran'

/-- What so many rounds come to is determined. -/
theorem Rounds.unique {there' : Lowered} {last last' : CompileState}
    (first : Rounds scope limit rounds here state there last)
    (second : Rounds scope limit rounds here state there' last') : there' = there ∧ last' = last := by
  induction first generalizing there' last' with
  | start =>
    cases second
    exact ⟨rfl, rfl⟩
  | round _ _ ran ih =>
    cases second with
    | round before' _ ran' =>
      obtain ⟨rfl, rfl⟩ := ih before'
      cases ran.symm.trans ran'
      exact ⟨rfl, rfl⟩

/-- With no rounds left, something may still be pending. -/
theorem addPending_zero (lowered : Lowered) (state : CompileState) :
    lowered.addPending scope limit 0 state =
      .ok (if state.pending.isEmpty then some lowered else none, state) := rfl

/-- Where nothing is pending, no round is needed. -/
theorem addPending_of_isEmpty (lowered : Lowered) (empty : state.pending.isEmpty = true) :
    lowered.addPending scope limit rounds state = .ok (some lowered, state) := by
  cases rounds with
  | zero => rw [addPending_zero, if_pos empty]
  | succ rounds =>
    show (if state.pending.isEmpty then _ else _ : CompileM (Option Lowered)) state = _
    rw [if_pos empty]
    rfl

/-- Where something is pending, there is a round. -/
theorem addPending_succ (lowered : Lowered) (busy : state.pending.isEmpty = false) :
    lowered.addPending scope limit (rounds + 1) state =
      (lowered.round scope limit >>= addPending scope limit rounds) state := by
  show (if state.pending.isEmpty then _ else _ : CompileM (Option Lowered)) state = _
  rw [if_neg (Bool.eq_false_iff.1 busy)]
  rfl

/-- Several rounds begin with one. -/
theorem Rounds.exists_first (all : Rounds scope limit (rounds + 1) here state there state'') :
    ∃ between state', state.pending ≠ [] ∧ here.round scope limit state = .ok (between, state') ∧
      Rounds scope limit rounds between state' there state'' := by
  induction rounds generalizing there state'' with
  | zero =>
    cases all with
    | round before busy ran =>
      cases before
      exact ⟨_, _, busy, ran, .start⟩
  | succ rounds ih =>
    cases all with
    | round before busy ran =>
      obtain ⟨between, state', busy', ran', later⟩ := ih before
      exact ⟨between, state', busy', ran', later.round busy ran⟩

/-- **Features are left over** if and only if there were so many rounds and something is pending
after them. -/
theorem addPending_eq_none_iff : here.addPending scope limit rounds state = .ok (none, state') ↔
    ∃ there, Rounds scope limit rounds here state there state' ∧ state'.pending ≠ [] := by
  induction rounds generalizing here state with
  | zero =>
    rw [addPending_zero]
    cases empty : state.pending.isEmpty with
    | true =>
      refine iff_of_false nofun ?_
      rintro ⟨_, ⟨⟩, busy⟩
      exact busy (List.isEmpty_iff.1 empty)
    | false =>
      refine ⟨fun same => ?_, ?_⟩
      · cases same
        exact ⟨_, .start, List.isEmpty_eq_false_iff.1 empty⟩
      · rintro ⟨_, ⟨⟩, -⟩
        rfl
  | succ rounds ih =>
    cases empty : state.pending.isEmpty with
    | true =>
      rw [addPending_of_isEmpty here empty]
      refine iff_of_false nofun fun ⟨there, all, _⟩ => ?_
      obtain ⟨-, -, busy, -⟩ := all.exists_first
      exact busy (List.isEmpty_iff.1 empty)
    | false =>
      rw [addPending_succ here empty, CompileM.bind_eq_ok_iff]
      constructor
      · rintro ⟨between, state', ran, later⟩
        obtain ⟨there, all, busy⟩ := ih.1 later
        exact ⟨there, .cons (List.isEmpty_eq_false_iff.1 empty) ran all, busy⟩
      · rintro ⟨there, all, busy⟩
        obtain ⟨between, state', -, ran, later⟩ := all.exists_first
        exact ⟨between, state', ran, ih.2 ⟨there, later, busy⟩⟩

/-- More rounds make no difference once nothing is left over. -/
theorem addPending_add (ended : ∀ state', here.addPending scope limit rounds state ≠
    .ok (none, state')) (more : Nat) :
    here.addPending scope limit (rounds + more) state = here.addPending scope limit rounds state := by
  induction rounds generalizing here state with
  | zero =>
    cases empty : state.pending.isEmpty with
    | true => rw [addPending_of_isEmpty here empty, addPending_of_isEmpty here empty]
    | false =>
      refine absurd ?_ (ended state)
      rw [addPending_zero, empty]
      rfl
  | succ rounds ih =>
    cases empty : state.pending.isEmpty with
    | true => rw [addPending_of_isEmpty here empty, addPending_of_isEmpty here empty]
    | false =>
      rw [addPending_succ here empty] at ended
      rw [Nat.add_right_comm, addPending_succ here empty, addPending_succ here empty]
      show here.round scope limit state >>= _ = here.round scope limit state >>= _
      cases ran : here.round scope limit state with
      | error error => rfl
      | ok run =>
        exact ih fun state' none => ended state' (CompileM.bind_eq_ok_iff.2 ⟨_, _, ran, none⟩)

/-- A feature that is pending after others were lowered was pending before, or was added while one
of them was lowered. -/
theorem exists_of_mem_pending {features : List (String × Expr)} {added : String × Expr}
    (ran : here.addFeatures scope limit features state = .ok (there, state'))
    (pending : added ∈ state'.pending) :
    added ∈ state.pending ∨ ∃ before feature after between between' started ended names,
      features = before ++ feature :: after ∧
      here.addFeatures scope limit before state = .ok (between, started) ∧
      between.addFeature scope limit feature.1 feature.2 started = .ok (between', ended) ∧
      started.Adds names ended ∧ added ∈ names := by
  induction features generalizing here state with
  | nil =>
    cases ran
    exact .inl pending
  | cons feature rest ih =>
    rw [addFeatures, List.foldlM_cons] at ran
    obtain ⟨next, ended, first, ran⟩ := CompileM.bind_eq_ok_iff.1 ran
    obtain ⟨-, names, -, -, adds⟩ := adds_of_addFeature first
    rcases ih ran with old | ⟨before, other, after, between, between', started, ended', names',
      rfl, front, own, adds', inside⟩
    · rw [adds.pending, List.mem_append] at old
      exact old.imp id fun new =>
        ⟨[], feature, rest, here, next, state, ended, names, rfl, rfl, first, adds, new⟩
    · refine .inr ⟨feature :: before, other, after, between, between', started, ended', names',
        rfl, ?_, own, adds', inside⟩
      rw [addFeatures, List.foldlM_cons]
      exact CompileM.bind_eq_ok_iff.2 ⟨next, ended, first, front⟩

end Lowered

namespace Program

/-- What a compilation has come to after so many rounds, each with something to lower. -/
def Generation (scope : Scope) (limit : Nat) (program : Program) (rounds : Nat) (here : Lowered)
    (state : CompileState) : Prop :=
  ∃ first between, (program.foldlM (Lowered.addDefinition scope limit) {} : CompileM Lowered)
      { defined := program.featureNames } = .ok (first, between) ∧
    Lowered.Rounds scope limit rounds first between here state

/-- In a round, a feature is added while another one is lowered, of those that are pending before
the round. -/
inductive Spawns (scope : Scope) (limit : Nat) (program : Program) (round : Nat)
    (feature spawned : String × Expr) : Prop where
  /-- Those before it are lowered, and then it is. -/
  | adds {here between there : Lowered} {state started ended : CompileState}
    {before after names : List (String × Expr)}
    (come : program.Generation scope limit round here state)
    (pending : state.pending = before ++ feature :: after)
    (front : here.addFeatures scope limit before { state with pending := [] } =
      .ok (between, started))
    (own : between.addFeature scope limit feature.1 feature.2 started = .ok (there, ended))
    (adds : started.Adds names ended) (added : spawned ∈ names)

variable {here here' : Lowered} {state state' : CompileState}

/-- What a compilation comes to is determined. -/
theorem Generation.unique (first : program.Generation scope limit rounds here state)
    (second : program.Generation scope limit rounds here' state') : here' = here ∧ state' = state := by
  obtain ⟨lowered, between, ran, all⟩ := first
  obtain ⟨lowered', between', ran', all'⟩ := second
  cases ran.symm.trans ran'
  exact all.unique all'

/-- What is pending after a round was added while a feature was lowered that was pending before. -/
theorem Generation.exists_spawns (come : program.Generation scope limit rounds here state)
    (next : program.Generation scope limit (rounds + 1) here' state') {spawned : String × Expr}
    (pending : spawned ∈ state'.pending) :
    ∃ feature ∈ state.pending, program.Spawns scope limit rounds feature spawned := by
  obtain ⟨first, between, ran, all⟩ := next
  cases all with
  | round before busy last =>
    obtain ⟨rfl, rfl⟩ := come.unique ⟨first, between, ran, before⟩
    rcases Lowered.exists_of_mem_pending last pending with none |
      ⟨before, feature, after, _, _, _, _, _, whole, front, own, adds, added⟩
    · cases none
    · exact ⟨feature, whole ▸ List.mem_append_right _ List.mem_cons_self,
        .adds come whole front own adds added⟩

/-- Every round that has something to lower defines another name. -/
theorem Generation.length_le (come : program.Generation scope limit rounds here state) :
    program.featureNames.length + rounds + state.pending.length ≤ state.defined.length := by
  obtain ⟨first, between, ran, all⟩ := come
  induction all with
  | start =>
    obtain ⟨added, adds⟩ := Lowered.adds_of_foldlM Lowered.adds_of_addDefinition ran
    rw [adds.pending, adds.defined, List.length_append, List.length_append, List.length_reverse,
      List.length_map]
    simp only [List.length_nil]
    omega
  | round before busy last ih =>
    have few := ih ran
    obtain ⟨-, added, -, -, adds⟩ := Lowered.of_foldlM_addFeature last
    have some := List.length_pos_of_ne_nil busy
    rw [adds.pending, adds.defined, List.length_append, List.length_append, List.length_reverse,
      List.length_map]
    simp only [List.length_nil]
    omega

end Program

/-! ## Chains -/

section

open CategoryTheory Opposite

/-- Where each of infinitely many rounds has a member, of finitely many, and each member of the next
round comes from one of the round, there is a chain of members. -/
theorem exists_chain {α : Type} {members : Nat → List α} {next : Nat → α → α → Prop}
    (some : ∀ n, members n ≠ [])
    (origins : ∀ n, ∀ y ∈ members (n + 1), ∃ x ∈ members n, next n x y) :
    ∃ chain : Nat → α, ∀ n, next n (chain n) (chain (n + 1)) := by
  choose origin inside follows using origins
  let level (n : Nat) : Type := { x // x ∈ members n }
  let back (n : Nat) : level (n + 1) ⟶ level n := ↾fun y => ⟨origin n y.1 y.2, inside n y.1 y.2⟩
  let system : ℕᵒᵖ ⥤ Type := Functor.ofOpSequence back
  have finite : ∀ n, Finite (system.obj n) := fun n => (members n.unop).finite_toSet.to_subtype
  have nonempty : ∀ n, Nonempty (system.obj n) := fun n =>
    nonempty_subtype.2 (List.exists_mem_of_ne_nil _ (some n.unop))
  obtain ⟨chain, compatible⟩ := nonempty_sections_of_finite_inverse_system system
  refine ⟨fun n => (chain (op n)).1, fun n => ?_⟩
  have step := compatible (homOfLE (Nat.le_add_right n 1)).op
  rw [Functor.ofOpSequence_map_homOfLE_succ] at step
  have same : origin n _ (chain (op (n + 1))).2 = (chain (op n)).1 := congrArg Subtype.val step
  have way := follows n _ (chain (op (n + 1))).2
  rwa [same] at way

end

/-! ## Compilations that end -/

/-- **A compilation has not ended** if and only if something is pending after its rounds. -/
theorem compile?_eq_none_iff : compile? scope limit rounds program = .ok none ↔
    ∃ here state, program.Generation scope limit rounds here state ∧ state.pending ≠ [] := by
  have lowered : compile? scope limit rounds program = .ok none ↔
      lowerProgram? scope limit rounds program = .ok none := by
    rw [compile?, bind_eq_ok_iff]
    constructor
    · rintro ⟨slots?, found, rest⟩
      cases slots? with
      | none => exact found
      | some slots =>
        obtain ⟨graph, -, same⟩ := bind_eq_ok_iff.1 rest
        cases same
    · exact fun found => ⟨none, found, rfl⟩
  rw [lowered, lowerProgram?]
  split
  · rename_i error failed
    refine iff_of_false (by simp) ?_
    rintro ⟨here, state, ⟨first, between, ran, all⟩, busy⟩
    have left := CompileM.bind_eq_ok_iff.2
      ⟨first, between, ran, Lowered.addPending_eq_none_iff.2 ⟨here, all, busy⟩⟩
    rw [failed] at left
    cases left
  · rename_i found last ran
    rw [Except.ok.injEq, Option.map_eq_none_iff]
    constructor
    · rintro rfl
      obtain ⟨first, between, ran, left⟩ := CompileM.bind_eq_ok_iff.1 ran
      obtain ⟨here, all, busy⟩ := Lowered.addPending_eq_none_iff.1 left
      exact ⟨here, last, ⟨first, between, ran, all⟩, busy⟩
    · rintro ⟨here, state, ⟨first, between, first', all⟩, busy⟩
      have left := CompileM.bind_eq_ok_iff.2
        ⟨first, between, first', Lowered.addPending_eq_none_iff.2 ⟨here, all, busy⟩⟩
      cases ran.symm.trans left
      rfl

/-- **More rounds make no difference** to a compilation that has ended. -/
theorem compile?_add (ended : compile? scope limit rounds program ≠ .ok none) (more : Nat) :
    compile? scope limit (rounds + more) program = compile? scope limit rounds program := by
  have same : lowerProgram? scope limit (rounds + more) program =
      lowerProgram? scope limit rounds program := by
    have steps : (program.foldlM (Lowered.addDefinition scope limit) {} >>=
          Lowered.addPending scope limit (rounds + more) : CompileM (Option Lowered))
            { defined := program.featureNames } =
        (program.foldlM (Lowered.addDefinition scope limit) {} >>=
          Lowered.addPending scope limit rounds : CompileM (Option Lowered))
            { defined := program.featureNames } := by
      show (program.foldlM (Lowered.addDefinition scope limit) {} : CompileM Lowered)
          { defined := program.featureNames } >>= _ =
        (program.foldlM (Lowered.addDefinition scope limit) {} : CompileM Lowered)
          { defined := program.featureNames } >>= _
      cases ran : (program.foldlM (Lowered.addDefinition scope limit) {} : CompileM Lowered)
          { defined := program.featureNames } with
      | error error => rfl
      | ok run =>
        refine Lowered.addPending_add (fun state left => ended ?_) more
        obtain ⟨here, all, busy⟩ := Lowered.addPending_eq_none_iff.1 left
        exact compile?_eq_none_iff.2 ⟨here, state, ⟨run.1, run.2, ran, all⟩, busy⟩
    unfold lowerProgram?
    dsimp only
    rw [steps]
  rw [compile?, compile?, same]

/-- In a compilation that has not ended hooks have defined more features than there were rounds. -/
theorem lt_length_defined (left : compile? scope limit rounds program = .ok none) :
    rounds < (HookCall.defined (program.hookCalls scope limit rounds)).length := by
  obtain ⟨here, state, come, busy⟩ := compile?_eq_none_iff.1 left
  have many := come.length_le
  obtain ⟨first, between, ran, all⟩ := come
  have calls := (program.traces scope limit rounds).2 none state (CompileM.bind_eq_ok_iff.2
    ⟨first, between, ran, Lowered.addPending_eq_none_iff.2 ⟨here, all, busy⟩⟩)
  have some := List.length_pos_of_ne_nil busy
  rw [calls.defined_eq, List.length_append, List.length_reverse] at many
  simp only at many
  omega

/-- **When a compilation ends.** It does, with a graph or an error, unless there is an endless chain
of features, the first one added by a definition of the program and every other one while the one
before it was lowered, each in a round of its own. Once it has ended, more rounds make no
difference; as long as it has not, hooks have defined more features than there were rounds, so that
it ends if hooks define features of finitely many names only. -/
theorem compilation_ends_iff (scope : Scope) (limit : Nat) (program : Program) :
    ((∃ rounds, compile? scope limit rounds program ≠ .ok none) ↔
      ¬∃ chain : Nat → String × Expr,
        ∀ round, program.Spawns scope limit round (chain round) (chain (round + 1))) ∧
    (∀ rounds, compile? scope limit rounds program ≠ .ok none → ∀ more,
      compile? scope limit (rounds + more) program = compile? scope limit rounds program) ∧
    (∀ rounds, compile? scope limit rounds program = .ok none →
      rounds < (HookCall.defined (program.hookCalls scope limit rounds)).length) ∧
    ∀ names, HookCall.defined (program.hookCalls scope limit names.length) ⊆ names →
      compile? scope limit names.length program ≠ .ok none := by
  refine ⟨?_, fun _ => compile?_add, fun _ => lt_length_defined, fun names inside left => ?_⟩
  · rw [← not_forall_not, not_iff_not]
    simp only [not_not]
    constructor
    · intro endless
      choose here state come busy using fun rounds => compile?_eq_none_iff.1 (endless rounds)
      exact exists_chain busy fun round spawned pending =>
        (come round).exists_spawns (come (round + 1)) pending
    · rintro ⟨chain, spawns⟩ round
      obtain ⟨come, pending, -, -, -, -⟩ := spawns round
      refine compile?_eq_none_iff.2 ⟨_, _, come, fun none => ?_⟩
      rw [pending] at none
      exact List.append_ne_nil_of_right_ne_nil _ (List.cons_ne_nil _ _) none
  · obtain ⟨⟨_, made⟩, -⟩ := program.traces scope limit names.length
    have few := (made.nodup_defined.1.subperm inside).length_le
    exact Nat.not_lt.2 few (lt_length_defined left)

/-! ## A compilation that does not end -/

/-- A transform that stands for raw text, and a hook for that text that defines a feature by a call
of the transform. -/
def Scope.restless : Scope where
  catalog := { entries := [
    .ofRegistration none {
      name := "t", kind := .transform fun _ => .ok (.custom "g" "t()") },
    .ofRegistration none {
      name := "g"
      kind := .custom fun _ => .freshName "x" fun name =>
        .define name (.call "t" []) fun _ => .finish (.ok (.feature name)) }] }

/-- A call of the transform. -/
def Program.restless : Program := [.feature "A" (.call "t" [])]

/-- Raw text is replaced by what its hook returns. -/
theorem rewriteOnce_custom {scope : Scope} {function source : String} {entry : Entry}
    {hook : CustomNode → Hook} {pass : Pass} {body : Expr} {state : CompileState}
    (found : scope.lookup function = .ok entry) (kind : entry.kind = .custom hook)
    (ran : (hook ⟨function, source⟩).run scope pass.state = .ok (body, state)) :
    rewriteOnce scope (.custom function source) pass = .ok (body, ⟨state, some function⟩) := by
  simp only [rewriteOnce, rewriteCustom, found, kind, ran]

/-- Whatever state it is called in, the transform defines another feature like it. -/
theorem exists_rewrite_restless (state : CompileState) : ∃ read name state',
    rewrite .restless 32 (.call "t" []) state = .ok (.feature read, state') ∧
      state'.pending = state.pending ++ [(name, .call "t" [])] := by
  obtain ⟨name, after, defined, pending⟩ : ∃ name after,
      (state.freshName "x").2.define (state.freshName "x").1 (.call "t" []) = .ok after ∧
        after.pending = state.pending ++ [(name, .call "t" [])] := by
    obtain ⟨number, same, -, free, -⟩ := state.freshName_eq "x"
    rw [same, CompileState.define, CompileState.isDefined, if_neg (mt of_decide_eq_true free)]
    exact ⟨_, _, rfl, rfl⟩
  have first : rewriteOnce .restless (.call "t" []) { state } =
      .ok (.custom "g" "t()", ⟨state, some "t"⟩) := rfl
  have second : rewriteOnce .restless (.custom "g" "t()") { state } =
      .ok (.feature (state.freshName "x").1, ⟨after, some "g"⟩) := by
    have hooked : Hook.run .restless (.freshName "x" fun name => .define name (.call "t" [])
        fun _ => .finish (.ok (.feature name))) state =
          .ok (.feature (state.freshName "x").1, after) := by
      rw [Hook.run]
      dsimp only
      rw [Hook.run, defined]
      rfl
    exact rewriteOnce_custom rfl rfl hooked
  refine ⟨(state.freshName "x").1, name, after, ?_, pending⟩
  rw [rewrite, rewritePasses, first]
  show rewritePasses .restless 32 (31 + 1) (some "t") (.custom "g" "t()") state = _
  rw [rewritePasses, second]
  exact rewritePasses_of_isIdle (Expr.isIdle_feature _) 30 (some "g")

/-- So does every feature that is lowered. -/
theorem exists_addFeature_restless (here : Lowered) (name : String) (state : CompileState) :
    ∃ there name' state', here.addFeature .restless 32 name (.call "t" []) state =
        .ok (there, state') ∧ state'.pending = state.pending ++ [(name', .call "t" [])] := by
  obtain ⟨read, name', state', rewritten, pending⟩ := exists_rewrite_restless state
  exact ⟨_, name', state', CompileM.bind_eq_ok_iff.2 ⟨_, _, rewritten, rfl⟩, pending⟩

/-- There is a feature to lower after any number of rounds. -/
theorem exists_generation_restless (rounds : Nat) : ∃ here state name,
    Program.restless.Generation .restless 32 rounds here state ∧
      state.pending = [(name, .call "t" [])] := by
  induction rounds with
  | zero =>
    obtain ⟨there, name, state, ran, pending⟩ :=
      exists_addFeature_restless {} "A" { defined := ["A"] }
    refine ⟨there, state, name, ⟨there, state, ?_, .start⟩, pending⟩
    exact CompileM.bind_eq_ok_iff.2 ⟨there, state, ran, rfl⟩
  | succ rounds ih =>
    obtain ⟨here, state, name, ⟨first, between, begun, all⟩, pending⟩ := ih
    obtain ⟨there, name', state', ran, pending'⟩ :=
      exists_addFeature_restless here name { state with pending := [] }
    refine ⟨there, state', name', ⟨first, between, begun, all.round ?_ ?_⟩, pending'⟩
    · rw [pending]
      exact List.cons_ne_nil _ _
    · rw [Lowered.round, pending]
      exact CompileM.bind_eq_ok_iff.2 ⟨there, state', ran, rfl⟩

/-- **A compilation that does not end**, although every rewriting in it takes two passes that
replace something, of the 32 that may. -/
theorem compilation_endless :
    ¬∃ rounds, compile? .restless 32 rounds .restless ≠ .ok none := by
  rintro ⟨rounds, ended⟩
  obtain ⟨here, state, name, come, pending⟩ := exists_generation_restless rounds
  refine ended (compile?_eq_none_iff.2 ⟨here, state, come, ?_⟩)
  rw [pending]
  exact List.cons_ne_nil _ _

end RuleGraph
