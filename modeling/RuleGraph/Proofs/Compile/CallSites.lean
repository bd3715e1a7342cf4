import RuleGraph.Proofs.Compile.Rounds

/-! # Where call sites are checked

What functions and statements declare about their arguments holds at every call site of a compiled
graph, and a call site where it does not hold ends the compilation. What a hook for ordinary calls
declares is checked nowhere: it receives every call site that names it.

* **`Slot.IsChecked`** — the calls in a slot were accepted by the functions that they name.
* **`Program.ComesTo`**, **`Program.ComesToStatement`** — the order in which compilation comes to
  call sites.
* **`Program.ComesTo.fails`**, **`Program.ComesToStatement.fails`** — a call site that is not
  accepted ends the compilation.
* **`rewriteOnce_transform`** — a hook receives the call site as it is.
* **`call_sites_checked`** — all of this together.
* **`transform_takes_misfit`** — a hook that declares one argument is run on two.
-/

namespace RuleGraph

variable {scope : Scope} {limit rounds : Nat} {program : Program}

/-! ## In compiled graphs -/

/-- The calls in a slot were accepted by the functions that they name. The outermost call of a
statement is one of a function of its statement feature; all others compute values. -/
def Slot.IsChecked (scope : Scope) (slot : Slot) : Prop :=
  match slot.kind with
  | .input | .group => True
  | .feature body => body.IsChecked scope
  | .statement feature condition call =>
    (∀ body, condition = some body → body.IsChecked scope) ∧
    ∃ function args, call = .call function args ∧
      scope.Approves (fun entry => ∃ run, entry.kind = .statement feature run) function args ∧
      ∀ arg ∈ args, arg.IsChecked scope

/-- Lowered expressions are checked one by one. -/
theorem LowersAll.isChecked {items : List Expr} {bodies : List SlotExpr}
    (each : LowersAll scope items bodies) : ∀ body ∈ bodies, body.IsChecked scope := by
  induction items generalizing bodies with
  | nil =>
    cases each
    simp
  | cons item rest ih =>
    cases each with
    | cons first others =>
      intro body member
      rcases List.mem_cons.1 member with rfl | later
      · exact first.isChecked
      · exact ih others body later

/-- The calls in a lowered slot were accepted. -/
theorem Slot.IsLowered.isChecked {slot : Slot} (lowered : slot.IsLowered scope) :
    slot.IsChecked scope := by
  cases lowered with
  | input | group => trivial
  | feature lowers => exact lowers.isChecked
  | statement holds found kind accepts each =>
    refine ⟨fun body same => ?_, _, _, rfl, ?_, each.isChecked⟩
    · obtain ⟨item, lowers⟩ := holds body same
      exact lowers.isChecked
    · exact ⟨_, _, found, rfl, ⟨_, kind⟩, accepts.congr each.forall₂_admits⟩

/-! ## On the way -/

/-- Compilation comes to the call of a statement under a lowered condition, with what has been
lowered before it. -/
inductive Program.ComesToCall (scope : Scope) (limit : Nat) (program : Program) :
    Option SlotExpr → Lowered → CompileState → Expr → Prop where
  /-- In a rule without a condition. -/
  | always {before calls call rest after lowered lowered' state state'}
    (whole : program = before ++ .rule none (calls ++ call :: rest) :: after)
    (done : before.foldlM (Lowered.addDefinition scope limit) {}
      { defined := program.featureNames } = .ok (lowered, state))
    (own : calls.foldlM (Lowered.addStatement scope limit none) lowered state =
      .ok (lowered', state')) :
    ComesToCall scope limit program none lowered' state' call
  /-- In a rule with a condition, which is lowered first. -/
  | rule {before item item' body calls call rest after lowered lowered' state state' state''}
    (whole : program = before ++ .rule (some item) (calls ++ call :: rest) :: after)
    (done : before.foldlM (Lowered.addDefinition scope limit) {}
      { defined := program.featureNames } = .ok (lowered, state))
    (rewritten : rewrite scope limit item state = .ok (item', state'))
    (lowers : Lowers scope item' body)
    (own : calls.foldlM (Lowered.addStatement scope limit (some body)) lowered state' =
      .ok (lowered', state'')) :
    ComesToCall scope limit program (some body) lowered' state'' call

/-- Compilation in so many rounds comes to a call site that stands for a value. -/
inductive Program.ComesTo (scope : Scope) (limit rounds : Nat) (program : Program) :
    CallNode → Prop where
  /-- In what the body of a feature is rewritten to. -/
  | feature {before name body body' after lowered state state' site}
    (whole : program = before ++ .feature name body :: after)
    (done : before.foldlM (Lowered.addDefinition scope limit) {}
      { defined := program.featureNames } = .ok (lowered, state))
    (rewritten : rewrite scope limit body state = .ok (body', state'))
    (inside : body'.ComesTo scope site) : ComesTo scope limit rounds program site
  /-- In what the condition of a rule is rewritten to. -/
  | condition {before item item' calls after lowered state state' site}
    (whole : program = before ++ .rule (some item) calls :: after)
    (done : before.foldlM (Lowered.addDefinition scope limit) {}
      { defined := program.featureNames } = .ok (lowered, state))
    (rewritten : rewrite scope limit item state = .ok (item', state'))
    (inside : item'.ComesTo scope site) : ComesTo scope limit rounds program site
  /-- In an argument of what the call of a statement is rewritten to. -/
  | argument {condition lowered state state' function args function' before arg after entry feature
      run site}
    (call : program.ComesToCall scope limit condition lowered state (.call function args))
    (rewritten : rewrite scope limit (.call function args) state =
      .ok (.call function' (before ++ arg :: after), state'))
    (found : scope.lookup function' = .ok entry) (kind : entry.kind = .statement feature run)
    (accepts : entry.Accepts (before ++ arg :: after))
    (done : ∀ other ∈ before, ∃ body, Lowers scope other body)
    (inside : arg.ComesTo scope site) : ComesTo scope limit rounds program site
  /-- In what the body of a feature is rewritten to that a hook has added, behind others of its
  round. -/
  | added {taken here between state state' state'' before name body body' after site}
    (come : program.Generation scope limit taken here state) (enough : taken < rounds)
    (pending : state.pending = before ++ (name, body) :: after)
    (front : here.addFeatures scope limit before { state with pending := [] } =
      .ok (between, state'))
    (rewritten : rewrite scope limit body state' = .ok (body', state''))
    (inside : body'.ComesTo scope site) : ComesTo scope limit rounds program site

/-- Compilation comes to the call site of a statement: what its call is rewritten to. -/
inductive Program.ComesToStatement (scope : Scope) (limit : Nat) (program : Program) :
    CallNode → Prop where
  /-- The call is rewritten to the call site. -/
  | call {condition lowered state state' function args function' args'}
    (call : program.ComesToCall scope limit condition lowered state (.call function args))
    (rewritten : rewrite scope limit (.call function args) state =
      .ok (.call function' args', state')) :
    ComesToStatement scope limit program ⟨function', args'⟩

section

variable {α β : Type} {state between : CompileState} {error : CompileError}

/-- What is found without a state. -/
theorem CompileM.lift_eq_ok {found : Except CompileError α} {a : α} (same : found = .ok a) :
    (liftM found : CompileM α) state = .ok (a, state) := by
  rw [same]
  rfl

/-- What is not found without a state. -/
theorem CompileM.lift_eq_error {found : Except CompileError α} (same : found = .error error) :
    (liftM found : CompileM α) state = .error error := by
  rw [same]
  rfl

/-- Steps of which the first ones fail. -/
theorem CompileM.bind_eq_error {first : CompileM α} {next : α → CompileM β}
    (fails : first state = .error error) : (first >>= next) state = .error error := by
  show (first state >>= fun run => next run.1 run.2) = _
  rw [fails]
  rfl

/-- Steps of which the last ones fail. -/
theorem CompileM.bind_eq_error_of_ok {first : CompileM α} {next : α → CompileM β} {a : α}
    (done : first state = .ok (a, between)) (fails : next a between = .error error) :
    (first >>= next) state = .error error := by
  show (first state >>= fun run => next run.1 run.2) = _
  rw [done]
  exact fails

/-- Steps for each member of a list, of which one fails. -/
theorem CompileM.foldlM_eq_error {step : α → β → CompileM α} {before after : List β} {b : β}
    {a a' : α} (done : before.foldlM step a state = .ok (a', between))
    (fails : step a' b between = .error error) :
    (before ++ b :: after).foldlM step a state = .error error := by
  rw [List.foldlM_append]
  apply CompileM.bind_eq_error_of_ok done
  rw [List.foldlM_cons]
  exact CompileM.bind_eq_error fails

/-- Lowering that fails ends the compilation. -/
theorem compile?_eq_error_of_steps (fails : (do
      let lowered ← program.foldlM (Lowered.addDefinition scope limit) {}
      lowered.addPending scope limit rounds : CompileM (Option Lowered))
        { defined := program.featureNames } = .error error) :
    compile? scope limit rounds program = .error error := by
  have none : lowerProgram? scope limit rounds program = .error error := by
    unfold lowerProgram?
    dsimp only
    rw [fails]
  rw [compile?, none]
  rfl

/-- A definition that fails ends the compilation. -/
theorem compile?_eq_error {before after : Program} {definition : Definition} {lowered : Lowered}
    (whole : program = before ++ definition :: after)
    (done : before.foldlM (Lowered.addDefinition scope limit) {}
      { defined := program.featureNames } = .ok (lowered, state))
    (fails : lowered.addDefinition scope limit definition state = .error error) :
    compile? scope limit rounds program = .error error := by
  have all : program.foldlM (Lowered.addDefinition scope limit) {}
      { defined := program.featureNames } = .error error := by
    rw [whole] at done ⊢
    exact CompileM.foldlM_eq_error done fails
  exact compile?_eq_error_of_steps (CompileM.bind_eq_error all)

/-- A round that fails ends the lowering of what hooks have added. -/
theorem Lowered.addPending_eq_error {taken : Nat} {here there : Lowered}
    {state' : CompileState} (earlier : Rounds scope limit taken here state there state')
    (enough : taken < rounds) (busy : state'.pending ≠ [])
    (fails : there.round scope limit state' = .error error) :
    here.addPending scope limit rounds state = .error error := by
  induction taken generalizing here state rounds with
  | zero =>
    cases earlier
    obtain ⟨rounds, rfl⟩ := Nat.exists_eq_succ_of_ne_zero enough.ne'
    rw [addPending_succ _ (List.isEmpty_eq_false_iff.2 busy)]
    exact CompileM.bind_eq_error fails
  | succ taken ih =>
    obtain ⟨between, next, busy', ran, later⟩ := earlier.exists_first
    obtain ⟨rounds, rfl⟩ := Nat.exists_eq_succ_of_ne_zero (Nat.ne_zero_of_lt enough)
    rw [addPending_succ here (List.isEmpty_eq_false_iff.2 busy')]
    exact CompileM.bind_eq_error_of_ok ran (ih later (Nat.lt_of_succ_lt_succ enough))

/-- So it ends the compilation. -/
theorem Program.Generation.fails {taken : Nat} {here : Lowered}
    (come : program.Generation scope limit taken here state) (enough : taken < rounds)
    (busy : state.pending ≠ []) (fails : here.round scope limit state = .error error) :
    compile? scope limit rounds program = .error error := by
  obtain ⟨first, between, begun, earlier⟩ := come
  have steps : (do
      let lowered ← program.foldlM (Lowered.addDefinition scope limit) {}
      lowered.addPending scope limit rounds : CompileM (Option Lowered))
        { defined := program.featureNames } = .error error :=
    CompileM.bind_eq_error_of_ok begun (Lowered.addPending_eq_error earlier enough busy fails)
  exact compile?_eq_error_of_steps steps

/-- A statement that fails ends the compilation. -/
theorem Program.ComesToCall.fails {condition : Option SlotExpr} {lowered : Lowered} {call : Expr}
    (comes : program.ComesToCall scope limit condition lowered state call)
    (fails : lowered.addStatement scope limit condition call state = .error error) :
    compile? scope limit rounds program = .error error := by
  cases comes with
  | always whole done own => exact compile?_eq_error whole done (CompileM.foldlM_eq_error own fails)
  | rule whole done rewritten lowers own =>
    apply compile?_eq_error whole done
    apply CompileM.bind_eq_error_of_ok rewritten
    apply CompileM.bind_eq_error_of_ok (CompileM.lift_eq_ok (lowerValue_eq_ok_iff.2 lowers))
    exact CompileM.foldlM_eq_error own fails

end

/-! ## Call sites that are not accepted -/

variable {site : CallNode} {entry : Entry}

/-- A feature that is no input is not lowered if its definition is not. -/
theorem lowerFeature_eq_error {name : String} {item : Expr} {error : CompileError}
    (proper : ∀ args, item ≠ .call inputFunction args)
    (fails : lowerValue scope item = .error error) :
    lowerFeature scope name item = .error error := by
  unfold lowerFeature
  split
  · rename_i function args
    split
    · rename_i isInput
      exact absurd (by rw [isInput]) (proper args)
    · rw [fails]
      rfl
  · rw [fails]
    rfl

/-- Where lowering comes to a call site that is not accepted, no input is meant. -/
theorem Expr.ComesTo.proper {item : Expr} (comes : item.ComesTo scope site)
    (misfit : site.IsMisfit scope entry) (args : List Expr) : item ≠ .call inputFunction args := by
  intro same
  cases comes with
  | here =>
    cases same
    exact misfit.proper rfl
  | item => cases same
  | arg proper =>
    cases same
    exact proper rfl

/-- A statement whose function does not accept the arguments is not lowered. -/
theorem lowerStatement_eq_error_of_refuses {groups : Groups} {condition : Option SlotExpr}
    {function feature : String} {args : List Expr} {run : Invocation → List Value → Action Unit}
    (found : scope.lookup function = .ok entry) (kind : entry.kind = .statement feature run)
    (refuses : ¬entry.Accepts args) :
    ∃ reason, groups.lowerStatement scope condition (.call function args) =
      .error (.argumentMismatch entry.name reason) := by
  obtain ⟨reason, fails⟩ := Entry.checkArgs_eq_error refuses
  refine ⟨reason, ?_⟩
  simp only [Groups.lowerStatement, found, bind, Except.bind, kind, fails]

/-- Nor is a statement of which an argument is not lowered. -/
theorem lowerStatement_eq_error_of_args {groups : Groups} {condition : Option SlotExpr}
    {function feature : String} {args : List Expr} {run : Invocation → List Value → Action Unit}
    {error : CompileError} (found : scope.lookup function = .ok entry)
    (kind : entry.kind = .statement feature run) (accepts : entry.Accepts args)
    (fails : lowerValues scope args = .error error) :
    groups.lowerStatement scope condition (.call function args) = .error error := by
  simp only [Groups.lowerStatement, found, bind, Except.bind, kind,
    Entry.checkArgs_eq_ok_iff.2 accepts, fails]

/-- A statement fails if what its call is rewritten to is not lowered. -/
theorem addStatement_eq_error {condition : Option SlotExpr} {lowered : Lowered}
    {function : String} {args : List Expr} {call : Expr} {state state' : CompileState}
    {error : CompileError}
    (rewritten : rewrite scope limit (.call function args) state = .ok (call, state'))
    (fails : lowered.groups.lowerStatement scope condition call = .error error) :
    lowered.addStatement scope limit condition (.call function args) state = .error error := by
  apply CompileM.bind_eq_error_of_ok rewritten
  exact CompileM.bind_eq_error (CompileM.lift_eq_error fails)

/-- **A call site that stands for a value and is not accepted ends the compilation.** -/
theorem Program.ComesTo.fails (comes : program.ComesTo scope limit rounds site)
    (misfit : site.IsMisfit scope entry) :
    ∃ reason, compile? scope limit rounds program =
      .error (.argumentMismatch entry.name reason) := by
  cases comes with
  | feature whole done rewritten inside =>
    obtain ⟨reason, fails⟩ := lowerValue_eq_error_of_comesTo inside misfit
    refine ⟨reason, compile?_eq_error whole done ?_⟩
    apply CompileM.bind_eq_error_of_ok rewritten
    apply CompileM.bind_eq_error
    exact CompileM.lift_eq_error (lowerFeature_eq_error (inside.proper misfit) fails)
  | condition whole done rewritten inside =>
    obtain ⟨reason, fails⟩ := lowerValue_eq_error_of_comesTo inside misfit
    refine ⟨reason, compile?_eq_error whole done ?_⟩
    apply CompileM.bind_eq_error_of_ok rewritten
    exact CompileM.bind_eq_error (CompileM.lift_eq_error fails)
  | argument call rewritten found kind accepts done inside =>
    obtain ⟨reason, fails⟩ := lowerValue_eq_error_of_comesTo inside misfit
    refine ⟨reason, call.fails (addStatement_eq_error rewritten ?_)⟩
    exact lowerStatement_eq_error_of_args found kind accepts (lowerValues_eq_error done fails)
  | added come enough pending front rewritten inside =>
    obtain ⟨reason, fails⟩ := lowerValue_eq_error_of_comesTo inside misfit
    refine ⟨reason, come.fails enough (by simp [pending]) ?_⟩
    rw [Lowered.round, pending]
    apply CompileM.foldlM_eq_error front
    apply CompileM.bind_eq_error_of_ok rewritten
    apply CompileM.bind_eq_error
    exact CompileM.lift_eq_error (lowerFeature_eq_error (inside.proper misfit) fails)

/-- **A call site of a statement that is not accepted ends the compilation.** -/
theorem Program.ComesToStatement.fails {feature : String}
    {run : Invocation → List Value → Action Unit}
    (comes : program.ComesToStatement scope limit site)
    (found : scope.lookup site.function = .ok entry) (kind : entry.kind = .statement feature run)
    (refuses : ¬entry.Accepts site.args) :
    ∃ reason, compile? scope limit rounds program =
      .error (.argumentMismatch entry.name reason) := by
  cases comes with
  | @call condition lowered _ _ _ _ _ _ call rewritten =>
    obtain ⟨reason, fails⟩ :=
      @lowerStatement_eq_error_of_refuses _ _ lowered.groups condition _ _ _ _ found kind refuses
    exact ⟨reason, call.fails (addStatement_eq_error rewritten fails)⟩

/-- **A hook for ordinary calls is run on every call site that names it**, with the arguments as the
pass has left them, whether or not they are what the hook declares. -/
theorem rewriteOnce_transform {function : String} {args args' : List Expr} {pass pass' : Pass}
    {hook : CallNode → Except CompileError Expr}
    (inner : rewriteAll scope args pass = .ok (args', pass'))
    (found : scope.lookup function = .ok entry) (kind : entry.kind = .transform hook) :
    rewriteOnce scope (.call function args) pass =
      (hook ⟨function, args'⟩).map fun result =>
        (result, { pass' with applied := some function }) := by
  rw [rewriteOnce_call, inner]
  show rewriteCall scope ⟨function, args'⟩ pass' = _
  simp only [rewriteCall, found, kind]
  cases hook ⟨function, args'⟩ <;> rfl

/-- **What functions and statements declare about their arguments holds at every call site of a
compiled graph**; where compilation comes to a call site of a function or a statement that does not
accept the arguments, it ends with a mismatch that names the function. A hook for ordinary calls is
run whether or not it accepts them. -/
theorem call_sites_checked (scope : Scope) (limit rounds : Nat) (program : Program) :
    (∀ graph, compile? scope limit rounds program = .ok (some graph) →
      ∀ slot ∈ graph.slots, slot.IsChecked scope) ∧
    (∀ site entry, program.ComesTo scope limit rounds site → site.IsMisfit scope entry →
      ∃ reason, compile? scope limit rounds program =
        .error (.argumentMismatch entry.name reason)) ∧
    (∀ site entry feature run, program.ComesToStatement scope limit site →
      scope.lookup site.function = .ok entry → entry.kind = .statement feature run →
      ¬entry.Accepts site.args →
      ∃ reason, compile? scope limit rounds program =
        .error (.argumentMismatch entry.name reason)) ∧
    ∀ function args args' pass pass' entry hook,
      rewriteAll scope args pass = .ok (args', pass') →
      scope.lookup function = .ok entry → entry.kind = .transform hook →
      rewriteOnce scope (.call function args) pass =
        (hook ⟨function, args'⟩).map fun result =>
          (result, { pass' with applied := some function }) := by
  refine ⟨fun graph compiled slot member => ?_, fun site entry comes misfit => ?_,
    fun site entry feature run comes found kind refuses => ?_,
    fun function args args' pass pass' entry hook inner found kind => ?_⟩
  · exact (isLowered_of_compile? compiled slot member).isChecked
  · exact comes.fails misfit
  · exact comes.fails found kind refuses
  · exact rewriteOnce_transform inner found kind

/-! ## A hook that is run on two arguments -/

/-- A hook that declares one argument. -/
def Entry.first : Entry :=
  .ofRegistration none {
    name := "first"
    kind := .transform fun node => .ok (node.args.headD (.const .null))
    options := { args := some { required := [.any] } } }

/-- A function that declares one argument. -/
def Entry.size : Entry :=
  .ofRegistration none {
    name := "size"
    kind := .sync fun _ args => ([], .ok (args.headD .null))
    options := { args := some { required := [.any] } } }

/-- A statement that declares one constant argument. -/
def Entry.note : Entry :=
  .ofRegistration none {
    name := "note"
    kind := .statement "Notes" fun _ _ => .finish (.ok ())
    options := { args := some { required := [.constant] } } }

/-- A hook for raw text that adds a feature whose call has no arguments. -/
def Entry.spawning : Entry :=
  .ofRegistration none {
    name := "spawning"
    kind := .custom fun _ => .define "B" (.call "size" []) fun _ => .finish (.ok (.feature "B")) }

/-- Call sites that see a hook, a function and a statement. -/
def Scope.choosy : Scope := ⟨{ entries := [.first, .size, .note] }, none⟩

/-- Call sites that see a function and a hook that adds a call of it. -/
def Scope.spawning : Scope := ⟨{ entries := [.size, .spawning] }, none⟩

/-- Two arguments. -/
def Expr.two : List Expr := [.const (.int 1), .const (.int 2)]

/-- **A hook that declares one argument is run on two**: the program compiles. -/
theorem transform_takes_misfit :
    Scope.choosy.lookup "first" = .ok .first ∧
    (∃ hook, Entry.first.kind = .transform hook ∧
      hook ⟨"first", Expr.two⟩ = .ok (.const (.int 1))) ∧
    ¬Entry.first.Accepts Expr.two ∧
    compile? .choosy 10 1 [.feature "X" (.call "first" Expr.two)] =
      .ok (some ⟨[.feature "X" (.const (.int 1))], [[]], [none]⟩) := by
  refine ⟨rfl, ⟨_, rfl, rfl⟩, fun accepts => ?_, by decide +kernel⟩
  have few := (accepts _ rfl).few rfl
  exact absurd few (by decide)

/-- The calls of one argument are checked, a call of none ends the compilation, also in a feature
that a hook adds, and so does a call of a feature where a constant is declared. The hook is run on
two arguments. -/
theorem call_sites_checked_of_choosy :
    (∀ slot ∈ [Slot.feature "X" (.call "size" [.const (.int 1)])], slot.IsChecked .choosy) ∧
    (∃ reason, compile? .choosy 10 1 [.feature "X" (.list [.call "size" []])] =
      .error (.argumentMismatch "size" reason)) ∧
    (∃ reason, compile? .choosy 10 1 [.input "X", .rule none [.call "note" [.feature "X"]]] =
      .error (.argumentMismatch "note" reason)) ∧
    (∃ reason, compile? .spawning 10 1 [.feature "A" (.custom "spawning" "")] =
      .error (.argumentMismatch "size" reason)) ∧
    rewriteOnce .choosy (.call "first" Expr.two) { state := { defined := [] } } =
      .ok (.const (.int 1), { state := { defined := [] }, applied := some "first" }) := by
  have graph : compile? .choosy 10 1 [.feature "X" (.call "size" [.const (.int 1)])] =
      .ok (some ⟨[.feature "X" (.call "size" [.const (.int 1)])], [[]], [none]⟩) := by
    decide +kernel
  refine ⟨?_, ?_, ?_, ?_, ?_⟩
  · exact (call_sites_checked _ _ _ _).1 _ graph
  · have comes : Program.ComesTo .choosy 10 1 [.feature "X" (.list [.call "size" []])]
        ⟨"size", []⟩ := by
      have rewritten : rewrite .choosy 10 (.list [.call "size" []]) { defined := ["X"] } =
          .ok (.list [.call "size" []], { defined := ["X"] }) := by decide +kernel
      exact @Program.ComesTo.feature _ _ _ _ [] "X" _ _ [] {} _ _ _ rfl rfl rewritten
        (@Expr.ComesTo.item _ [] _ [] _ (by simp) .here)
    refine (call_sites_checked _ _ _ _).2.1 _ .size comes ⟨by decide, rfl, .inr ⟨_, rfl⟩, ?_⟩
    exact fun accepts => absurd (accepts _ rfl).enough (by decide)
  · have comes : Program.ComesToStatement .choosy 10
        [.input "X", .rule none [.call "note" [.feature "X"]]] ⟨"note", [.feature "X"]⟩ := by
      have done : [Definition.input "X"].foldlM (Lowered.addDefinition .choosy 10) {}
          { defined := ["X"] } = .ok (⟨[.input "X"], []⟩, { defined := ["X"] }) := by decide +kernel
      have rewritten : rewrite .choosy 10 (.call "note" [.feature "X"]) { defined := ["X"] } =
          .ok (.call "note" [.feature "X"], { defined := ["X"] }) := by decide +kernel
      exact .call (@Program.ComesToCall.always _ _ _ [.input "X"] [] _ [] [] _ _ _ _ rfl done rfl)
        rewritten
    refine (call_sites_checked _ _ _ _).2.2.1 _ .note "Notes" _ comes rfl rfl fun accepts => ?_
    exact absurd ((accepts _ rfl).types 0 _ rfl) (by decide)
  · have begun : [Definition.feature "A" (.custom "spawning" "")].foldlM
          (Lowered.addDefinition .spawning 10) {} { defined := ["A"] } =
        .ok (⟨[.feature "A" (.feature "B")], []⟩,
          { defined := ["B", "A"], pending := [("B", .call "size" [])] }) := by decide +kernel
    have rewritten : rewrite .spawning 10 (.call "size" []) { defined := ["B", "A"] } =
        .ok (.call "size" [], { defined := ["B", "A"] }) := by decide +kernel
    have comes : Program.ComesTo .spawning 10 1 [.feature "A" (.custom "spawning" "")] ⟨"size", []⟩ :=
      @Program.ComesTo.added _ _ _ _ 0 _ _ _ _ _ [] "B" _ _ [] _ ⟨_, _, begun, .start⟩ (by decide)
        rfl rfl rewritten .here
    refine (call_sites_checked _ _ _ _).2.1 _ .size comes ⟨by decide, rfl, .inr ⟨_, rfl⟩, ?_⟩
    exact fun accepts => absurd (accepts _ rfl).enough (by decide)
  · exact (call_sites_checked .choosy 10 1 []).2.2.2 "first" Expr.two Expr.two _ _ .first _ rfl rfl
      rfl

end RuleGraph
