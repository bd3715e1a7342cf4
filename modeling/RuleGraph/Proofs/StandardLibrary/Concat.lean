import RuleGraph.Proofs.StandardLibrary.Calls
import RuleGraph.Proofs.Value.Unwrap

/-! # Joining texts

A call of `concat` on constants becomes a text when the program is compiled; any other call becomes
one of a hidden function, which joins texts when the program runs. The two do not always agree: at
run time a null keeps the function from being invoked and entities are replaced by their keys, and
neither happens at compile time.

* **`StandardLibrary.concatenation`** — what joining values comes to at run time.
* **`rewrite_concat`** — what a call of `concat` is rewritten to.
* **`Setting.does_callRoutine_joining`** — what a call of the hidden function comes to.
* **`Execution.Reaches.eq_concatenation`** — what a feature that is such a call comes to.
* **`concat_fold_iff`** — compile time and run time agree if and only if no argument is null or a
  list that holds an entity.
* **`concat_fold_differs`** — they do not on a null.
-/

namespace RuleGraph

open StandardLibrary

namespace StandardLibrary

/-- What joining values comes to at run time: null if one of them is, else a text. -/
def concatenation (values : List Value) : Value :=
  if values.any Value.isNull then .null else .text (joinPlain (values.map Value.unwrap))

/-- The first value is joined to the others. -/
theorem joinPlain_cons (value : Value) (rest : List Value) :
    joinPlain (value :: rest) = value.plain ++ joinPlain rest :=
  String.join_cons

/-- Joined texts are as long as all of them together. -/
theorem length_joinPlain (values : List Value) :
    (joinPlain values).length = (values.map fun value => value.plain.length).sum := by
  induction values with
  | nil => rfl
  | cons value rest ih =>
    rw [joinPlain_cons, String.length_append, ih, List.map_cons, List.sum_cons]

/-- Joining values without their entities makes no difference if none of them shows one. -/
theorem joinPlain_unwrap_iff {values : List Value} :
    joinPlain (values.map Value.unwrap) = joinPlain values ↔
      ∀ value ∈ values, ¬value.ShowsEntity := by
  constructor
  · intro same value member shows
    -- The text of that value would get shorter, and no other text longer.
    have shorter : (values.map fun value => value.unwrap.plain.length).sum <
        (values.map fun value => value.plain.length).sum :=
      List.sum_lt_sum _ _ (fun value _ => Value.length_plain_unwrap_le value)
        ⟨value, member, Value.length_plain_unwrap_lt shows⟩
    have lengths := congrArg String.length same
    rw [length_joinPlain, length_joinPlain, List.map_map] at lengths
    exact absurd lengths (Nat.ne_of_lt shorter)
  · intro hidden
    rw [joinPlain, joinPlain, List.map_map]
    refine congrArg String.join (List.map_congr_left fun value member => ?_)
    exact Value.plain_unwrap (hidden value member)

/-- **Joining values as they are is what joining them comes to at run time** if and only if none of
them is null or a list that holds an entity. -/
theorem text_eq_concatenation_iff {values : List Value} :
    .text (joinPlain values) = concatenation values ↔
      ∀ value ∈ values, value ≠ .null ∧ ¬value.ShowsEntity := by
  rw [concatenation]
  by_cases null : values.any Value.isNull = true
  · rw [if_pos null]
    obtain ⟨value, member, isNull⟩ := List.any_eq_true.1 null
    constructor
    · intro same
      cases same
    · intro all
      cases value with
      | null => exact absurd rfl (all _ member).1
      | _ => cases isNull
  · rw [if_neg null, Value.text.injEq, eq_comm, joinPlain_unwrap_iff]
    refine forall₂_congr fun value member => ?_
    have proper : value ≠ .null := by
      rintro rfl
      exact null (List.any_eq_true.2 ⟨_, member, rfl⟩)
    exact (and_iff_right proper).symm

end StandardLibrary

/-! ## At compile time -/

/-- The hook that joins texts when a program is compiled. -/
def Entry.folding : Entry := (Catalog.standard.find? none "concat").get rfl

/-- The function that joins texts when a program runs. -/
def Entry.joining : Entry := (Catalog.standard.find? none "_concat").get rfl

/-- Call sites see what the library has for joining texts. -/
structure Scope.JoinsTexts (scope : Scope) : Prop where
  /-- The hook under its name. -/
  folding : scope.lookup "concat" = .ok .folding
  /-- The function under its name. -/
  joining : scope.lookup "_concat" = .ok .joining

/-- The library itself is seen so. -/
theorem Scope.joinsTexts_standard : Scope.JoinsTexts ⟨.standard, none⟩ := ⟨rfl, rfl⟩

/-- What a call of `concat` becomes: a text if all arguments are constant, else a call of the hidden
function. -/
def Expr.concat (args : List Expr) : Expr :=
  match Expr.constants? args with
  | some values => .const (.text (joinPlain values))
  | none => .call "_concat" args

variable {scope : Scope} {limit rounds : Nat} {args : List Expr} {state state' : CompileState}

/-- What a call of `concat` becomes holds no further call sites. -/
theorem Expr.isIdle_concat (sees : scope.JoinsTexts) (idle : ∀ arg ∈ args, arg.IsIdle scope) :
    (Expr.concat args).IsIdle scope := by
  rw [Expr.concat]
  split
  · exact isIdle_const _
  · intro pass
    rw [rewriteOnce_call, rewriteAll_of_isIdle idle]
    show rewriteCall scope ⟨"_concat", args⟩ pass = _
    rw [rewriteCall, sees.joining]
    rfl

/-- A pass replaces a call of `concat`. -/
theorem rewriteOnce_concat (sees : scope.JoinsTexts) (idle : ∀ arg ∈ args, arg.IsIdle scope)
    (pass : Pass) : rewriteOnce scope (.call "concat" args) pass =
      .ok (Expr.concat args, { pass with applied := some "concat" }) := by
  have hook : Entry.folding.kind = .transform concatHook := rfl
  rw [rewriteOnce_call, Expr.rewriteAll_of_isIdle idle]
  show rewriteCall scope ⟨"concat", args⟩ pass = _
  simp only [rewriteCall, sees.folding, hook, concatHook, Expr.concat]
  cases Expr.constants? args <;> rfl

/-- **What a call of `concat` is rewritten to**, if there is a pass to spare. -/
theorem rewrite_concat (sees : scope.JoinsTexts) (idle : ∀ arg ∈ args, arg.IsIdle scope) :
    rewrite scope (limit + 1) (.call "concat" args) state = .ok (Expr.concat args, state) :=
  rewrite_of_applied (rewriteOnce_concat sees idle _) (Expr.isIdle_concat sees idle)

/-- It is rewritten to nothing else. -/
theorem eq_of_rewrite_concat (sees : scope.JoinsTexts) (idle : ∀ arg ∈ args, arg.IsIdle scope)
    {item : Expr}
    (rewritten : rewrite scope limit (.call "concat" args) state = .ok (item, state')) :
    item = Expr.concat args := by
  cases limit with
  | zero =>
    -- The only pass replaces something, so the limit is exceeded.
    rw [rewrite, rewritePasses, rewriteOnce_concat sees idle] at rewritten
    cases rewritten
  | succ limit =>
    rw [rewrite_concat sees idle] at rewritten
    cases rewritten
    rfl

/-! ## At run time -/

namespace Setting

open Routine

variable {setting : Setting} {reply : Nat → Outcome → Prop} {deeds : Multiset Deed}
  {values : List Value}

/-- The hidden function takes any number of arguments. -/
theorem arityError?_joining (count : Nat) : Entry.joining.arityError? count = none := by
  refine Entry.arityError?_eq_none_iff.2 fun shape declared => ?_
  cases declared
  exact ⟨Nat.zero_le _, fun none => by cases none⟩

/-- On a null it is not invoked, and it joins texts otherwise. -/
theorem outcome_joining (values : List Value) :
    Entry.joining.outcome (fun args => .ok (.text (joinPlain args))) values =
      .ok (concatenation values) := by
  have policy : Entry.joining.allowNull = false ∧ Entry.joining.allowEntities = false := ⟨rfl, rfl⟩
  simp only [Entry.outcome, Entry.admit?, policy, concatenation]
  by_cases null : values.any Value.isNull = true
  · simp [null]
  · simp only [null]
    rfl

/-- **A call of the hidden function comes to the concatenation of its arguments.** -/
theorem does_callRoutine_joining
    (bound : setting.executable.function? "_concat" = some .joining) :
    ∃ deeds, (setting.callRoutine "_concat" values).Does reply deeds
      (some (.ok (concatenation values))) := by
  rw [← outcome_joining]
  exact does_callRoutine_plain bound rfl (arityError?_joining _)

/-- It comes to nothing else. -/
theorem eq_of_does_callRoutine_joining
    (bound : setting.executable.function? "_concat" = some .joining) {outcome : Outcome}
    (does : (setting.callRoutine "_concat" values).Does reply deeds (some outcome)) :
    outcome = .ok (concatenation values) := by
  rw [← outcome_joining]
  exact eq_of_does_callRoutine_plain bound rfl (arityError?_joining _) does

end Setting

/-! ## In an execution -/

namespace Execution

variable {graph : Graph} {program : Program} {config : EngineConfig} {options : ExecuteOptions}
  {history : History} {execution : Execution} {trace : Trace} {session : Session}
  {name : String} {result : Value} {values : List Value}

/-- **A feature that is a call of `concat` on constants has come to their text.** -/
theorem Reaches.eq_text (sees : scope.JoinsTexts)
    (compiled : compile? scope limit rounds program = .ok (some graph))
    (begun : (Executable.ofGraph graph scope config).execute options history = .ok execution)
    (reaches : execution.Reaches trace session)
    (defined : .feature name (.call "concat" args) ∈ program)
    (constant : Expr.constants? args = some values)
    (has : session.HasValue execution.setting name result) : result = .text (joinPlain values) := by
  have each := Expr.constants?_eq_some_iff.1 constant
  have idle : ∀ arg ∈ args, arg.IsIdle scope := by
    intro arg member
    obtain ⟨value, -, own⟩ := exists_mem_of_forall₂ each.flip member
    exact Expr.isIdle_of_constant? own
  obtain ⟨item, _, _, rewritten, lowered⟩ := reaches.does_of_feature compiled begun defined has
  have same := eq_of_rewrite_concat sees idle rewritten
  rw [Expr.concat, constant] at same
  subst same
  rcases lowered with isInput | ⟨body, index, deeds, lowers, -, does⟩
  · cases isInput
  · cases lowers
    rw [Setting.exprRoutine] at does
    have ended := Routine.eq_of_does_done does
    cases ended
    rfl

/-- **A feature that is any other call of `concat` has come to the concatenation** of the values of
its arguments. -/
theorem Reaches.eq_concatenation (sees : scope.JoinsTexts)
    (compiled : compile? scope limit rounds program = .ok (some graph))
    (begun : (Executable.ofGraph graph scope config).execute options history = .ok execution)
    (reaches : execution.Reaches trace session)
    (defined : .feature name (.call "concat" args) ∈ program)
    (apart : Expr.constants? args = none)
    (gives : List.Forall₂ (session.Gives execution.setting) args values)
    (has : session.HasValue execution.setting name result) : result = concatenation values := by
  have idle : ∀ arg ∈ args, arg.IsIdle scope := by
    intro arg member
    obtain ⟨value, -, own⟩ := exists_mem_of_forall₂ gives.flip member
    exact own.isIdle
  obtain ⟨item, _, _, rewritten, lowered⟩ := reaches.does_of_feature compiled begun defined has
  have same := eq_of_rewrite_concat sees idle rewritten
  rw [Expr.concat, apart] at same
  subst same
  rcases lowered with isInput | ⟨body, index, deeds, lowers, member, does⟩
  · rw [Expr.call.injEq] at isInput
    exact absurd isInput.1 (by decide)
  · have joined := outcome_eq_of_does begun sees.joining rfl rfl member lowers gives does
    rw [Setting.outcome_joining] at joined
    cases joined
    rfl

end Execution

/-- **Folding a call of `concat` and running it agree if and only if no argument is null or a list
that holds an entity.** The call on constants becomes their text; the hidden function, called on the
same values, comes to their concatenation and to nothing else; and so do features of a program, one
folded and the other with the same values in other features, in every session in which they have
come to values. -/
theorem concat_fold_iff (sees : scope.JoinsTexts) {constants : List Expr} {values : List Value}
    (constant : Expr.constants? constants = some values) :
    (∀ limit state, rewrite scope (limit + 1) (.call "concat" constants) state =
      .ok (.const (.text (joinPlain values)), state)) ∧
    (∀ (setting : Setting) (reply : Nat → Outcome → Prop),
      setting.executable.function? "_concat" = some .joining →
      (∃ deeds, (setting.callRoutine "_concat" values).Does reply deeds
        (some (.ok (concatenation values)))) ∧
      ∀ deeds outcome, (setting.callRoutine "_concat" values).Does reply deeds (some outcome) →
        outcome = .ok (concatenation values)) ∧
    (∀ limit rounds program graph config options history execution trace session x y args a b,
      compile? scope limit rounds program = .ok (some graph) →
      (Executable.ofGraph graph scope config).execute options history = .ok execution →
      execution.Reaches trace session →
      .feature x (.call "concat" constants) ∈ program →
      .feature y (.call "concat" args) ∈ program → Expr.constants? args = none →
      List.Forall₂ (session.Gives execution.setting) args values →
      session.HasValue execution.setting x a → session.HasValue execution.setting y b →
      a = .text (joinPlain values) ∧ b = concatenation values) ∧
    (.text (joinPlain values) = concatenation values ↔
      ∀ value ∈ values, value ≠ .null ∧ ¬value.ShowsEntity) := by
  refine ⟨fun limit state => ?_, fun setting reply bound => ?_, ?_, text_eq_concatenation_iff⟩
  · have idle : ∀ arg ∈ constants, arg.IsIdle scope := by
      intro arg member
      obtain ⟨value, -, own⟩ :=
        exists_mem_of_forall₂ (Expr.constants?_eq_some_iff.1 constant).flip member
      exact Expr.isIdle_of_constant? own
    rw [rewrite_concat sees idle, Expr.concat, constant]
  · exact ⟨Setting.does_callRoutine_joining bound,
      fun _ _ does => Setting.eq_of_does_callRoutine_joining bound does⟩
  · intro limit rounds program graph config options history execution trace session x y args a b
      compiled begun reaches folded called apart gives atX atY
    exact ⟨reaches.eq_text sees compiled begun folded constant atX,
      reaches.eq_concatenation sees compiled begun called apart gives atY⟩

/-! ## Two features -/

/-- A value, and joined to a text in two ways: as a constant, and as a feature. -/
def Program.joining (value : Value) : Program :=
  [.feature "N" (.const value),
    .feature "X" (.call "concat" [.const (.text "a"), .const value]),
    .feature "Y" (.call "concat" [.const (.text "a"), .feature "N"])]

/-- The graph of these features. -/
def Graph.joining (value : Value) (folded : String) : Graph where
  slots := [
    .feature "N" (.const value),
    .feature "X" (.const (.text folded)),
    .feature "Y" (.call "_concat" [.const (.text "a"), .feature "N"])]
  edges := [[], [], [0]]
  cycles := [none, none, none]

/-- An execution of these features. -/
def Execution.joining (value : Value) (folded : String) : Execution where
  setting := { executable := .ofGraph (.joining value folded) ⟨.standard, none⟩ {} }
  state := State.initial 3

/-- **On a null they do not agree.** -/
theorem concat_fold_differs :
    compile? ⟨.standard, none⟩ 1 1 (.joining .null) = .ok (some (.joining .null "anull")) ∧
    (Executable.ofGraph (.joining .null "anull") ⟨.standard, none⟩ {}).execute {} {} =
      .ok (.joining .null "anull") ∧
    ((Execution.joining .null "anull").fetchEach 1 ["X", "Y"]).1 =
      some [.ok (.text "anull"), .ok .null] :=
  ⟨by decide +kernel, rfl, by decide +kernel⟩

/-- On a text they do: in a session in which both features have come to values, those are the
same. -/
theorem concat_fold_iff_of_text : ∃ trace session a b,
    (Execution.joining (.text "b") "ab").Reaches trace session ∧
    session.HasValue (Execution.joining (.text "b") "ab").setting "X" a ∧
    session.HasValue (Execution.joining (.text "b") "ab").setting "Y" b ∧
    a = .text "ab" ∧ b = .text "ab" := by
  have compiled : compile? ⟨.standard, none⟩ 1 1 (.joining (.text "b")) =
      .ok (some (.joining (.text "b") "ab")) := by decide +kernel
  have begun : (Executable.ofGraph (.joining (.text "b") "ab") ⟨.standard, none⟩ {}).execute {} {} =
      .ok (.joining (.text "b") "ab") := rfl
  have started := Execution.started_of_execute (isCompiled_of_compile? compiled).built begun
  obtain ⟨trace, threads, reaches, -⟩ :=
    Execution.reaches_of_runSide started.linked .start 1 2 ["X", "Y"]
  have places : (Execution.joining (.text "b") "ab").setting.graph.indexOf? "N" = some 0 ∧
      (Execution.joining (.text "b") "ab").setting.graph.indexOf? "X" = some 1 ∧
      (Execution.joining (.text "b") "ab").setting.graph.indexOf? "Y" = some 2 := by decide +kernel
  have atN : ((Execution.joining (.text "b") "ab").fetchEach 1 ["X", "Y"]).2.state.outcome? 0 =
      some (.ok (.text "b")) := by decide +kernel
  have atX : ((Execution.joining (.text "b") "ab").fetchEach 1 ["X", "Y"]).2.state.outcome? 1 =
      some (.ok (.text "ab")) := by decide +kernel
  have atY : ((Execution.joining (.text "b") "ab").fetchEach 1 ["X", "Y"]).2.state.outcome? 2 =
      some (.ok (.text "ab")) := by decide +kernel
  refine ⟨_, _, .text "ab", .text "ab", reaches, ⟨1, places.2.1, atX⟩, ⟨2, places.2.2, atY⟩, ?_⟩
  have fold := @concat_fold_iff ⟨.standard, none⟩ Scope.joinsTexts_standard
    [.const (.text "a"), .const (.text "b")] [.text "a", .text "b"] rfl
  have both := fold.2.2.1 1 1 _ _ {} {} {} _ _ _ "X" "Y" [.const (.text "a"), .feature "N"]
    (.text "ab") (.text "ab") compiled begun reaches (by decide) (by decide) rfl
    (.cons (.const rfl) (.cons (.feature ⟨0, places.1, atN⟩) .nil))
    ⟨1, places.2.1, atX⟩ ⟨2, places.2.2, atY⟩
  have agree := fold.2.2.2.2 (by simp [Value.ShowsEntity])
  exact ⟨both.1, both.2.trans agree.symm⟩

end RuleGraph
