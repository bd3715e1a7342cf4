import RuleGraph.Proofs.StandardLibrary.Calls
import RuleGraph.Proofs.Value.Comparison
import RuleGraph.Source.Grammar

/-! # Equality in rules

The comparison `A == B` of two expressions of a rule is a call of the function `eq`, which compares
the values that it receives. As it is not registered for entities, it receives their keys in their
place.

* **`Value.compare_unwrap_iff`** — values compare as equal without their entities if and only if
  they are then the same.
* **`Entry.outcome_comparing_eq`** — a call of the function tells whether they are.
* **`Setting.comesTo_equality`**, **`Execution.Reaches.eq_equality`** — so do expressions and
  features.
* **`rule_equality`** — the order of values, comparisons in expressions and those in features.
* **`rule_equality_differs`** — an entity equals its key, and no list equals anything.
-/

namespace RuleGraph

open StandardLibrary

/-- The function that compares two values. -/
def Entry.comparing : Entry := (Catalog.standard.find? none "eq").get rfl

namespace Value

/-- Replacing entities neither makes nor removes floating-point numbers. -/
theorem isFloat_unwrap (value : Value) : isFloat value.unwrap = isFloat value := by
  cases value <;> rfl

/-- Replacing entities neither makes nor removes lists. -/
theorem isList_unwrap_iff {value : Value} : value.unwrap.IsList ↔ value.IsList := by
  cases value <;> simp [unwrap, IsList]

/-- **Without their entities, values compare as equal if and only if they are then the same.** -/
theorem compare_unwrap_iff {a b : Value} (exact : isFloat a = false) (exact' : isFloat b = false)
    (apart : ¬(a.IsList ∧ b.IsList)) :
    a.unwrap.compare b.unwrap = some .eq ↔ a.unwrap = b.unwrap :=
  compare_eq_iff ((isFloat_unwrap a).trans exact) ((isFloat_unwrap b).trans exact')
    fun both => apart ⟨isList_unwrap_iff.1 both.1, isList_unwrap_iff.1 both.2⟩

end Value

/-- The function takes two arguments. -/
theorem Entry.arityError?_comparing : Entry.comparing.arityError? 2 = none := rfl

/-- What a call of the function comes to: it compares its arguments without their entities. -/
theorem Entry.outcome_comparing (a b : Value) : Entry.comparing.outcome equal [a, b] =
    .ok (.bool (a.unwrap.compare b.unwrap = some .eq)) := rfl

section

variable {a b : Value} (exact : isFloat a = false) (exact' : isFloat b = false)
  (apart : ¬(a.IsList ∧ b.IsList))

include exact exact' apart

/-- A call of the function tells whether two values are the same without their entities. -/
theorem Entry.outcome_comparing_eq :
    Entry.comparing.outcome equal [a, b] = .ok (.bool (a.unwrap = b.unwrap)) := by
  rw [Entry.outcome_comparing]
  simp only [Value.compare_unwrap_iff exact exact' apart]

/-- So does a comparison in an expression, of whatever can come to these values. -/
theorem Setting.comesTo_equality {setting : Setting} {reply : Nat → Outcome → Prop}
    {left right : SlotExpr} (bound : setting.executable.function? "eq" = some .comparing)
    (toLeft : setting.ComesTo reply left a) (toRight : setting.ComesTo reply right b) :
    setting.ComesTo reply (.call "eq" [left, right]) (.bool (a.unwrap = b.unwrap)) := by
  have call := @comesTo_call_iff setting reply _ _ equal [left, right]
    (.bool (a.unwrap = b.unwrap)) bound rfl Entry.arityError?_comparing
  exact call.2 ⟨[a, b], .cons toLeft (.cons toRight .nil),
    Entry.outcome_comparing_eq exact exact' apart⟩

/-- It comes to nothing else if its two sides do not. -/
theorem Setting.yields_equality {setting : Setting} {reply : Nat → Outcome → Prop}
    {left right : SlotExpr} (bound : setting.executable.function? "eq" = some .comparing)
    (toLeft : setting.Yields reply left a) (toRight : setting.Yields reply right b) :
    setting.Yields reply (.call "eq" [left, right]) (.bool (a.unwrap = b.unwrap)) := by
  intro deeds result does
  have call := @comesTo_call_iff setting reply _ _ equal [left, right] result bound rfl
    Entry.arityError?_comparing
  obtain ⟨values, each, same⟩ := call.1 ⟨deeds, does⟩
  rw [eq_of_yields (.cons toLeft (.cons toRight .nil)) each,
    Entry.outcome_comparing_eq exact exact' apart] at same
  cases same
  rfl

/-- A feature that compares two values has come to the same. -/
theorem Execution.Reaches.eq_equality {scope : Scope} {limit rounds : Nat} {program : Program}
    {graph : Graph} {config : EngineConfig} {options : ExecuteOptions} {history : History}
    {execution : Execution} {trace : Trace} {session : Session} {name : String} {left right : Expr}
    {result : Value} (found : scope.lookup "eq" = .ok .comparing)
    (compiled : compile? scope limit rounds program = .ok (some graph))
    (begun : (Executable.ofGraph graph scope config).execute options history = .ok execution)
    (reaches : execution.Reaches trace session)
    (defined : .feature name (.call "eq" [left, right]) ∈ program)
    (toLeft : session.Gives execution.setting left a)
    (toRight : session.Gives execution.setting right b)
    (has : session.HasValue execution.setting name result) :
    result = .bool (a.unwrap = b.unwrap) := by
  have same := reaches.outcome_eq compiled begun (by decide) found rfl rfl defined
    (.cons toLeft (.cons toRight .nil)) has
  rw [Entry.outcome_comparing_eq exact exact' apart] at same
  cases same
  rfl

end

/-- **Comparing for equality.** The order of two values the other way round is the reverse.
Floating-point numbers aside, values that compare as equal are the same, and unless both are lists,
the same values compare as equal. A comparison `A == B` is then true if the two sides are the same
without their entities and false if they are not, in an expression and in a feature. -/
theorem rule_equality :
    (∀ a b : Value, (a.compare b).map Ordering.swap = b.compare a) ∧
    ∀ a b : Value, isFloat a = false → isFloat b = false →
      (a.compare b = some .eq → a = b) ∧
      (¬(a.IsList ∧ b.IsList) →
        (a.compare b = some .eq ↔ a = b) ∧
        (∀ (setting : Setting) (reply : Nat → Outcome → Prop) (left right : SlotExpr),
          setting.executable.function? "eq" = some .comparing →
          (setting.ComesTo reply left a → setting.ComesTo reply right b →
            setting.ComesTo reply (.call "eq" [left, right]) (.bool (a.unwrap = b.unwrap))) ∧
          (setting.Yields reply left a → setting.Yields reply right b →
            setting.Yields reply (.call "eq" [left, right]) (.bool (a.unwrap = b.unwrap)))) ∧
        (∀ scope limit rounds program graph config options history execution trace session name
            left right result,
          scope.lookup "eq" = .ok .comparing →
          compile? scope limit rounds program = .ok (some graph) →
          (Executable.ofGraph graph scope config).execute options history = .ok execution →
          execution.Reaches trace session →
          .feature name (.call "eq" [left, right]) ∈ program →
          session.Gives execution.setting left a → session.Gives execution.setting right b →
          session.HasValue execution.setting name result →
          result = .bool (a.unwrap = b.unwrap))) := by
  refine ⟨Value.compare_swap, fun a b exact exact' =>
    ⟨Value.eq_of_compare exact exact', fun apart => ⟨?_, ?_, ?_⟩⟩⟩
  · exact Value.compare_eq_iff exact exact' apart
  · intro setting reply left right bound
    exact ⟨Setting.comesTo_equality exact exact' apart bound,
      Setting.yields_equality exact exact' apart bound⟩
  · intro scope limit rounds program graph config options history execution trace session name left
      right result found compiled begun reaches defined toLeft toRight has
    exact Execution.Reaches.eq_equality exact exact' apart found compiled begun reaches defined
      toLeft toRight has

/-! ## Three features -/

/-- Two features, and whether they are equal. -/
def Program.comparing (left right : Expr) : Program :=
  [.feature "A" left, .feature "B" right,
    .feature "X" (.call "eq" [.feature "A", .feature "B"])]

/-- The graph of these features. -/
def Graph.comparing (left right : SlotExpr) : Graph where
  slots := [
    .feature "A" left,
    .feature "B" right,
    .feature "X" (.call "eq" [.feature "A", .feature "B"])]
  edges := [[], [], [0, 1]]
  cycles := [none, none, none]

/-- An execution of these features. -/
def Execution.comparing (left right : SlotExpr) : Execution where
  setting := { executable := .ofGraph (.comparing left right) ⟨.standard, none⟩ {} }
  state := State.initial 3

/-- The features are an entity and its key. -/
def Program.userAndKey : Program :=
  .comparing (.call "entity" [.const (.text "User"), .const (.text "a")]) (.const (.text "a"))

/-- An execution of an entity and its key. -/
def Execution.userAndKey : Execution :=
  .comparing (.call "entity" [.const (.text "User"), .const (.text "a")]) (.const (.text "a"))

/-- **An entity and its key are equal in a rule**, although they differ, and a list does not compare
as equal to itself. -/
theorem rule_equality_differs :
    parse "LET A := entity(\"User\", \"a\"); LET B := \"a\"; LET X := A == B;" =
      .ok .userAndKey ∧
    compile? ⟨.standard, none⟩ 1 1 .userAndKey = .ok (some Execution.userAndKey.setting.graph) ∧
    (Executable.ofGraph Execution.userAndKey.setting.graph ⟨.standard, none⟩ {}).execute {} {} =
      .ok .userAndKey ∧
    (Execution.userAndKey.fetchEach 1 ["A", "B", "X"]).1 =
      some [.ok (.entity ⟨"User", "a"⟩), .ok (.text "a"), .ok (.bool true)] ∧
    (Value.list []).compare (.list []) = none :=
  ⟨by decide +kernel, by decide +kernel, rfl, by decide +kernel, rfl⟩

/-- An execution of a key twice. -/
def Execution.keyTwice : Execution :=
  .comparing (.const (.text "a")) (.const (.text "a"))

/-- Two features that have come to one text are equal, in a session in which they have. -/
theorem rule_equality_of_text : ∃ trace session result,
    Execution.keyTwice.Reaches trace session ∧
    session.HasValue Execution.keyTwice.setting "X" result ∧ result = .bool true := by
  have compiled : compile? ⟨.standard, none⟩ 1 1
      (.comparing (.const (.text "a")) (.const (.text "a"))) =
        .ok (some Execution.keyTwice.setting.graph) := by decide +kernel
  have begun : (Executable.ofGraph Execution.keyTwice.setting.graph ⟨.standard, none⟩ {}).execute
      {} {} = .ok .keyTwice := rfl
  have started := Execution.started_of_execute (isCompiled_of_compile? compiled).built begun
  obtain ⟨trace, threads, reaches, -⟩ :=
    Execution.reaches_of_runSide started.linked .start 1 1 ["X"]
  have places : Execution.keyTwice.setting.graph.indexOf? "A" = some 0 ∧
      Execution.keyTwice.setting.graph.indexOf? "B" = some 1 ∧
      Execution.keyTwice.setting.graph.indexOf? "X" = some 2 := by decide +kernel
  have atA : (Execution.keyTwice.fetchEach 1 ["X"]).2.state.outcome? 0 =
      some (.ok (.text "a")) := by decide +kernel
  have atB : (Execution.keyTwice.fetchEach 1 ["X"]).2.state.outcome? 1 =
      some (.ok (.text "a")) := by decide +kernel
  have atX : (Execution.keyTwice.fetchEach 1 ["X"]).2.state.outcome? 2 =
      some (.ok (.bool true)) := by decide +kernel
  have noLists : ¬((Value.text "a").IsList ∧ (Value.text "a").IsList) :=
    fun both => nomatch both.1.choose_spec
  refine ⟨_, _, .bool true, reaches, ⟨2, places.2.2, atX⟩, ?_⟩
  exact ((rule_equality.2 (.text "a") (.text "a") rfl rfl).2 noLists).2.2 _ 1 1 _ _ {} {} {} _ _ _
    "X" (.feature "A") (.feature "B") (.bool true) rfl compiled begun reaches (by decide)
    (.feature ⟨0, places.1, atA⟩) (.feature ⟨1, places.2.1, atB⟩) ⟨2, places.2.2, atX⟩

end RuleGraph
