import RuleGraph.Proofs.Source.Parsed
import RuleGraph.Proofs.Source.Programs

/-! # Programs that are written back

A program that was read is read again from what is written for it, unless something in it is not
written as itself: a number that was rounded to infinity, or a name that a negation begins with. Such
a name is read behind an equality sign only.

* **`Expr.isReprintable`**, **`Definition.isReprintable`** — nothing in them is written otherwise.
* **`parse_write_of_parse`** — a program that was read and is written back is read again.
* **`parse_write_differs`** — programs that are not.
-/

namespace RuleGraph

open Source

/-- Whether a value was not rounded to infinity. -/
def Value.isReprintable : Value → Bool
  | .float value => !value.isInfinite && Binary64.ofText? (value.write .source) = some value
  | _ => true

namespace Expr

mutual

/-- Whether an expression is without calls of raw text, without infinite numbers and without names
that a negation begins with. A call of `not` with one operand is read as a negation. -/
def isReprintable : Expr → Bool
  | .const value => value.isReprintable
  | .feature name => wordOf name.toList ≠ ['n', 'o', 't']
  | .list items => areReprintable items
  | .call function args =>
    (wordOf function.toList ≠ ['n', 'o', 't'] || function = "not" && args.length = 1) &&
      areReprintable args
  | .custom _ _ => false

/-- Whether this is so of several expressions. -/
def areReprintable : List Expr → Bool
  | [] => true
  | item :: rest => isReprintable item && areReprintable rest

end

/-- It is so of several expressions if it is so of each. -/
theorem areReprintable_iff {items : List Expr} :
    areReprintable items = true ↔ ∀ item ∈ items, item.isReprintable = true := by
  induction items with
  | nil => simp [areReprintable]
  | cons item rest ih => simp [areReprintable, ih]

end Expr

/-- Whether the expressions of a definition are so. -/
def Definition.isReprintable : Definition → Bool
  | .feature _ body => body.isReprintable
  | .rule condition calls => condition.all Expr.isReprintable && calls.all Expr.isReprintable

/-- A scalar that was read is readable, unless it is infinite. -/
theorem Value.IsScalar.isReadable {value : Value} (scalar : value.IsScalar)
    (reprintable : value.isReprintable = true) : value.IsReadable := by
  cases scalar with
  | null => exact .literal .null
  | bool value => exact .literal (.bool value)
  | int value => exact .literal (.int value)
  | text value => exact .literal (.text value)
  | @float x number =>
    rw [Value.isReprintable, Bool.and_eq_true, Bool.not_eq_true', decide_eq_true_eq] at reprintable
    obtain ⟨bounded, again⟩ := reprintable
    refine .float (Nat.lt_of_le_of_ne ?_ (of_decide_eq_false bounded)) again
    exact Nat.le_of_not_lt (of_decide_eq_false number)

/-- An expression that was read is readable, if nothing in it is written otherwise. -/
theorem Expr.IsParsed.isReadable {body : Expr} (parsed : body.IsParsed)
    (reprintable : body.isReprintable = true) : body.IsReadable := by
  induction body with
  | const value =>
    cases parsed with
    | const scalar => exact .const (scalar.isReadable reprintable)
  | feature name =>
    cases parsed with
    | feature named literals => exact .feature ⟨⟨named, of_decide_eq_true reprintable⟩, literals⟩
  | list items ih =>
    cases parsed with
    | list parsed =>
      have each := areReprintable_iff.1 reprintable
      exact .list fun item member => ih item member (parsed item member) (each item member)
  | call function args ih =>
    cases parsed with
    | call named parsed =>
      rw [isReprintable, Bool.and_eq_true, areReprintable_iff] at reprintable
      obtain ⟨other, each⟩ := reprintable
      refine .call ?_ fun arg member => ih arg member (parsed arg member) (each arg member)
      simpa [IsName, named] using other
  | custom => cases reprintable

/-- A definition that was read is readable, if nothing in it is written otherwise. -/
theorem Definition.IsParsed.isReadable {item : Definition} (parsed : item.IsParsed)
    (reprintable : item.isReprintable = true) : item.IsReadable := by
  cases parsed with
  | feature named parsed => exact .feature named (parsed.isReadable reprintable)
  | rule holds nonempty each =>
    rw [isReprintable, Bool.and_eq_true, Option.all_eq_true, List.all_eq_true] at reprintable
    obtain ⟨holds', each'⟩ := reprintable
    exact .rule (fun body isBody => (holds body isBody).isReadable (holds' body isBody)) nonempty
      fun call member => (each call member).isReadable (each' call member)

/-- **A program that was read is read again from what is written for it**, if it has no calls of raw
text, none of its numbers was rounded to infinity and none of its names is taken for a negation. -/
theorem parse_write_of_parse {source : String} {program : Program}
    (parsed : parse source = .ok program)
    (reprintable : ∀ item ∈ program, item.isReprintable = true) :
    parse program.write = .ok program :=
  parse_write fun item member =>
    (isParsed_of_parse parsed item member).isReadable (reprintable item member)

/-- The program of a feature and a rule. -/
def Program.risky : Program :=
  [.feature "Risky" (.call "or" [
    .call "not" [.call "eq" [.feature "Score", .const (.float (.ofDecimal false 15 (-4)))]],
    .call "not" [.feature "Known"]]),
    .rule (some (.feature "Risky")) [.call "hold" [.feature "User", .list [.const .null]]]]

/-- The program is read from a text with operators, and from what is written for it. -/
theorem parse_write_of_parse_of_risky :
    parse "LET Risky := Score != 0.150e-2 OR NOT Known; WHEN Risky THEN hold(User, [null,]);" =
      .ok .risky ∧
    Program.risky.write = "LET Risky := or(not(eq(Score, 0.0015)), not(Known));\n" ++
      "WHEN Risky THEN hold(User, [null]);" ∧
    parse Program.risky.write = .ok .risky := by
  have parsed :
      parse "LET Risky := Score != 0.150e-2 OR NOT Known; WHEN Risky THEN hold(User, [null,]);" =
        .ok .risky := by
    decide +kernel
  exact ⟨parsed, by decide +kernel, parse_write_of_parse parsed (by decide +kernel)⟩

/-- Behind an equality sign a name may be a negation, and a number that is too large is infinite.
Neither is read again from what is written for it. -/
theorem parse_write_differs :
    (parse "LET X := A == not;" = .ok [.feature "X" (.call "eq" [.feature "A", .feature "not"])] ∧
      Program.write [.feature "X" (.call "eq" [.feature "A", .feature "not"])] =
        "LET X := eq(A, not);" ∧
      parse "LET X := eq(A, not);" = .ok [.feature "X" (.custom "eq" "A, not")]) ∧
    parse "LET X := 1e400;" = .ok [.feature "X" (.const (.float (.infinity false)))] ∧
      Program.write [.feature "X" (.const (.float (.infinity false)))] = "LET X := inf;" ∧
      parse "LET X := inf;" = .ok [.feature "X" (.feature "inf")] := by
  decide +kernel

end RuleGraph
