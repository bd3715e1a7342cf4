import RuleGraph.Proofs.Source.Floats
import RuleGraph.Proofs.Compile.Rewriting
import RuleGraph.Source.Grammar

/-! # Layouts of expressions

The texts of an expression differ in the blanks and comments between tokens. Where such a text
stands in front of something that cannot belong to it, the parser finds its end.

* **`Expr.IsWritable`** — expressions of literals and of names that are no words of the language.
* **`Expr.IsReadable`** — such expressions with finite numbers among the constants.
* **`Expr.Layout`** — the texts of an expression.
* **`Level`**, **`Source.StopsAt`** — how tight operators bind, and where operands cannot go on.
* **`Source.Stops`** — where an expression cannot go on.
* **`Source.reads_of_primary`** — an expression without operators at its top.
-/

namespace RuleGraph

open Source

/-! ## Texts of expressions -/

/-- A value that stands in source as a literal without a fraction. -/
inductive Value.IsLiteral : Value → Prop where
  /-- The null. -/
  | null : IsLiteral .null
  /-- A truth value. -/
  | bool (value : Bool) : IsLiteral (.bool value)
  /-- An integer. -/
  | int (value : Int64) : IsLiteral (.int value)
  /-- A text. -/
  | text (value : String) : IsLiteral (.text value)

/-- A value that is read from what is written for it: a literal, or a finite number whose text stands
for it. -/
inductive Value.IsReadable : Value → Prop where
  /-- A literal without a fraction. -/
  | literal {value : Value} (literal : value.IsLiteral) : IsReadable value
  /-- A finite number. -/
  | float {value : Binary64} (finite : value.IsFinite)
    (again : Binary64.ofText? (value.write .source) = some value) : IsReadable (.float value)

/-- A name that is not taken for a negation. -/
def IsName (name : String) : Prop :=
  IsIdentifier name ∧ wordOf name.toList ≠ ['n', 'o', 't']

instance (name : String) : Decidable (IsName name) :=
  inferInstanceAs (Decidable (_ ∧ _))

/-- A name that stands for a feature. -/
def IsFeatureName (name : String) : Prop :=
  IsName name ∧ name ≠ "true" ∧ name ≠ "false" ∧ name ≠ "null"

instance (name : String) : Decidable (IsFeatureName name) :=
  inferInstanceAs (Decidable (_ ∧ _))

namespace Expr

/-- An expression that source has a text for: its constants are literals, its names are none of the
words of the language, and a negation has one operand. -/
inductive IsWritable : Expr → Prop where
  /-- A literal. -/
  | const {value : Value} (literal : value.IsLiteral) : IsWritable (.const value)
  /-- A feature. -/
  | feature {name : String} (proper : IsFeatureName name) : IsWritable (.feature name)
  /-- A list. -/
  | list {items : List Expr} (each : ∀ item ∈ items, IsWritable item) : IsWritable (.list items)
  /-- A call. -/
  | call {function : String} {args : List Expr}
    (proper : IsName function ∨ function = "not" ∧ args.length = 1)
    (each : ∀ arg ∈ args, IsWritable arg) : IsWritable (.call function args)

/-- An expression that is read from what is written for it: a writable one, or one with finite
numbers. -/
inductive IsReadable : Expr → Prop where
  /-- A constant. -/
  | const {value : Value} (readable : value.IsReadable) : IsReadable (.const value)
  /-- A feature. -/
  | feature {name : String} (proper : IsFeatureName name) : IsReadable (.feature name)
  /-- A list. -/
  | list {items : List Expr} (each : ∀ item ∈ items, IsReadable item) : IsReadable (.list items)
  /-- A call. -/
  | call {function : String} {args : List Expr}
    (proper : IsName function ∨ function = "not" ∧ args.length = 1)
    (each : ∀ arg ∈ args, IsReadable arg) : IsReadable (.call function args)

/-- Writable expressions are readable. -/
theorem IsWritable.isReadable {body : Expr} (writable : body.IsWritable) : body.IsReadable := by
  induction body with
  | const =>
    cases writable with
    | const literal => exact .const (.literal literal)
  | feature =>
    cases writable with
    | feature proper => exact .feature proper
  | list items ih =>
    cases writable with
    | list each => exact .list fun item member => ih item member (each item member)
  | call function args ih =>
    cases writable with
    | call proper each => exact .call proper fun arg member => ih arg member (each arg member)
  | custom => cases writable

/-- Texts in a row, with commas between them. -/
inductive Separated : List (List Char) → List Char → Prop where
  /-- None. -/
  | none {gap : List Char} (isGap : IsGap gap) : Separated [] gap
  /-- The last one. -/
  | last {gap text gap' : List Char} (before : IsGap gap) (behind : IsGap gap') :
    Separated [text] (gap ++ (text ++ gap'))
  /-- One in front of others. -/
  | more {gap text gap' text' inner : List Char} {texts : List (List Char)} (before : IsGap gap)
    (behind : IsGap gap') (others : Separated (text' :: texts) inner) :
    Separated (text :: text' :: texts) (gap ++ (text ++ (gap' ++ ',' :: inner)))

/-- The texts of an expression: its tokens, with blanks and comments between them. -/
inductive Layout : Expr → List Char → Prop where
  /-- A literal value. -/
  | const (value : Value) : Layout (.const value) value.write.toList
  /-- A feature. -/
  | feature (name : String) : Layout (.feature name) name.toList
  /-- A list between brackets. -/
  | list {items : List Expr} {texts : List (List Char)} {inner : List Char}
    (each : List.Forall₂ Layout items texts) (separated : Separated texts inner) :
    Layout (.list items) ('[' :: (inner ++ [']']))
  /-- A call with its arguments between parentheses. -/
  | call {function : String} {args : List Expr} {texts : List (List Char)} {gap inner : List Char}
    (isGap : IsGap gap) (each : List.Forall₂ Layout args texts)
    (separated : Separated texts inner) :
    Layout (.call function args) (function.toList ++ (gap ++ '(' :: (inner ++ [')'])))

end Expr

/-- How tight the outermost operator of a text binds, from the tightest on. -/
inductive Level where
  /-- No operator, or one between parentheses. -/
  | primary
  /-- Equality. -/
  | comparison
  /-- `NOT`. -/
  | negation
  /-- `AND`. -/
  | conjunction
  /-- `OR`. -/
  | disjunction
  deriving DecidableEq

namespace Source

open RuleGraph.Parser RuleGraph.Numeral

variable {text rest gap : List Char} {expr : Parser Expr} {body : Expr} {level : Level}

/-! ## The end of an operand -/

/-- A text of a level does not go on with a token. -/
structure Ends (level : Level) (tail : List Char) : Prop where
  /-- A name is not called. -/
  uncalled : '(' ∉ tail.head?
  /-- No comparison goes on. -/
  uncompared : level ≠ .primary → '=' ∉ tail.head? ∧ '!' ∉ tail.head?
  /-- No conjunction goes on. -/
  notAnd : level = .conjunction ∨ level = .disjunction → wordOf tail ≠ ['a', 'n', 'd']
  /-- No disjunction goes on. -/
  notOr : level = .disjunction → wordOf tail ≠ ['o', 'r']

/-- A text of a level that ends in front of a text ends there in whatever way it is read. -/
structure StopsAt (level : Level) (text : List Char) : Prop where
  /-- No name goes on. -/
  ends : EndsName text
  /-- The next token is none that goes on. -/
  token : ∃ gap tail, text = gap ++ tail ∧ IsGap gap ∧ StartsToken tail ∧ Ends level tail

namespace StopsAt

/-- Where a text of a level stops, one of a tighter level does. -/
theorem mono {level' : Level} (stops : StopsAt level text)
    (tighter : ∀ tail, Ends level tail → Ends level' tail) : StopsAt level' text := by
  obtain ⟨ends, gap, tail, same, isGap, starts, stop⟩ := stops
  exact ⟨ends, gap, tail, same, isGap, starts, tighter tail stop⟩

/-- Where a disjunction stops, a conjunction does. -/
theorem conjunction (stops : StopsAt .disjunction text) : StopsAt .conjunction text :=
  stops.mono fun _ ends => ⟨ends.uncalled, fun _ => ends.uncompared (by decide),
    fun _ => ends.notAnd (by decide), fun same => absurd same (by decide)⟩

/-- Where a conjunction stops, a negation does. -/
theorem negation (stops : StopsAt .conjunction text) : StopsAt .negation text :=
  stops.mono fun _ ends => ⟨ends.uncalled, fun _ => ends.uncompared (by decide),
    fun same => absurd same (by decide), fun same => absurd same (by decide)⟩

/-- Where a negation stops, a comparison does. -/
theorem comparison (stops : StopsAt .negation text) : StopsAt .comparison text :=
  stops.mono fun _ ends => ⟨ends.uncalled, fun _ => ends.uncompared (by decide),
    fun same => absurd same (by decide), fun same => absurd same (by decide)⟩

/-- Where a comparison stops, its operands do. -/
theorem primary (stops : StopsAt .comparison text) : StopsAt .primary text :=
  stops.mono fun _ ends => ⟨ends.uncalled, fun same => absurd rfl same,
    fun same => absurd same (by decide), fun same => absurd same (by decide)⟩

/-- No arguments follow. -/
theorem declines_symbol (stops : StopsAt level text) : (symbol "(").Declines text := by
  obtain ⟨-, gap, tail, rfl, isGap, starts, stop⟩ := stops
  refine Source.declines_symbol isGap starts ?_ (by decide)
  rintro c ⟨⟩
  exact stop.uncalled

/-- No comparison follows. -/
theorem reads_equalitySign (stops : StopsAt .comparison text) :
    equalitySign.Reads text none text := by
  obtain ⟨-, gap, tail, rfl, isGap, starts, stop⟩ := stops
  obtain ⟨notEqual, notUnequal⟩ := stop.uncompared (by decide)
  exact Declines.optional ((reads_blanks isGap starts).bind_declines (Declines.orElse_declines
    (Declines.bind _ (declines_literal notEqual)) (Declines.bind _ (declines_literal notUnequal))))

/-- No operand of a conjunction follows. -/
theorem declines_and (stops : StopsAt .conjunction text) :
    (do blanks; keyword "AND" : Parser Unit).Declines text := by
  obtain ⟨-, gap, tail, rfl, isGap, starts, stop⟩ := stops
  exact (reads_blanks isGap starts).bind_declines
    (declines_keyword (by decide) (stop.notAnd (by decide)))

/-- No operand of a disjunction follows. -/
theorem declines_or (stops : StopsAt .disjunction text) :
    (do blanks; keyword "OR" : Parser Unit).Declines text := by
  obtain ⟨-, gap, tail, rfl, isGap, starts, stop⟩ := stops
  exact (reads_blanks isGap starts).bind_declines
    (declines_keyword (by decide) (stop.notOr (by decide)))

end StopsAt

/-! ## The end of an expression -/

/-- An expression that ends in front of a text ends there in whatever way it is read: neither a name
nor a call, a comparison or another operation goes on. -/
structure Stops (text : List Char) : Prop where
  /-- No name goes on. -/
  ends : EndsName text
  /-- The next token is none that goes on. -/
  token : ∃ gap tail, text = gap ++ tail ∧ IsGap gap ∧ StartsToken tail ∧
    (∀ c ∈ tail.head?, c ≠ '(' ∧ c ≠ '=' ∧ c ≠ '!') ∧
    wordOf tail ≠ ['a', 'n', 'd'] ∧ wordOf tail ≠ ['o', 'r']

/-- An expression ends in front of a comma, a semicolon and closing brackets. -/
theorem stops_delimiter (isGap : IsGap gap) {c : Char} (delimiter : c ∈ [',', ';', ')', ']']) :
    Stops (gap ++ c :: rest) := by
  have all : ∀ d ∈ [',', ';', ')', ']'], isNameChar d = false ∧ d ≠ '.' ∧
      Text.isBlank d = false ∧ d ≠ '#' ∧ d ≠ '(' ∧ d ≠ '=' ∧ d ≠ '!' := by decide
  obtain ⟨notName, notPoint, notBlank, notComment, other⟩ := all c delimiter
  have noWord : wordOf (c :: rest) = [] := by
    rw [wordOf, List.takeWhile_cons_of_neg (by simp [notName])]
    rfl
  refine ⟨isGap.endsName ?_, gap, c :: rest, rfl, isGap, ?_, ?_, ?_, ?_⟩
  · rintro d ⟨⟩
    exact ⟨notName, notPoint⟩
  · rintro d ⟨⟩
    exact ⟨notBlank, notComment⟩
  · rintro d ⟨⟩
    exact other
  · rw [noWord]
    decide
  · rw [noWord]
    decide

namespace Stops

variable (stops : Stops text)
include stops

/-- Where an expression stops, all operations do. -/
theorem stopsAt : StopsAt .disjunction text := by
  obtain ⟨gap, tail, same, isGap, starts, other, notAnd, notOr⟩ := stops.token
  refine ⟨stops.ends, gap, tail, same, isGap, starts, fun here => (other _ here).1 rfl, fun _ =>
    ⟨fun here => (other _ here).2.1 rfl, fun here => (other _ here).2.2 rfl⟩, fun _ => notAnd,
    fun _ => notOr⟩

/-- No arguments follow. -/
theorem declines_symbol : (symbol "(").Declines text := stops.stopsAt.declines_symbol

/-- No comparison follows. -/
theorem reads_equalitySign : equalitySign.Reads text none text :=
  stops.stopsAt.conjunction.negation.comparison.reads_equalitySign

/-- No operand of a conjunction follows. -/
theorem declines_and : (do blanks; keyword "AND" : Parser Unit).Declines text :=
  stops.stopsAt.conjunction.declines_and

/-- No operand of a disjunction follows. -/
theorem declines_or : (do blanks; keyword "OR" : Parser Unit).Declines text :=
  stops.stopsAt.declines_or

end Stops

/-! ## Operators -/

/-- An operand alone is the whole operation. -/
theorem reads_leftAssociative {word function : String} {operand : Parser Expr}
    (reads : operand.Reads text body rest)
    (other : (do blanks; keyword word : Parser Unit).Declines rest) :
    (leftAssociative word function operand).Reads text body rest :=
  Reads.bind reads (Reads.bind (ReadsAll.none (other.bind _)).many .pure)

/-- An expression without operators at its top is read as its unary part. -/
theorem reads_expressionOver (isGap : IsGap gap) (starts : StartsToken text)
    (reads : (unary expr).Reads text body rest) (stops : Stops rest) :
    (expressionOver expr).Reads (gap ++ text) body rest :=
  Reads.bind (reads_blanks isGap starts)
    (reads_leftAssociative (reads_leftAssociative reads stops.declines_and) stops.declines_or)

/-- Another word is no negation. -/
theorem declines_negation (starts : StartsToken text) (other : wordOf text ≠ ['n', 'o', 't']) :
    negation.Declines text :=
  (reads_blanks_nil starts).bind_declines (declines_keyword (by decide) other)

/-- A primary expression in front of no comparison is an operand. -/
theorem reads_equality (reads : (primary expr).Reads text body rest) (stops : Stops rest) :
    (equality expr).Reads text body rest :=
  Reads.bind reads (Reads.bind stops.reads_equalitySign .pure)

/-- A primary expression is read where an expression is. -/
theorem reads_of_primary (isGap : IsGap gap) (starts : StartsToken text)
    (other : wordOf text ≠ ['n', 'o', 't']) (reads : (primary expr).Reads text body rest)
    (stops : Stops rest) : (expressionOver expr).Reads (gap ++ text) body rest :=
  reads_expressionOver isGap starts
    (Reads.bind (ReadsAll.none (declines_negation starts other)).many
      (Reads.bind (reads_equality reads stops) .pure)) stops

/-- A negation is read with its operand. -/
theorem reads_not {gap' : List Char} (isGap : IsGap gap) (isGap' : IsGap gap')
    (ends : EndsName (gap' ++ text)) (token : StartsToken text)
    (single : wordOf text ≠ ['n', 'o', 't'])
    (reads : (equality expr).Reads (gap' ++ text) body rest) (stops : Stops rest) :
    (expressionOver expr).Reads (gap ++ ("not".toList ++ (gap' ++ text))) (.call "not" [body])
      rest := by
  have starts : StartsToken ("not".toList ++ (gap' ++ text)) := by
    rintro c ⟨⟩
    decide
  have first : negation.Reads ("not".toList ++ (gap' ++ text)) () (gap' ++ text) :=
    Reads.bind (reads_blanks_nil starts) (reads_keyword (by decide) fun c here => (ends c here).1)
  have declined : negation.Declines (gap' ++ text) :=
    (reads_blanks isGap' token).bind_declines (declines_keyword (by decide) single)
  have shorter : (gap' ++ text).length < ("not".toList ++ (gap' ++ text)).length := by
    have letters : "not".toList.length = 3 := rfl
    simp only [List.length_append, letters]
    omega
  have all : ReadsAll negation ("not".toList ++ (gap' ++ text)) [()] (gap' ++ text) :=
    .more first shorter (.none declined)
  exact reads_expressionOver isGap starts (Reads.bind all.many (Reads.bind reads .pure)) stops

end Source

end RuleGraph
