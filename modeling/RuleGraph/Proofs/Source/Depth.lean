import RuleGraph.Proofs.Source.Parsed

/-! # Expressions of any depth

An expression nests less deep than it has characters. So the bound on its depth that comes from the
length of the text never stops it, and an expression is read over expressions of whatever depth.

* **`Parser.AgreeBelow`** — two parsers do the same on all texts below a length.
* **`Source.agreeBelow_expressionOver`** — a level of nesting takes a character.
* **`Source.expression_eq`** — an expression is read over expressions.
-/

namespace RuleGraph

namespace Parser

variable {α β : Type} {length : Nat} {parser parser' other other' : Parser α} {kind : α → Prop}

/-- Two parsers do the same on all texts below a length. -/
def AgreeBelow (length : Nat) (parser parser' : Parser α) : Prop :=
  ∀ text : List Char, text.length < length → parser text = parser' text

namespace AgreeBelow

/-- A parser does the same as itself. -/
theorem refl : AgreeBelow length parser parser := fun _ _ => rfl

/-- Sequences. -/
theorem bind {next next' : α → Parser β} (first : AgreeBelow length parser parser')
    (yields : parser.Yields kind) (second : ∀ value, AgreeBelow length (next value) (next' value)) :
    AgreeBelow length (parser >>= next) (parser' >>= next') := by
  intro text short
  show Parser.bind parser next text = Parser.bind parser' next' text
  rw [Parser.bind, Parser.bind, ← first text short]
  cases read : parser text with
  | mk result rest =>
    cases result with
    | error => rfl
    | ok value =>
      exact second value rest ((yields text value rest read).2.length_le.trans_lt short)

/-- What stands behind a character may be longer by it. -/
theorem behind {next next' : α → Parser β} (advances : parser.Advances)
    (second : ∀ value, AgreeBelow length (next value) (next' value)) :
    AgreeBelow (length + 1) (parser >>= next) (parser >>= next') := by
  intro text short
  show Parser.bind parser next text = Parser.bind parser next' text
  rw [Parser.bind, Parser.bind]
  cases read : parser text with
  | mk result rest =>
    cases result with
    | error => rfl
    | ok value =>
      exact second value rest ((advances text value rest read).trans_le (Nat.le_of_lt_succ short))

/-- Alternatives. -/
theorem orElse (first : AgreeBelow length parser parser')
    (second : AgreeBelow length other other') :
    AgreeBelow length (Parser.orElse parser other) (Parser.orElse parser' other') := by
  intro text short
  rw [Parser.orElse, Parser.orElse, first text short, second text short]

/-- What may be there. -/
theorem optional (agree : AgreeBelow length parser parser') :
    AgreeBelow length (Parser.optional parser) (Parser.optional parser') := by
  intro text short
  rw [Parser.optional, Parser.optional, agree text short]

/-- With a description of what was expected. -/
theorem expecting {what : String} (agree : AgreeBelow length parser parser') :
    AgreeBelow length (Parser.expecting what parser) (Parser.expecting what parser') := by
  intro text short
  rw [Parser.expecting, Parser.expecting, agree text short]

/-- Values in a row. -/
theorem many (agree : AgreeBelow length parser parser') (yields : parser.Yields kind) :
    AgreeBelow length (Parser.many parser) (Parser.many parser') := by
  intro text short
  rw [Parser.many, Parser.many]
  generalize text.length + 1 = rounds
  induction rounds generalizing text with
  | zero => rfl
  | succ rounds ih =>
    simp only [Parser.manyUpTo, ← agree text short]
    cases read : parser text with
    | mk result rest =>
      cases result with
      | error failure =>
        obtain ⟨isFinal, expected⟩ := failure
        cases isFinal <;> rfl
      | ok value =>
        dsimp only
        rw [ih rest ((yields text value rest read).2.length_le.trans_lt short)]

/-- Values behind separators. -/
theorem further {separator : Parser Unit} {kindOf : Unit → Prop}
    (agree : AgreeBelow length parser parser') (between : separator.Yields kindOf)
    (yields : parser.Yields kind) :
    AgreeBelow length (Parser.further separator parser) (Parser.further separator parser') :=
  many (bind refl between fun _ => agree) (between.bind fun _ _ => yields)

/-- Separated values. -/
theorem separated {separator : Parser Unit} {kindOf : Unit → Prop}
    (agree : AgreeBelow length parser parser') (between : separator.Yields kindOf)
    (yields : parser.Yields kind) :
    AgreeBelow length (Parser.separated separator parser)
      (Parser.separated separator parser') := by
  refine bind (optional agree) yields.optional fun result => ?_
  cases result with
  | none => exact refl
  | some first =>
    exact bind (further agree between yields) (.further (between.mono fun _ _ => trivial) yields)
      fun _ => refl

end AgreeBelow

end Parser

namespace Source

open RuleGraph.Parser

/-! ## Levels of nesting -/

section

variable {length : Nat} {expr expr' : Parser Expr} {kind : Expr → Prop}
  (agree : AgreeBelow length expr expr') (yields : expr.Yields kind)
include agree yields

/-- Arguments. -/
theorem agreeBelow_arguments : AgreeBelow length (arguments expr) (arguments expr') :=
  .bind (agree.separated (yields_symbol ",") yields) (.separated (yields_symbol ",") yields)
    fun _ => .refl

/-- A call, behind its name. -/
theorem agreeBelow_callOrFeature :
    AgreeBelow (length + 1) (callOrFeature expr) (callOrFeature expr') := by
  have advances : identifier.Advances :=
    advances_satisfy.bind fun first => Yields.run.bind fun _ _ => .known
  refine .behind advances fun name => .bind .refl (yields_symbol "(").optional fun result => ?_
  cases result with
  | none => exact .refl
  | some _ =>
    have row : (arguments expr).Yields fun _ => True :=
      (Yields.separated (yields_symbol ",") yields).bind fun _ _ =>
        (yields_symbol ")").bind fun _ _ => .pure trivial
    exact .orElse (.bind (agreeBelow_arguments agree yields) row fun _ => .refl) .refl

/-- An expression between parentheses, behind the first of them. -/
theorem agreeBelow_parenthesised :
    AgreeBelow (length + 1) (parenthesised expr) (parenthesised expr') :=
  .behind advances_satisfy fun _ => .bind agree yields fun _ => .refl

/-- A list, behind its first bracket. -/
theorem agreeBelow_listLiteral :
    AgreeBelow (length + 1) (listLiteral expr) (listLiteral expr') :=
  .behind advances_satisfy fun _ => .bind (agree.separated (yields_symbol ",") yields)
    (.separated (yields_symbol ",") yields) fun _ => .refl

/-- A primary expression. -/
theorem agreeBelow_primary : AgreeBelow (length + 1) (primary expr) (primary expr') :=
  .bind .refl yields_blanks fun _ => .expecting (.orElse (agreeBelow_parenthesised agree yields)
    (.orElse .refl (.orElse .refl (.orElse (agreeBelow_listLiteral agree yields)
      (agreeBelow_callOrFeature agree yields)))))

end

/-- **A level of nesting takes a character**: what expressions over others do depends on what the
others do on shorter texts. -/
theorem agreeBelow_expressionOver {length : Nat} {expr expr' : Parser Expr}
    (agree : AgreeBelow length expr expr') (yields : expr.Yields Expr.IsParsed) :
    AgreeBelow (length + 1) (expressionOver expr) (expressionOver expr') := by
  have onPrimary := agreeBelow_primary agree yields
  have onEquality : AgreeBelow (length + 1) (equality expr) (equality expr') := by
    refine .bind onPrimary (yields_primary yields) fun left =>
      .bind .refl yields_equalitySign fun sign => ?_
    cases sign with
    | none => exact .refl
    | some negated => exact .bind onPrimary (yields_primary yields) fun _ => .refl
  have onUnary : AgreeBelow (length + 1) (unary expr) (unary expr') :=
    .bind .refl (yields_word "NOT").many fun _ =>
      .bind onEquality (yields_equality yields) fun _ => .refl
  have onOperands : ∀ {word function : String} {operand operand' : Parser Expr},
      AgreeBelow (length + 1) operand operand' → operand.Yields Expr.IsParsed →
      AgreeBelow (length + 1) (leftAssociative word function operand)
        (leftAssociative word function operand') :=
    fun same parsed => .bind same parsed fun _ =>
      .bind (same.further (yields_word _) parsed) (.further (yields_word _) parsed) fun _ => .refl
  exact .bind .refl yields_blanks fun _ => onOperands (onOperands onUnary (yields_unary yields))
    (yields_leftAssociative (isIdentifier_operator (by decide)) (yields_unary yields))

/-- Deep enough, the depth makes no difference. -/
theorem agreeBelow_expressionWithin {length depth depth' : Nat} (enough : length ≤ depth)
    (enough' : length ≤ depth') :
    AgreeBelow length (expressionWithin depth) (expressionWithin depth') := by
  induction length generalizing depth depth' with
  | zero => exact fun _ none => absurd none (Nat.not_lt_zero _)
  | succ length ih =>
    obtain ⟨less, rfl⟩ : ∃ less, depth = less + 1 := ⟨depth - 1, by omega⟩
    obtain ⟨less', rfl⟩ : ∃ less', depth' = less' + 1 := ⟨depth' - 1, by omega⟩
    exact agreeBelow_expressionOver (ih (by omega) (by omega)) (yields_expressionWithin less)

/-- **An expression is read over expressions.** -/
theorem expression_eq : expression = expressionOver expression := by
  funext text
  have inner : AgreeBelow text.length (expressionWithin text.length) expression := by
    intro shorter short
    rw [expression]
    exact agreeBelow_expressionWithin (show shorter.length + 1 ≤ text.length by omega)
      (Nat.le_refl _) shorter (Nat.lt_succ_self _)
  have outer := agreeBelow_expressionOver inner (yields_expressionWithin _) text
    (Nat.lt_succ_self _)
  rw [← outer, expression, expressionWithin]

end Source

end RuleGraph
