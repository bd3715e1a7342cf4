import RuleGraph.Proofs.Binary64.Magnitude
import RuleGraph.Proofs.Source.Results
import RuleGraph.Proofs.Source.Tokens
import RuleGraph.Source.Grammar

/-! # What source yields

The constants of a program are scalars and its names are identifiers, whatever the text is that it
was read from. What a parser of source leaves is always an end of the text.

* **`Expr.IsParsed`**, **`Definition.IsParsed`** — what expressions and definitions are made of.
* **`Source.yields_expressionWithin`** — all expressions that are read are so.
* **`Source.yields_program`** — so are all programs.
-/

namespace RuleGraph

open Source

/-- A value that a literal of source may stand for. -/
inductive Value.IsScalar : Value → Prop where
  /-- The null. -/
  | null : IsScalar .null
  /-- A truth value. -/
  | bool (value : Bool) : IsScalar (.bool value)
  /-- An integer. -/
  | int (value : Int64) : IsScalar (.int value)
  /-- A floating-point number. -/
  | float {value : Binary64} (number : value.isNaN = false) : IsScalar (.float value)
  /-- A text. -/
  | text (value : String) : IsScalar (.text value)

/-- An expression of scalars and identifiers. -/
inductive Expr.IsParsed : Expr → Prop where
  /-- A scalar. -/
  | const {value : Value} (scalar : value.IsScalar) : IsParsed (.const value)
  /-- A feature, whose name is none of the literal words. -/
  | feature {name : String} (named : IsIdentifier name)
    (other : name ≠ "true" ∧ name ≠ "false" ∧ name ≠ "null") : IsParsed (.feature name)
  /-- A list. -/
  | list {items : List Expr} (each : ∀ item ∈ items, IsParsed item) : IsParsed (.list items)
  /-- A call. -/
  | call {function : String} {args : List Expr} (named : IsIdentifier function)
    (each : ∀ arg ∈ args, IsParsed arg) : IsParsed (.call function args)
  /-- A call of raw text. -/
  | custom {function : String} {source : String} (named : IsIdentifier function) :
    IsParsed (.custom function source)

/-- A definition of expressions of scalars and identifiers. A rule has a statement. -/
inductive Definition.IsParsed : Definition → Prop where
  /-- A feature. -/
  | feature {name : String} {body : Expr} (named : IsIdentifier name) (parsed : body.IsParsed) :
    IsParsed (.feature name body)
  /-- A rule. -/
  | rule {condition : Option Expr} {calls : List Expr}
    (holds : ∀ body ∈ condition, body.IsParsed) (nonempty : calls ≠ [])
    (each : ∀ call ∈ calls, call.IsParsed) : IsParsed (.rule condition calls)

namespace Source

open RuleGraph.Parser

/-! ## Tokens -/

/-- Blanks and comments. -/
theorem yields_blanks : blanks.Yields fun _ => True :=
  fun _ _ _ reads => ⟨trivial, (reads_blanks_iff.1 reads).suffix⟩

/-- A name. -/
theorem yields_identifier : identifier.Yields IsIdentifier :=
  Yields.satisfy.bind fun first start => Yields.run.bind fun others inside =>
    .pure ⟨first, others, String.toList_ofList, start, inside⟩

/-- A word of the language. -/
theorem yields_keyword (letters : String) : (keyword letters).Yields fun _ => True :=
  Yields.literalBy.bind fun _ _ => .notFollowedBy

/-- A token. -/
theorem yields_symbol (letters : String) : (symbol letters).Yields fun _ => True :=
  yields_blanks.bind fun _ _ => .literalBy

/-- A character by its code point. -/
theorem yields_codePoint : codePoint.Yields fun _ => True := by
  refine Yields.expecting (Yields.satisfy.bind fun _ _ => Yields.run1.bind fun digits _ => ?_)
  dsimp only
  split_ifs
  · exact Yields.satisfy.bind fun _ _ => .pure trivial
  · exact Yields.satisfy.bind fun _ _ => .fail
  all_goals
    have none : (fail .tentative : Parser Char).Yields fun _ => True := .fail
  · exact none.bind fun _ _ => .pure trivial
  · exact none.bind fun _ _ => .fail

/-- An escaped character. -/
theorem yields_escape : escape.Yields fun _ => True := by
  refine Yields.satisfy.bind fun c _ => ?_
  split_ifs
  all_goals first | exact .pure trivial | exact yields_codePoint

/-- The characters of a text. -/
theorem yields_textBody (steps : Nat) : (textBody steps).Yields fun _ => True := by
  induction steps with
  | zero => exact .fail
  | succ steps ih =>
    refine Yields.satisfy.bind fun c _ => ?_
    split_ifs
    · exact .pure trivial
    · exact yields_escape.bind fun _ _ => ih.bind fun _ _ => .pure trivial
    · exact ih.bind fun _ _ => .pure trivial

/-- A text. -/
theorem yields_textLiteral : textLiteral.Yields fun _ => True := by
  have counted : remaining.Yields fun _ => True := by
    rintro text length rest ⟨⟩
    exact ⟨trivial, List.suffix_refl _⟩
  exact Yields.satisfy.bind fun _ _ => counted.bind fun length _ =>
    (yields_textBody _).bind fun _ _ => .pure trivial

/-- An exponent. -/
theorem yields_exponentPart : exponentPart.Yields fun _ => True :=
  Yields.satisfy.bind fun _ _ => Yields.satisfy.optional.bind fun _ _ =>
    Yields.run1.bind fun _ _ => .pure trivial

/-- A floating-point number. -/
theorem yields_floatLiteral : floatLiteral.Yields fun value => value.isNaN = false := by
  refine Yields.satisfy.optional.bind fun sign _ => Yields.run1.bind fun whole _ => ?_
  have fraction : fractionPart.Yields fun _ => True :=
    .orElse (Yields.satisfy.bind fun _ _ => Yields.run1.bind fun _ _ =>
      yields_exponentPart.optional.bind fun _ _ => .pure trivial) yields_exponentPart
  refine fraction.bind fun _ _ => ?_
  split
  · rename_i found
    exact .pure (Binary64.isNaN_of_ofUnsignedText? found)
  · exact .fail

/-- An integer. -/
theorem yields_intLiteral : intLiteral.Yields fun _ => True := by
  have magnitude : (do
      let sign ← optional (satisfy fun c => c = '+' || c = '-')
      let first ← satisfy fun c => Numeral.isDigit c && c ≠ '0'
      let rest ← run Numeral.isDigit
      let magnitude : Int := Numeral.ofDigits (first :: rest)
      return if sign = some '-' then -magnitude else magnitude : Parser Int).Yields
        fun _ => True :=
    Yields.satisfy.optional.bind fun _ _ => Yields.satisfy.bind fun _ _ =>
      Yields.run.bind fun _ _ => .pure trivial
  refine (magnitude.orElse (Yields.satisfy.bind fun _ _ => .pure trivial)).bind fun value _ => ?_
  split
  · exact .pure trivial
  · exact .fail

/-- A number. -/
theorem yields_number : number.Yields Value.IsScalar :=
  .orElse (yields_floatLiteral.bind fun _ number => .pure (.float number))
    (yields_intLiteral.bind fun value _ => .pure (.int value))

/-- Behind the parenthesis that closes a call an end of the text is left. -/
theorem suffix_of_splitCall? {state : ScanState} {text raw rest : List Char}
    (split : splitCall? state text = some (raw, rest)) : rest <:+ text := by
  induction text generalizing state raw with
  | nil => cases state <;> cases split
  | cons c text ih =>
    have later : ∀ {state : ScanState}, (splitCall? state text).map (fun split =>
        (c :: split.1, split.2)) = some (raw, rest) → rest <:+ c :: text := by
      intro state found
      obtain ⟨⟨raw', rest'⟩, inner, same⟩ := Option.map_eq_some_iff.1 found
      cases same
      exact (ih inner).trans (List.suffix_cons _ _)
    cases state with
    | code depth =>
      rw [splitCall?] at split
      split_ifs at split
      · cases split
        exact List.suffix_cons _ _
      all_goals exact later split
    | inText depth | escaped depth =>
      rw [splitCall?] at split
      exact later split

/-- The raw text of a call. -/
theorem yields_rawArguments : rawArguments.Yields fun _ => True := by
  intro text raw rest reads
  unfold Parser.Reads rawArguments at reads
  split at reads
  · rename_i found
    cases reads
    exact ⟨trivial, suffix_of_splitCall? found⟩
  · cases reads

/-! ## Expressions -/

/-- A name that is not called is a literal word or a feature. -/
theorem isParsed_ofName {name : String} (named : IsIdentifier name) : (ofName name).IsParsed := by
  unfold ofName
  split_ifs with isTrue isFalse isNull
  · exact .const (.bool true)
  · exact .const (.bool false)
  · exact .const .null
  · exact .feature named ⟨isTrue, isFalse, isNull⟩

/-- The name of an operator is an identifier. -/
theorem isIdentifier_operator {function : String} (listed : function ∈ ["or", "and", "not", "eq"]) :
    IsIdentifier function := by
  have all : ∀ name ∈ ["or", "and", "not", "eq"], IsIdentifier name := by decide
  exact all function listed

section

variable {expr : Parser Expr}

/-- A call, a feature or a literal word. -/
theorem yields_callOrFeature (yields : expr.Yields Expr.IsParsed) :
    (callOrFeature expr).Yields Expr.IsParsed := by
  refine yields_identifier.bind fun name named =>
    (yields_symbol "(").optional.bind fun result _ => ?_
  cases result with
  | none => exact .pure (isParsed_ofName named)
  | some _ =>
    have row : (arguments expr).Yields fun args => ∀ arg ∈ args, arg.IsParsed :=
      (Yields.separated (yields_symbol ",") yields).bind fun _ each =>
        (yields_symbol ")").bind fun _ _ => .pure each
    exact .orElse (row.bind fun _ each => .pure (.call named each))
      (yields_rawArguments.bind fun _ _ => .pure (.custom named))

/-- An expression between parentheses. -/
theorem yields_parenthesised (yields : expr.Yields Expr.IsParsed) :
    (parenthesised expr).Yields Expr.IsParsed :=
  Yields.satisfy.bind fun _ _ => yields.bind fun _ parsed =>
    (yields_symbol ")").bind fun _ _ => .pure parsed

/-- A list. -/
theorem yields_listLiteral (yields : expr.Yields Expr.IsParsed) :
    (listLiteral expr).Yields Expr.IsParsed :=
  Yields.satisfy.bind fun _ _ => (Yields.separated (yields_symbol ",") yields).bind fun _ each =>
    yields_blanks.bind fun _ _ => Yields.satisfy.optional.bind fun _ _ =>
      (yields_symbol "]").bind fun _ _ => .pure (.list each)

/-- A primary expression. -/
theorem yields_primary (yields : expr.Yields Expr.IsParsed) :
    (primary expr).Yields Expr.IsParsed :=
  yields_blanks.bind fun _ _ => .expecting (.orElse (yields_parenthesised yields)
    (.orElse (yields_textLiteral.bind fun value _ => .pure (.const (.text value)))
      (.orElse (yields_number.bind fun _ scalar => .pure (.const scalar))
        (.orElse (yields_listLiteral yields) (yields_callOrFeature yields)))))

/-- An equality sign. -/
theorem yields_equalitySign : equalitySign.Yields fun _ => True :=
  Yields.mono (fun _ _ => trivial) (Yields.optional (yields_blanks.bind fun _ _ =>
    .orElse (Yields.literalBy.bind fun _ _ => .known) (Yields.literalBy.bind fun _ _ => .known)))

/-- A comparison. -/
theorem yields_equality (yields : expr.Yields Expr.IsParsed) :
    (equality expr).Yields Expr.IsParsed := by
  refine (yields_primary yields).bind fun left onLeft => yields_equalitySign.bind fun sign _ => ?_
  cases sign with
  | none => exact .pure onLeft
  | some negated =>
    refine (yields_primary yields).bind fun right onRight => .pure ?_
    have comparison : (Expr.call "eq" [left, right]).IsParsed :=
      .call (isIdentifier_operator (by decide)) (by simp [onLeft, onRight])
    split
    · exact .call (isIdentifier_operator (by decide)) (by simpa using comparison)
    · exact comparison

/-- A word between blanks. -/
theorem yields_word (letters : String) :
    (do blanks; keyword letters : Parser Unit).Yields fun _ => True :=
  yields_blanks.bind fun _ _ => yields_keyword letters

/-- An expression under negations. -/
theorem yields_unary (yields : expr.Yields Expr.IsParsed) :
    (unary expr).Yields Expr.IsParsed := by
  refine (Yields.many (yields_word "NOT")).bind fun negations _ =>
    (yields_equality yields).bind fun operand parsed => .pure ?_
  induction negations with
  | nil => exact parsed
  | cons _ rest ih => exact .call (isIdentifier_operator (by decide)) (by simpa using ih)

/-- Operands of an operator. -/
theorem yields_leftAssociative {word function : String} (named : IsIdentifier function)
    {operand : Parser Expr} (yields : operand.Yields Expr.IsParsed) :
    (leftAssociative word function operand).Yields Expr.IsParsed := by
  refine yields.bind fun first onFirst => (Yields.further (yields_word word) yields).bind
    fun rest each => .pure ?_
  induction rest generalizing first with
  | nil => exact onFirst
  | cons next rest ih =>
    obtain ⟨onNext, others⟩ := List.forall_mem_cons.1 each
    exact ih _ (.call named (by simp [onFirst, onNext])) others

/-- An expression over others. -/
theorem yields_expressionOver (yields : expr.Yields Expr.IsParsed) :
    (expressionOver expr).Yields Expr.IsParsed :=
  yields_blanks.bind fun _ _ => yields_leftAssociative (isIdentifier_operator (by decide))
    (yields_leftAssociative (isIdentifier_operator (by decide)) (yields_unary yields))

end

/-- **Whatever expression is read is made of scalars and identifiers.** -/
theorem yields_expressionWithin (depth : Nat) :
    (expressionWithin depth).Yields Expr.IsParsed := by
  induction depth with
  | zero => exact .fail
  | succ depth ih => exact yields_expressionOver ih

/-- So is an expression of any depth. -/
theorem yields_expression : expression.Yields Expr.IsParsed := by
  intro text body rest reads
  rw [Parser.Reads, expression] at reads
  exact yields_expressionWithin _ text body rest reads

/-! ## Programs -/

/-- A definition. -/
theorem yields_definition : definition.Yields Definition.IsParsed := by
  have last : endOfDefinition.Yields fun _ => True := (yields_symbol ";").commit.expecting
  have calls : statementCalls.commit.Yields fun calls =>
      calls ≠ [] ∧ ∀ call ∈ calls, call.IsParsed :=
    (Yields.separated1 (yields_symbol ",") yields_expression).expecting.commit
  refine .orElse ?_ (.orElse ?_ ?_)
  · exact (yields_keyword _).bind fun _ _ =>
      (yields_blanks.bind fun _ _ => yields_identifier).commit.expecting.bind fun name named =>
        (yields_symbol _).commit.expecting.bind fun _ _ => yields_expression.commit.bind
          fun body parsed => last.bind fun _ _ => .pure (.feature named parsed)
  · exact (yields_keyword _).bind fun _ _ => yields_expression.commit.bind fun condition holds =>
      (yields_word _).commit.expecting.bind fun _ _ => calls.bind fun _ each =>
        last.bind fun _ _ => .pure (.rule (by simpa using holds) each.1 each.2)
  · exact (yields_keyword _).bind fun _ _ => calls.bind fun _ each =>
      last.bind fun _ _ => .pure (.rule (by simp) each.1 each.2)

/-- **Whatever program is read is made of scalars and identifiers.** -/
theorem yields_program : program.Yields fun definitions => ∀ item ∈ definitions, item.IsParsed :=
  (Yields.many (yields_blanks.bind fun _ _ => yields_definition)).bind fun _ each =>
    yields_blanks.bind fun _ _ => .pure each

end Source

/-- A program that is read is made of scalars and identifiers. -/
theorem isParsed_of_parse {source : String} {program : Program}
    (parsed : parse source = .ok program) : ∀ item ∈ program, item.IsParsed := by
  unfold parse parseChars at parsed
  split at parsed
  · rename_i definitions read
    cases parsed
    exact (yields_program _ _ _ read).1
  · cases parsed
  · cases parsed

end RuleGraph
