import RuleGraph.Proofs.Source.Depth
import RuleGraph.Proofs.Source.Expressions

/-! # Infix texts

Expressions of operators are written with the operators between their operands. The operators of one
level bind tighter than those of the next: equality, `NOT`, `AND` and `OR`. An operand of a looser
level stands between parentheses, and parentheses may stand around any operand.

* **`Expr.Infix`** — the infix texts of an expression.
* **`Source.ReadsAs`** — how a text of a level is read.
* **`Source.readsAs_of_isInfix`** — every infix text of an expression is read so.
* **`Source.readsAnywhere_of_isInfix`** — and so as the expression.
-/

namespace RuleGraph

open Source

/-- A word for an operator, in any letter case. -/
def Source.IsWord (letters : String) (word : List Char) : Prop :=
  letters ∈ ["NOT", "AND", "OR"] ∧ word.map Char.toLower = letters.toList.map Char.toLower

/-- The texts of an expression with operators between their operands, at a level. Conjunctions and
disjunctions associate to the left, and equality takes primary operands. Any text of the loosest
level may stand between parentheses. -/
inductive Expr.Infix : Level → Expr → List Char → Prop where
  /-- A literal. -/
  | literal {value : Value} (literal : value.IsLiteral) :
    Infix .primary (.const value) value.write.toList
  /-- A feature. -/
  | feature {name : String} (proper : IsFeatureName name) :
    Infix .primary (.feature name) name.toList
  /-- A call with its arguments between parentheses. -/
  | call {function : String} {parts : List (Expr × List Char)} {gap inner : List Char}
    (isName : IsName function) (isGap : IsGap gap)
    (each : ∀ part ∈ parts, Infix .disjunction part.1 part.2)
    (separated : Separated (parts.map Prod.snd) inner) :
    Infix .primary (.call function (parts.map Prod.fst))
      (function.toList ++ (gap ++ '(' :: (inner ++ [')'])))
  /-- Any text between parentheses. -/
  | grouped {body : Expr} {text gap gap' : List Char} (isGap : IsGap gap) (isGap' : IsGap gap')
    (inner : Infix .disjunction body text) :
    Infix .primary body ('(' :: (gap ++ (text ++ (gap' ++ [')']))))
  /-- No comparison. -/
  | ofPrimary {body : Expr} {text : List Char} (single : Infix .primary body text) :
    Infix .comparison body text
  /-- The comparison of two operands. -/
  | equal {left right : Expr} {text text' gap gap' : List Char} (isGap : IsGap gap)
    (isGap' : IsGap gap') (onLeft : Infix .primary left text)
    (onRight : Infix .primary right text') :
    Infix .comparison (.call "eq" [left, right]) (text ++ (gap ++ '=' :: '=' :: (gap' ++ text')))
  /-- The negated comparison of two operands. -/
  | unequal {left right : Expr} {text text' gap gap' : List Char} (isGap : IsGap gap)
    (isGap' : IsGap gap') (onLeft : Infix .primary left text)
    (onRight : Infix .primary right text') :
    Infix .comparison (.call "not" [.call "eq" [left, right]])
      (text ++ (gap ++ '!' :: '=' :: (gap' ++ text')))
  /-- No negation. -/
  | ofComparison {body : Expr} {text : List Char} (single : Infix .comparison body text) :
    Infix .negation body text
  /-- The negation of an operand. -/
  | not {operand : Expr} {word text gap : List Char} (isWord : IsWord "NOT" word)
    (isGap : IsGap gap) (apart : EndsName (gap ++ text)) (inner : Infix .negation operand text) :
    Infix .negation (.call "not" [operand]) (word ++ (gap ++ text))
  /-- No conjunction. -/
  | ofNegation {body : Expr} {text : List Char} (single : Infix .negation body text) :
    Infix .conjunction body text
  /-- The conjunction of two operands. -/
  | and {left right : Expr} {text text' word gap gap' : List Char}
    (isWord : IsWord "AND" word) (isGap : IsGap gap) (apart : gap ≠ [])
    (isGap' : IsGap gap') (apart' : EndsName (gap' ++ text'))
    (onLeft : Infix .conjunction left text)
    (onRight : Infix .negation right text') :
    Infix .conjunction (.call "and" [left, right]) (text ++ (gap ++ (word ++ (gap' ++ text'))))
  /-- No disjunction. -/
  | ofConjunction {body : Expr} {text : List Char} (single : Infix .conjunction body text) :
    Infix .disjunction body text
  /-- The disjunction of two operands. -/
  | or {left right : Expr} {text text' word gap gap' : List Char}
    (isWord : IsWord "OR" word) (isGap : IsGap gap) (apart : gap ≠ [])
    (isGap' : IsGap gap') (apart' : EndsName (gap' ++ text'))
    (onLeft : Infix .disjunction left text)
    (onRight : Infix .conjunction right text') :
    Infix .disjunction (.call "or" [left, right]) (text ++ (gap ++ (word ++ (gap' ++ text'))))

namespace Source

open RuleGraph.Parser RuleGraph.Numeral

variable {text text' rest gap gap' word : List Char} {body left right : Expr} {level : Level}
  {operand : Parser Expr} {letters function : String}

/-! ## Words between operands -/

/-- Whatever stands behind it, a blank or a comment ends a name. -/
theorem IsGap.endsName_of_ne_nil (isGap : IsGap gap) (nonempty : gap ≠ []) :
    EndsName (gap ++ rest) := by
  have alone : EndsName (gap ++ []) := isGap.endsName (by rintro c ⟨⟩)
  rw [List.append_nil] at alone
  obtain ⟨c, others, rfl⟩ := List.exists_cons_of_ne_nil nonempty
  exact alone

/-- The characters of a word may stand in a name. -/
theorem IsWord.isNameChar (isWord : IsWord letters word) : ∀ c ∈ word, isNameChar c = true := by
  obtain ⟨listed, same⟩ := isWord
  have isAlpha : ∀ letters ∈ ["NOT", "AND", "OR"], ∀ c ∈ letters.toList, c.isAlpha = true := by
    decide
  rw [← List.forall₂_eq_eq_eq, List.forall₂_map_left_iff, List.forall₂_map_right_iff] at same
  exact isNameChar_of_agrees (same.imp fun _ _ => decide_eq_true) (isAlpha letters listed)

/-- A word has a first character. -/
theorem IsWord.exists_cons (isWord : IsWord letters word) :
    ∃ c others, word = c :: others ∧ Source.isNameChar c = true := by
  cases word with
  | nil =>
    have nonempty : ∀ letters ∈ ["NOT", "AND", "OR"], letters.toList ≠ [] := by decide
    exact absurd (List.map_eq_nil_iff.1 isWord.2.symm) (nonempty letters isWord.1)
  | cons c others => exact ⟨c, others, rfl, isWord.isNameChar c List.mem_cons_self⟩

/-- A word is read behind blanks. -/
theorem IsWord.reads (isWord : IsWord letters word) (isGap : IsGap gap) (ends : EndsName rest) :
    (do blanks; keyword letters : Parser Unit).Reads (gap ++ (word ++ rest)) () rest := by
  obtain ⟨c, others, rfl, inside⟩ := isWord.exists_cons
  refine Reads.bind (reads_blanks isGap ?_) (reads_keyword isWord.2 fun c here => (ends c here).1)
  rintro d ⟨⟩
  exact not_isBlank_of_isNameChar inside

/-- No comparison goes on with a word. -/
theorem IsWord.ends (isWord : IsWord letters word) : Ends .negation (word ++ rest) := by
  obtain ⟨c, others, rfl, inside⟩ := isWord.exists_cons
  have nameless : ∀ d ∈ ['(', '=', '!'], d ∉ (c :: others ++ rest).head? := by
    have none : ∀ d ∈ ['(', '=', '!'], Source.isNameChar d = false := by decide
    rintro d listed ⟨⟩
    rw [none c listed] at inside
    cases inside
  exact ⟨nameless _ (by decide), fun _ => ⟨nameless _ (by decide), nameless _ (by decide)⟩,
    fun same => absurd same (by decide), fun same => absurd same (by decide)⟩

/-- No conjunction goes on with `OR`. -/
theorem IsWord.ends_or (isWord : IsWord "OR" word) (ends : EndsName rest) :
    Ends .conjunction (word ++ rest) := by
  obtain ⟨uncalled, uncompared, -, -⟩ := @IsWord.ends rest word _ isWord
  refine ⟨uncalled, fun _ => uncompared (by decide), fun _ => ?_,
    fun same => absurd same (by decide)⟩
  rw [wordOf_append fun c here => (ends c here).1, wordOf,
    List.takeWhile_eq_self_iff.2 isWord.isNameChar, isWord.2]
  decide

/-- An operand ends in front of a word behind a blank. -/
theorem IsWord.stopsAt (isWord : IsWord letters word) (isGap : IsGap gap) (apart : gap ≠ [])
    (ends : Ends level (word ++ rest)) : StopsAt level (gap ++ (word ++ rest)) := by
  refine ⟨isGap.endsName_of_ne_nil apart, gap, word ++ rest, rfl, isGap, ?_, ends⟩
  obtain ⟨c, others, rfl, inside⟩ := isWord.exists_cons
  rintro d ⟨⟩
  exact not_isBlank_of_isNameChar inside

/-! ## How texts begin -/

/-- A text has a first token. -/
structure BeginsToken (text : List Char) : Prop where
  /-- It has a character. -/
  nonempty : text ≠ []
  /-- It begins with no blank and no comment. -/
  starts : StartsToken text

/-- What stands behind a text that has a token does not matter for its beginning. -/
theorem BeginsToken.append (begins : BeginsToken text) : BeginsToken (text ++ rest) := by
  obtain ⟨nonempty, starts⟩ := begins
  obtain ⟨c, others, rfl⟩ := List.exists_cons_of_ne_nil nonempty
  exact ⟨List.cons_ne_nil _ _, starts⟩

/-- Nor for where a name ends in front of it. -/
theorem BeginsToken.endsName (begins : BeginsToken text) (ends : EndsName (gap ++ text)) :
    EndsName (gap ++ (text ++ rest)) := by
  rw [← List.append_assoc]
  intro c here
  rw [List.head?_append_of_ne_nil _ (by simp [begins.nonempty])] at here
  exact ends c here

/-- What is written for a literal has a token. -/
theorem beginsToken_literal {value : Value} (literal : value.IsLiteral) :
    BeginsToken value.write.toList := by
  have starts := (@starts_const [] _ (.literal literal) (by rintro c ⟨⟩)).1
  rw [List.append_nil] at starts
  refine ⟨?_, starts⟩
  cases literal with
  | null => decide
  | bool value => cases value <;> decide
  | int value =>
    show (intText value).toList ≠ []
    rw [intText, toList_intText]
    exact List.append_ne_nil_of_right_ne_nil _ (isNumeral_digits _).ne_nil
  | text value =>
    show (Text.quote value).toList ≠ []
    rw [Text.quote, String.toList_ofList]
    exact List.cons_ne_nil _ _

/-- Every infix text has a token. -/
theorem beginsToken_of_isInfix (isInfix : body.Infix level text) : BeginsToken text := by
  have named : ∀ {name : String} {rest : List Char}, IsIdentifier name →
      BeginsToken (name.toList ++ rest) := by
    intro name rest isIdentifier
    refine ⟨?_, startsToken_of_isIdentifier isIdentifier⟩
    obtain ⟨first, others, same, -⟩ := isIdentifier
    rw [same]
    exact List.cons_ne_nil _ _
  induction isInfix with
  | literal literal => exact beginsToken_literal literal
  | @feature name proper =>
    rw [← List.append_nil name.toList]
    exact named proper.1.1
  | call isName => exact named isName.1
  | grouped => exact ⟨List.cons_ne_nil _ _, by rintro c ⟨⟩; decide⟩
  | ofPrimary _ ih | ofComparison _ ih | ofNegation _ ih | ofConjunction _ ih => exact ih
  | equal _ _ _ _ ih | unequal _ _ _ _ ih => exact ih.append
  | and _ _ _ _ _ _ _ ih | or _ _ _ _ _ _ _ ih => exact ih.append
  | not isWord =>
    obtain ⟨c, others, rfl, inside⟩ := isWord.exists_cons
    exact ⟨List.cons_ne_nil _ _, by rintro d ⟨⟩; exact not_isBlank_of_isNameChar inside⟩

/-- A comparison does not begin with `NOT`. -/
theorem wordOf_ne_of_isInfix (isInfix : body.Infix level text)
    (tight : level = .primary ∨ level = .comparison)
    (ends : ∀ c ∈ rest.head?, isNameChar c = false) : wordOf (text ++ rest) ≠ ['n', 'o', 't'] := by
  have behind : ∀ {gap tail : List Char} {c : Char}, IsGap gap → isNameChar c = false → c ≠ '.' →
      ∀ d ∈ (gap ++ c :: tail).head?, isNameChar d = false := by
    intro gap tail c isGap notName notPoint d here
    refine (isGap.endsName ?_ d here).1
    rintro e ⟨⟩
    exact ⟨notName, notPoint⟩
  induction isInfix generalizing rest with
  | literal literal => exact (starts_const (.literal literal) ends).2
  | feature proper =>
    rw [wordOf_append ends]
    exact proper.1.2
  | call isName isGap =>
    rw [List.append_assoc, List.append_assoc, List.cons_append, wordOf_append]
    · exact isName.2
    · exact behind isGap (by decide) (by decide)
  | grouped => exact wordOf_ne (by rintro c ⟨⟩; decide)
  | ofPrimary _ ih => exact ih (.inl rfl) ends
  | equal isGap _ _ _ ih | unequal isGap _ _ _ ih =>
    rw [List.append_assoc, List.append_assoc]
    exact ih (.inl rfl) (behind isGap (by decide) (by decide))
  | _ => rcases tight with same | same <;> cases same

/-! ## Reading -/

/-- An operand is read wherever it stands in front of something that does not go on. -/
def ReadsBefore (level : Level) (operand : Parser Expr) (body : Expr) (text : List Char) : Prop :=
  ∀ gap rest, IsGap gap → StopsAt level rest → operand.Reads (gap ++ (text ++ rest)) body rest

/-- Operands with a word between them are read one by one, and then those that follow. -/
def ReadsRow (letters function : String) (level : Level) (operand : Parser Expr) (body : Expr)
    (text : List Char) : Prop :=
  ∀ gap rest values last, IsGap gap → StopsAt level rest →
    ReadsAll (Parser.bind (do blanks; keyword letters) fun _ => operand) rest values last →
    ∃ first others middle, operand.Reads (gap ++ (text ++ rest)) first middle ∧
      ReadsAll (Parser.bind (do blanks; keyword letters) fun _ => operand) middle
        (others ++ values) last ∧
      others.foldl (fun combined next => .call function [combined, next]) first = body

/-- An operand alone. -/
theorem ReadsBefore.row (reads : ReadsBefore level operand body text) :
    ReadsRow letters function level operand body text :=
  fun gap rest _ _ isGap stops all => ⟨body, [], rest, reads gap rest isGap stops, all, rfl⟩

/-- A further operand. -/
theorem ReadsRow.join (row : ReadsRow letters function level operand left text)
    (reads : ReadsBefore level operand right text') (isWord : IsWord letters word)
    (isGap : IsGap gap) (isGap' : IsGap gap') (begins : BeginsToken text')
    (apart : EndsName (gap' ++ text')) (nonempty : gap ≠ [])
    (stop : ∀ rest, EndsName rest → Ends level (word ++ rest)) :
    ReadsRow letters function level operand (.call function [left, right])
      (text ++ (gap ++ (word ++ (gap' ++ text')))) := by
  intro before rest values last isBefore stops all
  have ends : EndsName (gap' ++ (text' ++ rest)) := begins.endsName apart
  have further : (Parser.bind (do blanks; keyword letters) fun _ => operand).Reads
      (gap ++ (word ++ (gap' ++ (text' ++ rest)))) right rest :=
    Reads.bind (isWord.reads isGap ends) (reads gap' rest isGap' stops)
  obtain ⟨first, others, middle, reads', all', same⟩ := row before _ (right :: values) last isBefore
    (isWord.stopsAt isGap nonempty (stop _ ends)) (.more further (by
      have := List.length_pos_of_ne_nil begins.nonempty
      simp only [List.length_append]
      omega) all)
  refine ⟨first, others ++ [right], middle, ?_, ?_, ?_⟩
  · simpa only [List.append_assoc] using reads'
  · simpa using all'
  · rw [List.foldl_append, same]
    rfl

/-- Operands in a row are read up to where no other one follows. -/
theorem ReadsRow.reads (row : ReadsRow letters function level operand body text)
    (isGap : IsGap gap) (stops : StopsAt level rest)
    (declines : (do blanks; keyword letters : Parser Unit).Declines rest) :
    (leftAssociative letters function operand).Reads (gap ++ (text ++ rest)) body rest := by
  obtain ⟨first, others, middle, reads, all, same⟩ :=
    row gap rest [] rest isGap stops (.none (declines.bind _))
  rw [List.append_nil] at all
  refine Reads.bind reads (Reads.bind all.many ?_)
  rw [same]
  exact .pure

/-- An operand is read behind its negations. -/
def ReadsNegated (body : Expr) (text : List Char) : Prop :=
  ∀ gap rest, IsGap gap → StopsAt .negation rest →
    ∃ negations middle operand, ReadsAll negation (gap ++ (text ++ rest)) negations middle ∧
      (equality expression).Reads middle operand rest ∧
      negations.foldr (fun _ inner => .call "not" [inner]) operand = body

/-- Operands of `AND` are read as they are under negations. -/
theorem ReadsNegated.reads (negated : ReadsNegated body text) :
    ReadsBefore .negation (unary expression) body text := by
  intro gap rest isGap stops
  obtain ⟨negations, middle, operand, all, reads, same⟩ := negated gap rest isGap stops
  refine Reads.bind all.many (Reads.bind reads ?_)
  rw [same]
  exact .pure

/-- How the texts of a level are read: a primary expression and a comparison at once, an operand of
`AND` behind its negations, and the operands of `AND` and `OR` one by one. -/
def ReadsAs : Level → Expr → List Char → Prop
  | .primary => ReadsBefore .primary (primary expression)
  | .comparison => ReadsBefore .comparison (equality expression)
  | .negation => ReadsNegated
  | .conjunction => ReadsRow "AND" "and" .negation (unary expression)
  | .disjunction =>
    ReadsRow "OR" "or" .conjunction (leftAssociative "AND" "and" (unary expression))

/-- Operands of `OR` are read as conjunctions are. -/
theorem reads_conjunction (row : ReadsAs .conjunction body text) :
    ReadsBefore .conjunction (leftAssociative "AND" "and" (unary expression)) body text :=
  fun _ _ isGap stops => row.reads isGap stops.negation stops.declines_and

/-- What is read as a disjunction is read as an expression, wherever it stands. -/
theorem readsAnywhere_of_readsAs (row : ReadsAs .disjunction body text)
    (begins : BeginsToken text) : ReadsAnywhere expression body text := by
  intro gap rest isGap stops
  rw [expression_eq]
  refine Reads.bind (reads_blanks isGap begins.append.starts) ?_
  have reads := row.reads .nil stops.stopsAt.conjunction stops.declines_or
  rwa [List.nil_append] at reads

/-- Blanks may stand in front of a primary expression. -/
theorem reads_primary_gap (isGap : IsGap gap) (starts : StartsToken text)
    (reads : (primary expression).Reads text body rest) :
    (primary expression).Reads (gap ++ text) body rest := by
  obtain ⟨⟨⟩, middle, blank, inner⟩ := reads_bind_iff.1 reads
  cases blank.symm.trans (reads_blanks_nil starts)
  exact Reads.bind (reads_blanks isGap starts) inner

/-- Two operands with an equality sign between them are read as their comparison. -/
theorem reads_comparison {sign : List Char} {negated : Bool} {before : List Char}
    (listed : (sign, negated) ∈ [(['=', '='], false), (['!', '='], true)])
    (onLeft : ReadsBefore .primary (primary expression) left text)
    (onRight : ReadsBefore .primary (primary expression) right text') (isBefore : IsGap before)
    (isGap : IsGap gap) (isGap' : IsGap gap') (stops : StopsAt .comparison rest) :
    (equality expression).Reads (before ++ (text ++ (gap ++ (sign ++ (gap' ++ (text' ++ rest))))))
      (if negated then .call "not" [.call "eq" [left, right]] else .call "eq" [left, right])
      rest := by
  -- Both signs begin with a character that ends a name and calls nothing.
  obtain ⟨c, tail, same, apart, sign'⟩ : ∃ c tail, sign = c :: tail ∧
      (isNameChar c = false ∧ c ≠ '.' ∧ c ≠ '(' ∧ Text.isBlank c = false ∧ c ≠ '#') ∧
      (orElse (do literal ['=', '=']; return false) (do literal ['!', '=']; return true) :
        Parser Bool).Reads (sign ++ (gap' ++ (text' ++ rest))) negated
          (gap' ++ (text' ++ rest)) := by
    rcases List.mem_pair.1 listed with same | same
    · cases same
      exact ⟨'=', ['='], rfl, by decide, Reads.orElse _ (Reads.bind (reads_literal _) .pure)⟩
    · cases same
      exact ⟨'!', ['='], rfl, by decide, Declines.orElse
        (Declines.bind _ (declines_literal (by rintro ⟨⟩))) (Reads.bind (reads_literal _) .pure)⟩
  subst same
  obtain ⟨notName, notPoint, notOpen, notBlank, notComment⟩ := apart
  have starts : StartsToken (c :: tail ++ (gap' ++ (text' ++ rest))) := by
    rintro d ⟨⟩
    exact ⟨notBlank, notComment⟩
  have stop : StopsAt .primary (gap ++ (c :: tail ++ (gap' ++ (text' ++ rest)))) := by
    refine ⟨isGap.endsName ?_, gap, _, rfl, isGap, starts, ⟨?_, fun same => absurd rfl same,
      fun same => absurd same (by decide), fun same => absurd same (by decide)⟩⟩
    · rintro d ⟨⟩
      exact ⟨notName, notPoint⟩
    · rintro ⟨⟩
      exact notOpen rfl
  exact Reads.bind (onLeft before _ isBefore stop)
    (Reads.bind (Reads.bind (reads_blanks isGap starts) sign').optional
      (Reads.bind (onRight gap' rest isGap' stops.primary) .pure))

/-- **Every infix text of an expression is read as its level is.** -/
theorem readsAs_of_isInfix (isInfix : body.Infix level text) : ReadsAs level body text := by
  induction isInfix with
  | literal literal =>
    intro gap rest isGap stops
    have starts := (starts_const (.literal literal) fun c here => (stops.ends c here).1).1
    exact reads_primary_gap isGap starts
      (reads_primary_const (.literal literal) stops.ends stops.declines_symbol)
  | feature proper =>
    intro gap rest isGap stops
    have reads := @reads_primary_ofName rest expression _ proper.1.1 stops.ends
      stops.declines_symbol
    rw [ofName_eq_feature proper.2] at reads
    exact reads_primary_gap isGap (startsToken_of_isIdentifier proper.1.1) reads
  | @call function parts start inner isName isStart each separated ih =>
    intro gap rest isGap stops
    have all : List.Forall₂ (ReadsAnywhere expression) (parts.map Prod.fst)
        (parts.map Prod.snd) := by
      rw [List.forall₂_map_left_iff, List.forall₂_map_right_iff, List.forall₂_same]
      exact fun part member => readsAnywhere_of_readsAs (ih part member)
        (beginsToken_of_isInfix (each part member))
    have whole := @reads_arguments rest expression _ _ inner separated all fun gap rest isGap => by
      rw [expression_eq]
      exact declines_expressionOver isGap (by decide)
    have flat : function.toList ++ (start ++ '(' :: (inner ++ [')'])) ++ rest =
        function.toList ++ (start ++ '(' :: (inner ++ ')' :: rest)) := by simp
    rw [flat]
    exact reads_primary_gap isGap (startsToken_of_isIdentifier isName.1)
      (reads_primary_name (fun c => isNameStart_of_isIdentifier isName.1)
        (reads_callOrFeature isName.1 isStart whole))
  | @grouped body text start behind isStart isBehind isInfix ih =>
    intro gap rest isGap stops
    have inner := readsAnywhere_of_readsAs ih (beginsToken_of_isInfix isInfix) start
      (behind ++ ')' :: rest) isStart (stops_delimiter isBehind (by decide))
    have closing : (symbol ")").Reads (behind ++ ')' :: rest) () rest :=
      reads_symbol ")" isBehind (by rintro c ⟨⟩; decide)
    have flat : '(' :: (start ++ (text ++ (behind ++ [')']))) ++ rest =
        '(' :: (start ++ (text ++ (behind ++ ')' :: rest))) := by simp
    rw [flat]
    exact reads_primary_parenthesised isGap
      (Reads.bind (reads_char '(') (Reads.bind inner (Reads.bind closing .pure)))
  | ofPrimary _ ih =>
    exact fun gap rest isGap stops =>
      Reads.bind (ih gap rest isGap stops.primary) (Reads.bind stops.reads_equalitySign .pure)
  | equal isGap isGap' _ _ onLeft onRight =>
    intro before rest isBefore stops
    have listed : (['=', '='], false) ∈ [(['=', '='], false), (['!', '='], true)] := by decide
    simpa using reads_comparison listed onLeft onRight isBefore isGap isGap' stops
  | unequal isGap isGap' _ _ onLeft onRight =>
    intro before rest isBefore stops
    have listed : (['!', '='], true) ∈ [(['=', '='], false), (['!', '='], true)] := by decide
    simpa using reads_comparison listed onLeft onRight isBefore isGap isGap' stops
  | ofComparison isInfix ih =>
    intro gap rest isGap stops
    have begins := beginsToken_of_isInfix isInfix
    have declined : negation.Declines (gap ++ (_ ++ rest)) :=
      (reads_blanks isGap begins.append.starts).bind_declines (declines_keyword (by decide)
        (wordOf_ne_of_isInfix isInfix (.inr rfl) fun c here => (stops.ends c here).1))
    exact ⟨[], _, _, .none declined, ih gap rest isGap stops.comparison, rfl⟩
  | @not operand word text gap isWord isGap apart isInfix ih =>
    intro before rest isBefore stops
    obtain ⟨negations, middle, inner, all, reads, rfl⟩ := ih gap rest isGap stops
    have ends : EndsName (gap ++ (text ++ rest)) :=
      (beginsToken_of_isInfix isInfix).endsName apart
    have first := isWord.reads isBefore ends
    refine ⟨() :: negations, middle, inner, ?_, reads, rfl⟩
    obtain ⟨c, others, rfl, -⟩ := isWord.exists_cons
    rw [List.append_assoc, List.append_assoc]
    refine .more first ?_ all
    simp only [List.length_append, List.length_cons]
    omega
  | ofNegation _ ih => exact ih.reads.row
  | and isWord isGap nonempty isGap' apart _ isInfix onLeft onRight =>
    exact onLeft.join onRight.reads isWord isGap isGap' (beginsToken_of_isInfix isInfix) apart
      nonempty fun _ _ => isWord.ends
  | ofConjunction _ ih => exact (reads_conjunction ih).row
  | or isWord isGap nonempty isGap' apart _ isInfix onLeft onRight =>
    exact onLeft.join (reads_conjunction onRight) isWord isGap isGap'
      (beginsToken_of_isInfix isInfix) apart nonempty fun _ => isWord.ends_or

/-- Every infix text of an expression is read as the expression, wherever it stands. -/
theorem readsAnywhere_of_isInfix (isInfix : body.Infix .disjunction text) :
    ReadsAnywhere expression body text :=
  readsAnywhere_of_readsAs (readsAs_of_isInfix isInfix) (beginsToken_of_isInfix isInfix)

end Source

end RuleGraph
