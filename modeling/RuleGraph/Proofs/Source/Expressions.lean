import RuleGraph.Proofs.Source.FirstToken
import RuleGraph.Proofs.Source.Layout

/-! # Expressions are read

Every text of an expression is read as the expression.

* **`Source.reads_primary_const`**, **`Source.reads_listLiteral`** — literals and lists.
* **`Source.reads_separated`** — expressions in a row.
* **`Source.reads_expressionWithin`** — every text of an expression is read as the expression.
-/

namespace RuleGraph.Source

open RuleGraph.Parser RuleGraph.Numeral

variable {text rest gap : List Char} {expr : Parser Expr} {body : Expr}

/-! ## Primary expressions -/

/-- An expression between parentheses is primary. -/
theorem reads_primary_parenthesised (isGap : IsGap gap)
    (reads : (parenthesised expr).Reads ('(' :: text) body rest) :
    (primary expr).Reads (gap ++ '(' :: text) body rest :=
  Reads.bind (reads_blanks isGap (by rintro c ⟨⟩; decide))
    (Reads.expecting _ (Reads.orElse _ reads))

/-- A text begins with a quote. -/
theorem eq_of_mem_head?_quote {value : String} {c : Char}
    (here : c ∈ ((Text.quote value).toList ++ rest).head?) : c = '"' := by
  rw [Text.quote, Text.quoteChars, String.toList_ofList] at here
  cases here
  rfl

/-- An integer begins with a digit or a minus sign. -/
theorem of_mem_head?_intText {n : Int64} {c : Char}
    (here : c ∈ ((intText n).toList ++ rest).head?) : isDigit c = true ∨ c = '-' := by
  rw [intText, toList_intText, List.append_assoc, signOf] at here
  split at here
  · cases here
    exact .inr rfl
  · exact .inl (isDigit_of_mem_head?_digits here)

/-- A text is primary. -/
theorem reads_primary_text (value : String) :
    (primary expr).Reads ((Text.quote value).toList ++ rest) (.const (.text value)) rest := by
  refine Reads.bind (reads_blanks_nil fun c here => ?_) (Reads.expecting _ (Declines.orElse
    (Declines.bind _ (declines_char fun here => ?_)) (Reads.orElse _ ?_)))
  · exact eq_of_mem_head?_quote here ▸ by decide
  · exact absurd (eq_of_mem_head?_quote here) (by decide)
  · exact Reads.bind (reads_textLiteral value) .pure

/-- A number is primary. -/
theorem reads_primary_number {value : Value}
    (begins : ∀ c ∈ text.head?, isDigit c = true ∨ c = '-')
    (reads : number.Reads text value rest) : (primary expr).Reads text (.const value) rest := by
  have apart : ∀ d ∈ ['(', '"'], d ∉ text.head? := by
    have others : ∀ d ∈ ['(', '"'], ¬(isDigit d = true ∨ d = '-') := by decide
    exact fun d listed here => others d listed (begins d here)
  refine Reads.bind (reads_blanks_nil fun c here => ?_) (Reads.expecting _ (Declines.orElse
    (Declines.bind _ (declines_char (apart _ (by decide)))) (Declines.orElse
      (Declines.bind _ (declines_textLiteral (apart _ (by decide)))) (Reads.orElse _ ?_))))
  · rcases begins c here with digit | rfl
    · exact not_isBlank_of_isNameChar (isNameChar_of_isDigit digit)
    · decide
  · exact Reads.bind reads .pure

/-- A list is primary. -/
theorem reads_primary_list (reads : (listLiteral expr).Reads ('[' :: text) body rest) :
    (primary expr).Reads ('[' :: text) body rest := by
  refine Reads.bind (reads_blanks_nil (by rintro c ⟨⟩; decide)) (Reads.expecting _ (Declines.orElse
    (Declines.bind _ (declines_char (by simp))) (Declines.orElse
      (Declines.bind _ (declines_textLiteral (by simp))) (Declines.orElse
        (Declines.bind _ (declines_number (by rintro c ⟨⟩; decide))) (Reads.orElse _ reads)))))

/-- What begins with a name is primary. -/
theorem reads_primary_name (starts : ∀ c ∈ text.head?, isNameStart c = true)
    (reads : (callOrFeature expr).Reads text body rest) :
    (primary expr).Reads text body rest := by
  cases text with
  | nil => exact absurd (declines_identifier (by rintro c ⟨⟩)) fun declines =>
      reads.not_declines (declines.bind _)
  | cons c others =>
    have begins := starts c rfl
    have token := not_isBlank_of_isNameChar (isNameChar_of_isNameStart begins)
    refine (reads_primary_iff_of_isNameStart begins (@IsGap.skips [] _ .nil ?_)).2 reads
    rintro d ⟨⟩
    exact token

/-- No expression begins with a closing bracket. -/
theorem declines_expressionOver (isGap : IsGap gap) {c : Char} (closing : c ∈ [')', ']']) :
    (expressionOver expr).Declines (gap ++ c :: rest) := by
  have all : ∀ d ∈ [')', ']'], Text.isBlank d = false ∧ d ≠ '#' ∧ beginsPrimary d = false := by
    decide
  obtain ⟨notBlank, notComment, other⟩ := all c closing
  refine declines_expressionOver_of_skips (isGap.skips ?_) ?_
  · rintro d ⟨⟩
    exact ⟨notBlank, notComment⟩
  · rintro d ⟨⟩
    exact other

/-! ## Expressions in a row -/

/-- A parser reads an expression from a text, wherever it stands. -/
def ReadsAnywhere (expr : Parser Expr) (body : Expr) (text : List Char) : Prop :=
  ∀ gap rest, IsGap gap → Stops rest → expr.Reads (gap ++ (text ++ rest)) body rest

/-- Expressions in a row are read one by one, up to what closes the row. -/
theorem readsAll_separated {body : Expr} {bodies : List Expr} {text inner : List Char}
    {texts : List (List Char)} (separated : Expr.Separated (text :: texts) inner)
    (each : List.Forall₂ (ReadsAnywhere expr) (body :: bodies) (text :: texts)) {c : Char}
    (closing : c ∈ [';', ')', ']']) :
    ∃ middle gap, IsGap gap ∧ middle.length ≤ (inner ++ c :: rest).length ∧
      expr.Reads (inner ++ c :: rest) body middle ∧
      ReadsAll (Parser.bind (symbol ",") fun _ => expr) middle bodies (gap ++ c :: rest) := by
  generalize same : text :: texts = all at separated each
  induction separated generalizing body bodies text texts with
  | none => cases same
  | @last gap text' gap' before behind =>
    cases each with
    | cons first others =>
      cases others
      have delimiter : c ∈ [',', ';', ')', ']'] := List.mem_cons_of_mem _ closing
      refine ⟨gap' ++ c :: rest, gap', behind, ?_, ?_, .none (Declines.bind _ ?_)⟩
      · simp only [List.length_append]
        omega
      · rw [List.append_assoc, List.append_assoc]
        exact first _ _ before (stops_delimiter behind delimiter)
      · have others : ∀ d ∈ [';', ')', ']'], Text.isBlank d = false ∧ d ≠ '#' ∧ d ≠ ',' := by
          decide
        obtain ⟨notBlank, notComment, notComma⟩ := others c closing
        refine declines_symbol behind ?_ ?_ (by decide)
        · rintro d ⟨⟩
          exact ⟨notBlank, notComment⟩
        · rintro d ⟨⟩ ⟨⟩
          exact notComma rfl
  | @more gap text' gap' text'' inner texts' before behind _ ih =>
    cases each with
    | @cons _ _ bodies' _ first others =>
      cases others with
      | @cons body' _ bodies'' _ second others =>
        obtain ⟨middle, last, isGap, shorter, reads, all⟩ := ih rfl (.cons second others)
        have comma : Stops (gap' ++ ',' :: (inner ++ c :: rest)) :=
          stops_delimiter behind List.mem_cons_self
        refine ⟨gap' ++ ',' :: (inner ++ c :: rest), last, isGap, ?_, ?_, .more ?_ ?_ all⟩
        · simp only [List.length_append, List.length_cons]
          omega
        · have whole : gap ++ (text' ++ (gap' ++ ',' :: inner)) ++ c :: rest =
              gap ++ (text' ++ (gap' ++ ',' :: (inner ++ c :: rest))) := by simp
          rw [whole]
          exact first _ _ before comma
        · refine Reads.bind (reads_symbol "," behind ?_) reads
          rintro d ⟨⟩
          decide
        · rw [List.length_append, List.length_cons]
          omega

/-- Expressions in a row are read, up to blanks in front of what closes the row. -/
theorem reads_separated {bodies : List Expr} {texts : List (List Char)} {inner : List Char}
    (separated : Expr.Separated texts inner)
    (each : List.Forall₂ (ReadsAnywhere expr) bodies texts) {c : Char}
    (closing : c ∈ [';', ')', ']'])
    (none : ∀ gap rest, IsGap gap → expr.Declines (gap ++ c :: rest)) :
    ∃ gap, IsGap gap ∧
      (Parser.separated (symbol ",") expr).Reads (inner ++ c :: rest) bodies
        (gap ++ c :: rest) := by
  cases each with
  | nil =>
    cases separated with
    | none isGap => exact ⟨_, isGap, Reads.bind (none _ _ isGap).optional .pure⟩
  | cons first others =>
    obtain ⟨middle, gap, isGap, -, reads, all⟩ :=
      readsAll_separated separated (.cons first others) closing
    exact ⟨gap, isGap, Reads.bind reads.optional (Reads.bind all.many .pure)⟩

/-! ## Every layout -/

/-- A name is read as a call with the arguments between parentheses. -/
theorem reads_callOrFeature {function : String} {args : List Expr} {inner : List Char}
    (isIdentifier : IsIdentifier function) (isGap : IsGap gap)
    (reads : (arguments expr).Reads (inner ++ ')' :: rest) args rest) :
    (callOrFeature expr).Reads (function.toList ++ (gap ++ '(' :: (inner ++ ')' :: rest)))
      (.call function args) rest := by
  have opening : EndsName (gap ++ '(' :: (inner ++ ')' :: rest)) := isGap.endsName (by
    rintro c ⟨⟩
    decide)
  have bracket : (symbol "(").Reads (gap ++ '(' :: (inner ++ ')' :: rest)) ()
      (inner ++ ')' :: rest) := reads_symbol "(" isGap (by rintro c ⟨⟩; decide)
  exact Reads.bind (reads_identifier isIdentifier opening) (Reads.bind bracket.optional
    (Reads.orElse _ (Reads.bind reads .pure)))

/-- Arguments are read up to the closing parenthesis. -/
theorem reads_arguments {args : List Expr} {texts : List (List Char)} {inner : List Char}
    (separated : Expr.Separated texts inner) (each : List.Forall₂ (ReadsAnywhere expr) args texts)
    (none : ∀ gap rest, IsGap gap → expr.Declines (gap ++ ')' :: rest)) :
    (arguments expr).Reads (inner ++ ')' :: rest) args rest := by
  obtain ⟨gap, isGap, reads⟩ := reads_separated separated each (by decide) none
  exact Reads.bind reads (Reads.bind (reads_symbol ")" isGap (by rintro c ⟨⟩; decide)) .pure)

/-- A list is read up to its closing bracket. -/
theorem reads_listLiteral {items : List Expr} {texts : List (List Char)} {inner : List Char}
    (separated : Expr.Separated texts inner) (each : List.Forall₂ (ReadsAnywhere expr) items texts)
    (none : ∀ gap rest, IsGap gap → expr.Declines (gap ++ ']' :: rest)) :
    (listLiteral expr).Reads ('[' :: (inner ++ ']' :: rest)) (.list items) rest := by
  obtain ⟨gap, isGap, reads⟩ := reads_separated separated each (by decide) none
  have starts : ∀ {text}, StartsToken (']' :: text) := by
    rintro text c ⟨⟩
    decide
  have last : (symbol "]").Reads (']' :: rest) () rest := reads_symbol "]" .nil starts
  exact Reads.bind (reads_char '[') (Reads.bind reads (Reads.bind (reads_blanks isGap starts)
    (Reads.bind (declines_char (by simp)).optional (Reads.bind last .pure))))

/-- A name that is none of the literal words stands for a feature. -/
theorem ofName_eq_feature {name : String}
    (literals : name ≠ "true" ∧ name ≠ "false" ∧ name ≠ "null") : ofName name = .feature name := by
  obtain ⟨notTrue, notFalse, notNull⟩ := literals
  rw [ofName, if_neg notTrue, if_neg notFalse, if_neg notNull]

/-- A name without arguments is read as what it stands for. -/
theorem reads_primary_ofName {name : String} (isIdentifier : IsIdentifier name)
    (ends : EndsName rest) (uncalled : (symbol "(").Declines rest) :
    (primary expr).Reads (name.toList ++ rest) (ofName name) rest :=
  reads_primary_name (fun _ => isNameStart_of_isIdentifier isIdentifier)
    (Reads.bind (reads_identifier isIdentifier ends) (Reads.bind uncalled.optional .pure))

/-- Every text of a constant is read as the constant. -/
theorem reads_primary_const {value : Value} (readable : value.IsReadable) (ends : EndsName rest)
    (uncalled : (symbol "(").Declines rest) :
    (primary expr).Reads (value.write.toList ++ rest) (.const value) rest := by
  have word := fun name isIdentifier =>
    @reads_primary_ofName rest expr name isIdentifier ends uncalled
  cases readable with
  | float finite again =>
    exact reads_primary_number (fun c => of_mem_head?_float finite)
      (reads_number_float finite again ends)
  | literal literal =>
    cases literal with
    | null => exact word "null" ⟨'n', ['u', 'l', 'l'], rfl, by decide, by decide⟩
    | bool value =>
      cases value with
      | true => exact word "true" ⟨'t', ['r', 'u', 'e'], rfl, by decide, by decide⟩
      | false => exact word "false" ⟨'f', ['a', 'l', 's', 'e'], rfl, by decide, by decide⟩
    | int value =>
      exact reads_primary_number (fun c => of_mem_head?_intText) (reads_number value ends)
    | text value => exact reads_primary_text value

/-- What begins like a number begins a token, and is no negation. -/
theorem starts_number (begins : ∀ c ∈ text.head?, isDigit c = true ∨ c = '-') :
    StartsToken text ∧ wordOf text ≠ ['n', 'o', 't'] := by
  refine ⟨fun c here => ?_, wordOf_ne fun c here => ?_⟩
  · rcases begins c here with digit | rfl
    · exact not_isBlank_of_isNameChar (isNameChar_of_isDigit digit)
    · decide
  · rcases begins c here with digit | rfl
    · rw [toLower_of_isDigit digit]
      rintro rfl
      exact absurd digit (by decide)
    · decide

/-- A constant begins a token, and is no negation. -/
theorem starts_const {value : Value} (readable : value.IsReadable)
    (ends : ∀ c ∈ rest.head?, isNameChar c = false) :
    StartsToken (value.write.toList ++ rest) ∧
      wordOf (value.write.toList ++ rest) ≠ ['n', 'o', 't'] := by
  cases readable with
  | float finite => exact starts_number fun c => of_mem_head?_float finite
  | literal literal =>
    cases literal with
    | null => exact ⟨by rintro c ⟨⟩; decide, by rw [wordOf_append ends]; decide⟩
    | bool value =>
      rw [wordOf_append ends]
      cases value with
      | true => exact ⟨by rintro c ⟨⟩; decide, by decide⟩
      | false => exact ⟨by rintro c ⟨⟩; decide, by decide⟩
    | int value => exact starts_number fun c => of_mem_head?_intText
    | text value =>
      refine ⟨fun c here => ?_, wordOf_ne fun c here => ?_⟩
      · exact eq_of_mem_head?_quote here ▸ by decide
      · exact eq_of_mem_head?_quote here ▸ by decide

/-- A text in a row is no longer than the row. -/
theorem length_le_of_separated {texts : List (List Char)} {inner : List Char}
    (separated : Expr.Separated texts inner) : ∀ text ∈ texts, text.length ≤ inner.length := by
  induction separated with
  | none => simp
  | @last gap text gap' =>
    intro other member
    rw [List.mem_singleton.1 member, List.length_append, List.length_append]
    omega
  | @more gap text gap' text' inner texts _ _ _ ih =>
    intro other member
    rw [List.length_append, List.length_append, List.length_append, List.length_cons]
    rcases List.mem_cons.1 member with rfl | later
    · omega
    · have shorter := ih other later
      omega

/-- A negation is read with what it negates between parentheses. -/
theorem reads_negated {arg : Expr} {before text after : List Char} (isGap : IsGap gap)
    {start : List Char} (isStart : IsGap start) (isBefore : IsGap before) (isAfter : IsGap after)
    (reads : ReadsAnywhere expr arg text) (stops : Stops rest) :
    (expressionOver expr).Reads
      (gap ++ ("not".toList ++ (start ++ '(' :: (before ++ (text ++ (after ++ ')' :: rest))))))
      (.call "not" [arg]) rest := by
  have closing : Stops (after ++ ')' :: rest) := stops_delimiter isAfter (by decide)
  have bracket : (symbol ")").Reads (after ++ ')' :: rest) () rest :=
    reads_symbol ")" isAfter (by rintro c ⟨⟩; decide)
  have inner := reads before (after ++ ')' :: rest) isBefore closing
  have whole : (parenthesised expr).Reads ('(' :: (before ++ (text ++ (after ++ ')' :: rest)))) arg
      rest := Reads.bind (reads_char '(') (Reads.bind inner (Reads.bind bracket .pure))
  refine reads_not isGap isStart (isStart.endsName (by rintro c ⟨⟩; decide))
    (by rintro c ⟨⟩; decide) (wordOf_ne (by rintro c ⟨⟩; decide)) ?_ stops
  exact reads_equality (reads_primary_parenthesised isStart whole) stops

/-- What is so of every text of each of several expressions is so of their texts. -/
theorem forall₂_of_layouts {holds : Expr → List Char → Prop} {bodies : List Expr}
    {texts : List (List Char)} (each : List.Forall₂ Expr.Layout bodies texts)
    (all : ∀ body ∈ bodies, ∀ text ∈ texts, body.Layout text → holds body text) :
    List.Forall₂ holds bodies texts := by
  induction each with
  | nil => exact .nil
  | cons layout _ ih =>
    refine .cons (all _ List.mem_cons_self _ List.mem_cons_self layout) (ih ?_)
    exact fun body member text among =>
      all body (List.mem_cons_of_mem _ member) text (List.mem_cons_of_mem _ among)

/-- A constant is read. -/
theorem readsAnywhere_const {value : Value} (readable : value.IsReadable) :
    ReadsAnywhere (expressionOver expr) (.const value) value.write.toList := by
  intro gap rest isGap stops
  obtain ⟨starts, other⟩ := starts_const readable fun c here => (stops.ends c here).1
  exact reads_of_primary isGap starts other
    (reads_primary_const readable stops.ends stops.declines_symbol) stops

/-- A feature is read. -/
theorem readsAnywhere_feature {name : String} (proper : IsFeatureName name) :
    ReadsAnywhere (expressionOver expr) (.feature name) name.toList := by
  obtain ⟨⟨isIdentifier, other⟩, literals⟩ := proper
  intro gap rest isGap stops
  have reads := @reads_primary_ofName rest expr name isIdentifier stops.ends stops.declines_symbol
  rw [ofName_eq_feature literals] at reads
  refine reads_of_primary isGap (startsToken_of_isIdentifier isIdentifier) ?_ reads stops
  rwa [wordOf_append fun c here => (stops.ends c here).1]

section Row

variable {bodies : List Expr} {texts : List (List Char)} {start inner : List Char}
  (separated : Expr.Separated texts inner) (each : List.Forall₂ (ReadsAnywhere expr) bodies texts)
include separated each

/-- A list is read. -/
theorem readsAnywhere_list (none : ∀ gap rest, IsGap gap → expr.Declines (gap ++ ']' :: rest)) :
    ReadsAnywhere (expressionOver expr) (.list bodies) ('[' :: (inner ++ [']'])) := by
  intro gap rest isGap stops
  have whole := @reads_listLiteral rest expr bodies texts inner separated each none
  have flat : '[' :: (inner ++ [']']) ++ rest = '[' :: (inner ++ ']' :: rest) := by simp
  rw [flat]
  exact reads_of_primary isGap (by rintro c ⟨⟩; decide) (wordOf_ne (by rintro c ⟨⟩; decide))
    (reads_primary_list whole) stops

/-- A call is read. -/
theorem readsAnywhere_call {function : String} (isName : IsName function) (isStart : IsGap start)
    (none : ∀ gap rest, IsGap gap → expr.Declines (gap ++ ')' :: rest)) :
    ReadsAnywhere (expressionOver expr) (.call function bodies)
      (function.toList ++ (start ++ '(' :: (inner ++ [')']))) := by
  obtain ⟨isIdentifier, other⟩ := isName
  intro gap rest isGap stops
  have whole := @reads_arguments rest expr bodies texts inner separated each none
  have flat : function.toList ++ (start ++ '(' :: (inner ++ [')'])) ++ rest =
      function.toList ++ (start ++ '(' :: (inner ++ ')' :: rest)) := by simp
  have ends : EndsName (start ++ '(' :: (inner ++ ')' :: rest)) :=
    isStart.endsName (by rintro c ⟨⟩; decide)
  rw [flat]
  refine reads_of_primary isGap (startsToken_of_isIdentifier isIdentifier) ?_
    (reads_primary_name (fun c => isNameStart_of_isIdentifier isIdentifier)
      (reads_callOrFeature isIdentifier isStart whole)) stops
  rwa [wordOf_append fun c here => (ends c here).1]

/-- A negation is read, which is no call to the parser. -/
theorem readsAnywhere_negation (single : bodies.length = 1) (isStart : IsGap start) :
    ReadsAnywhere (expressionOver expr) (.call "not" bodies)
      ("not".toList ++ (start ++ '(' :: (inner ++ [')']))) := by
  intro gap rest isGap stops
  cases each with
  | nil => cases single
  | @cons arg text _ _ first others =>
    cases others with
    | cons => cases single
    | nil =>
      cases separated with
      | @last before _ behind isBefore isBehind =>
        have flat :
            "not".toList ++ (start ++ '(' :: (before ++ (text ++ behind) ++ [')'])) ++ rest =
            "not".toList ++ (start ++ '(' :: (before ++ (text ++ (behind ++ ')' :: rest)))) := by
          simp
        rw [flat]
        exact reads_negated isGap isStart isBefore isBehind first stops

end Row

/-- **Every text of an expression is read as the expression**, in more levels than it has
characters. -/
theorem reads_expressionWithin {text : List Char} (layout : body.Layout text)
    (readable : body.IsReadable) {depth : Nat} (enough : text.length < depth) :
    ReadsAnywhere (expressionWithin depth) body text := by
  induction body generalizing text depth with
  | const value =>
    obtain ⟨less, rfl⟩ : ∃ less, depth = less + 1 := ⟨depth - 1, by omega⟩
    cases layout
    cases readable with
    | const readable => exact readsAnywhere_const readable
  | feature name =>
    obtain ⟨less, rfl⟩ : ∃ less, depth = less + 1 := ⟨depth - 1, by omega⟩
    cases layout
    cases readable with
    | feature proper => exact readsAnywhere_feature proper
  | list items ih =>
    cases layout with
    | @list _ texts inner each separated =>
      rw [List.length_cons, List.length_append] at enough
      obtain ⟨less, rfl⟩ : ∃ less, depth = less + 1 + 1 := ⟨depth - 2, by omega⟩
      cases readable with
      | list all =>
        have reads : List.Forall₂ (ReadsAnywhere (expressionWithin (less + 1))) items texts := by
          refine forall₂_of_layouts each fun item member text among layout => ?_
          have shorter := length_le_of_separated separated text among
          exact ih item member layout (all item member) (by omega)
        exact readsAnywhere_list separated reads fun gap rest isGap =>
          declines_expressionOver isGap (by decide)
  | call function args ih =>
    cases layout with
    | @call _ _ texts start inner isStart each separated =>
      simp only [List.length_cons, List.length_append] at enough
      obtain ⟨less, rfl⟩ : ∃ less, depth = less + 1 + 1 := ⟨depth - 2, by omega⟩
      cases readable with
      | call proper all =>
        have reads : List.Forall₂ (ReadsAnywhere (expressionWithin (less + 1))) args texts := by
          refine forall₂_of_layouts each fun arg member text among layout => ?_
          have shorter := length_le_of_separated separated text among
          exact ih arg member layout (all arg member) (by omega)
        rcases proper with isName | ⟨rfl, single⟩
        · exact readsAnywhere_call separated reads isName isStart fun gap rest isGap =>
            declines_expressionOver isGap (by decide)
        · exact readsAnywhere_negation separated reads single isStart
  | custom => cases layout

/-- Every text of an expression is read as the expression, wherever it stands. -/
theorem reads_expression {text : List Char} (layout : body.Layout text)
    (readable : body.IsReadable) : ReadsAnywhere expression body text := by
  intro gap rest isGap stops
  have enough : text.length < (gap ++ (text ++ rest)).length + 1 := by
    rw [List.length_append, List.length_append]
    omega
  have reads := reads_expressionWithin layout readable enough gap rest isGap stops
  rw [Reads] at reads ⊢
  rw [expression]
  exact reads

end RuleGraph.Source
