import RuleGraph.Proofs.Source.Expressions
import RuleGraph.Proofs.Source.Locality
import RuleGraph.Proofs.Source.Strays

/-! # Expressions in front of further definitions

An expression is read as it is without the definitions behind it, unless it ends in an operator or a
comma and its last operand is missing. Then that is looked for in the definitions; but as no bracket
is closed there, the brackets around it are not closed either.

* **`Source.steady_word`**, **`Source.steady_symbol`** — operators, separators and brackets.
* **`Source.CutBy`**, **`Source.Abandoned`** — what is left where an operand is missing.
* **`Source.steady_callOrFeature`** — a call is closed before the definitions or not at all.
* **`Source.strays_expression`** — expressions.
-/

namespace RuleGraph.Source

open RuleGraph.Parser RuleGraph.Numeral

variable {α : Type} {text start rest middle more inner : List Char} {letters : String}

/-! ## Tokens behind blanks -/

/-- At the end of a text there is nothing but a comment. -/
theorem AtEnd.head (atEnd : AtEnd text) : ∀ c ∈ text.head?, c = '#' := by
  rcases atEnd with rfl | ⟨line, rfl, -⟩
  · rintro c ⟨⟩
  · rintro c ⟨⟩
    rfl

/-- Where blanks end in the same place, what stands there decides. -/
theorem Skips.steady {parser : Parser α} (skips : Skips text start)
    (skips' : Skips (text ++ '\n' :: more) (start ++ '\n' :: more))
    (steady : parser.Steady more start) : (do blanks; parser : Parser α).Steady more text := by
  refine ⟨fun value rest reads => ?_, fun declines => ?_⟩
  · obtain ⟨scans, reads'⟩ := steady.keeps value rest (skips.reads_iff.1 reads)
    exact ⟨skips.scans.trans scans, skips'.reads_iff.2 reads'⟩
  · exact skips'.declines_iff.2 (steady.declines (skips.declines_iff.1 declines))

/-- What runs into further lines there does so behind blanks. -/
theorem Skips.strays {parser : Parser α} {dead : List Char → Prop} (skips : Skips text start)
    (skips' : Skips (text ++ '\n' :: more) (start ++ '\n' :: more))
    (strays : parser.Strays more dead start) :
    (do blanks; parser : Parser α).Strays more dead text := by
  refine ⟨fun value rest reads => ?_, fun declines => ?_⟩
  · obtain ⟨scans, kept⟩ := strays.reads value rest (skips.reads_iff.1 reads)
    refine ⟨skips.scans.trans scans, kept.imp skips'.reads_iff.2 ?_⟩
    rintro ⟨isDead, value', rest', reads', adrift⟩
    exact ⟨isDead, value', rest', skips'.reads_iff.2 reads', adrift⟩
  · exact skips'.drifts_iff.2 (strays.declines (skips.declines_iff.1 declines))

/-- What is no blank ends them with further lines as well. -/
theorem Skips.append_of_cons {c : Char} {others : List Char} (skips : Skips text (c :: others))
    (other : c ≠ '#') : Skips (text ++ '\n' :: more) (c :: others ++ '\n' :: more) := by
  rcases skips.append more with skips' | ⟨atEnd, -⟩
  · exact skips'
  · exact absurd (atEnd.head c rfl) other

/-- What stands neither at the end of the text nor where the further lines begin. -/
theorem steady_behind_blanks {parser : Parser α} (isLocal : parser.Local)
    (atEnd : ∀ rest, AtEnd rest → parser.Declines rest)
    (beyond : ∀ rest, Skips more rest → parser.Declines rest) :
    (do blanks; parser : Parser α).Steady more text := by
  obtain ⟨start, skips⟩ := exists_skips text
  rcases skips.append more with skips' | ⟨isEnd, goesOn⟩
  · exact skips.steady skips' isLocal.steady
  · obtain ⟨rest, skips'⟩ := exists_skips more
    exact .of_declines (skips.declines_iff.2 (atEnd start isEnd))
      ((goesOn rest skips').declines_iff.2 (beyond rest skips'))

section

variable (begins : Headed more ∨ Skips more [])
include begins

/-- A definition begins like a name. -/
theorem isNameStart_of_begins (skips : Skips more start) :
    ∀ c ∈ start.head?, isNameStart c = true := by
  rcases begins with ⟨letters, rest, listed, word, -⟩ | ended
  · have headers : ∀ letters ∈ ["LET", "WHEN", "EXECUTE"], letters ∈ words := by decide
    obtain ⟨c, others, skips', isName⟩ := exists_cons_of_word (headers _ listed) word
    cases skips.unique skips'
    rintro d ⟨⟩
    exact isName
  · cases skips.unique ended
    rintro c ⟨⟩

/-- Where a definition begins an operand may be looked for. -/
theorem expected_of_begins : Expected more := by
  rcases begins with headed | ended
  · exact .header headed
  · exact .none ended (by rintro c ⟨⟩)

/-- A symbol is the same with further lines. -/
theorem steady_symbol {c : Char} {others : List Char}
    (plain : ∀ c ∈ letters.toList, c ∉ ['\n', '"', '#']) (same : letters.toList = c :: others)
    (sign : isNameStart c = false) : (symbol letters).Steady more text := by
  refine steady_behind_blanks (.literal plain) (fun rest atEnd => ?_) fun rest skips => ?_
  · rw [same]
    refine declines_literal fun here => plain c (same ▸ List.mem_cons_self) ?_
    rw [atEnd.head c here]
    decide
  · rw [same]
    refine declines_literal fun here => ?_
    exact Bool.noConfusion (sign.symm.trans (isNameStart_of_begins begins skips c here))

/-- So is a word that begins no definition. -/
theorem steady_word (listed : letters ∈ ["AND", "OR", "NOT", "THEN"]) :
    (do blanks; keyword letters : Parser Unit).Steady more text := by
  have plain : ∀ letters ∈ ["AND", "OR", "NOT", "THEN"], letters ∈ words ∧
      (∀ letter ∈ letters.toList, IsPlain fun c => c.toLower = letter.toLower) ∧
      letters ∉ ["LET", "WHEN", "EXECUTE"] := by decide
  obtain ⟨isWord, isPlain, other⟩ := plain letters listed
  refine steady_behind_blanks (local_keyword isPlain) (fun rest atEnd =>
    declines_keyword_of_head isWord ?_) fun rest skips => ?_
  · intro c here
    rw [atEnd.head c here]
    decide
  · rcases begins with ⟨header, behind, isHeader, word, -⟩ | ended
    · have headers : ∀ letters ∈ ["LET", "WHEN", "EXECUTE"], letters ∈ words := by decide
      rcases drifts_keyword letters rest with declines | ⟨_, _, reads, -⟩
      · exact declines
      · obtain ⟨rfl, -⟩ := eq_of_words (headers _ isHeader) isWord word (skips.reads_iff.2 reads)
        exact absurd isHeader other
    · cases skips.unique ended
      exact declines_keyword_of_head isWord (by rintro c ⟨⟩)

/-- So is an equality sign. -/
theorem steady_equalitySign : equalitySign.Steady more text := by
  have signs : ∀ {rest : List Char}, (∀ d ∈ ['=', '!'], d ∉ rest.head?) →
      (orElse (do literal ['=', '=']; return false)
        (do literal ['!', '=']; return true)).Declines rest := fun apart =>
    .orElse_declines ((declines_literal (apart _ (by decide))).bind _)
      ((declines_literal (apart _ (by decide))).bind _)
  refine .optional (steady_behind_blanks ?_ (fun rest atEnd => signs fun d sign here => ?_)
    fun rest skips => signs fun d sign here => ?_)
  · exact .orElse (.bind (.literal (by decide)) fun _ => .pure)
      (.bind (.literal (by decide)) fun _ => .pure)
  · rw [atEnd.head d here] at sign
    exact absurd sign (by decide)
  · have others : ∀ d ∈ ['=', '!'], isNameStart d = false := by decide
    exact Bool.noConfusion ((others d sign).symm.trans (isNameStart_of_begins begins skips d here))

end

/-! ## Where an operand is missing -/

/-- A text goes on with one of some words. -/
def CutBy (listed : List String) (text : List Char) : Prop :=
  ∃ letters ∈ listed, ∃ rest, (do blanks; keyword letters : Parser Unit).Reads text () rest

/-- A text goes on with an operator; or else with a comma, or with nothing, and an expression is
read there with further lines only. -/
def Abandoned (more text : List Char) : Prop :=
  CutBy ["OR", "AND"] text ∨ (∃ rest, (symbol ",").Reads text () rest ∧
    ¬expression.Declines (rest ++ '\n' :: more)) ∨ ¬expression.Declines (text ++ '\n' :: more)

/-- An operator begins like a name. -/
theorem CutBy.begins (cut : CutBy ["OR", "AND"] text) :
    ∃ c others, Skips text (c :: others) ∧ isNameStart c = true := by
  obtain ⟨letters, listed, rest, word⟩ := cut
  have operators : ∀ letters ∈ ["OR", "AND"], letters ∈ words := by decide
  exact exists_cons_of_word (operators letters listed) word

/-- So it is no symbol. -/
theorem CutBy.declines_symbol (cut : CutBy ["OR", "AND"] text) {c : Char} {others : List Char}
    (same : letters.toList = c :: others) (sign : isNameStart c = false) :
    (symbol letters).Declines text := by
  obtain ⟨d, others', skips, begins⟩ := cut.begins
  refine declines_symbol_of_skips skips same ?_
  rintro ⟨⟩
  exact Bool.noConfusion (begins.symm.trans sign)

/-- Where an expression is read no bracket is closed. -/
theorem declines_expression_of_closing {c : Char} {others : List Char}
    (skips : Skips text (c :: others)) (closing : c ∈ [')', ']', ';', ',']) :
    expression.Declines (text ++ '\n' :: more) := by
  have all : ∀ c ∈ [')', ']', ';', ','], c ≠ '#' ∧ beginsPrimary c = false := by decide
  rw [expression_eq]
  refine declines_expressionOver_of_skips (skips.append_of_cons (all c closing).1) ?_
  rintro d ⟨⟩
  exact (all c closing).2

/-- **Where an operand is missing** no bracket is closed, and no definition ends. -/
theorem Abandoned.declines_symbol (abandoned : Abandoned more text) {c : Char}
    (same : letters.toList = [c]) (closing : c ∈ [')', ']', ';']) :
    (symbol letters).Declines text := by
  have all : ∀ c ∈ [')', ']', ';'], isNameStart c = false ∧ c ≠ ',' ∧ c ∈ [')', ']', ';', ','] := by
    decide
  obtain ⟨noName, noComma, listed⟩ := all c closing
  obtain ⟨start, skips⟩ := exists_skips text
  rcases abandoned with cut | ⟨rest, comma, -⟩ | read
  · exact cut.declines_symbol same noName
  · refine declines_symbol_of_skips skips same ?_
    rw [(reads_symbol_iff skips).1 comma]
    rintro ⟨⟩
    exact noComma rfl
  · refine declines_symbol_of_skips skips same fun here => ?_
    obtain ⟨others, rfl⟩ := List.head?_eq_some_iff.1 here
    exact read (declines_expression_of_closing skips listed)

/-- Nor is a bracket closed in the further lines. -/
theorem Adrift.declines_symbol (adrift : Adrift text) {c : Char} (same : letters.toList = [c])
    (closing : c ∈ [')', ']']) : (symbol letters).Declines text := by
  obtain ⟨d, others, skips, begins⟩ := adrift.begins
  refine declines_symbol_of_skips skips same ?_
  rintro ⟨⟩
  have all : ∀ c ∈ [')', ']'], ¬(beginsPrimary c = true ∨ c ∈ ['=', '!', ',', ';']) := by decide
  exact all _ closing begins

/-! ## Operands -/

/-- What is known of a text in front of further lines: they close none of its texts, and expressions
that begin later in it run into them or not. -/
structure Ready (more text : List Char) : Prop where
  /-- No text is closed in the further lines. -/
  closed : LeavesTextOpen text → '"' ∉ more
  /-- Later expressions. -/
  later : ∀ rest, Scans text rest → rest.length < text.length →
    expression.Strays more (CutBy ["OR", "AND"]) rest

namespace Ready

variable (ready : Ready more text)
include ready

/-- So it is known of what is left of the text. -/
theorem scans (scans : Scans text rest) : Ready more rest :=
  ⟨fun opened => ready.closed (scans.leavesTextOpen opened), fun rest' scans' shorter =>
    ready.later rest' (scans.trans scans') (shorter.trans_le scans.suffix.length_le)⟩

/-- Expressions behind something. -/
theorem behind (scans : Scans text middle) (shorter : middle.length < text.length) :
    ∀ rest, Scans middle rest → expression.Strays more (CutBy ["OR", "AND"]) rest :=
  fun rest scans' =>
    ready.later rest (scans.trans scans') (scans'.suffix.length_le.trans_lt shorter)

end Ready

section

variable (begins : Headed more ∨ Skips more [])
include begins

/-- Expressions separated by commas. -/
theorem separates_comma :
    Separates more (CutBy ["OR", "AND"]) (Abandoned more) (symbol ",") expression where
  advances := (advances_symbol (by decide)).bind fun _ => yields_expression
  steady _ := steady_symbol begins (by decide) (show ",".toList = _ from rfl) (by decide)
  wider _ := .inl
  stops _ cut := cut.declines_symbol (show ",".toList = _ from rfl) (by decide)
  next rest middle comma read := .inr (.inl ⟨middle, comma, read⟩)
  drifts _ adrift := adrift.drifts_item

/-- Operands separated by an operator. -/
theorem separates_word {listed : List String} {operand : Parser Expr}
    (operator : letters ∈ ["AND", "OR"]) (others : ∀ word ∈ listed, word ∈ words ∧ word ≠ letters)
    (yields : operand.Yields Expr.IsParsed)
    (each : ∀ {text}, Expected text → operand.Drifts Adrift text) :
    Separates more (CutBy listed) (CutBy (letters :: listed)) (do blanks; keyword letters)
      operand where
  advances := by
    have nonempty : ∀ letters ∈ ["AND", "OR"], letters.toList ≠ [] := by decide
    exact (advances_word (nonempty letters operator)).bind fun _ => yields
  steady _ := by
    have noHeader : ∀ letters ∈ ["AND", "OR"], letters ∈ ["AND", "OR", "NOT", "THEN"] := by decide
    exact steady_word begins (noHeader letters operator)
  wider := by
    rintro rest ⟨word, member, behind, reads⟩
    exact ⟨word, List.mem_cons_of_mem _ member, behind, reads⟩
  stops := by
    rintro rest ⟨word, member, behind, reads⟩
    obtain ⟨isWord, different⟩ := others word member
    have operators : ∀ letters ∈ ["AND", "OR"], letters ∈ words := by decide
    rcases drifts_word letters rest with declines | ⟨_, _, reads', -⟩
    · exact declines
    · exact absurd (eq_of_words isWord (operators _ operator) reads reads').1 different
  next rest middle reads _ := ⟨letters, List.mem_cons_self, middle, reads⟩
  drifts _ adrift := adrift.drifts_round operator each

/-- An expression between parentheses is read as it is. -/
theorem steady_parenthesised (ready : Ready more text) :
    (parenthesised expression).Steady more text := by
  refine (Local.char (by decide)).steady.bind fun _ inner reads scans => ?_
  have shorter := advances_satisfy _ _ _ reads
  refine .of_strays (ready.later inner scans shorter) (fun body rest _ _ => ?_) ?_ ?_
  · exact (steady_symbol begins (by decide) (show ")".toList = _ from rfl) (by decide)).bind
      fun _ _ _ _ => Local.pure.steady
  · exact fun _ rest cut => (cut.declines_symbol (show ")".toList = _ from rfl) (by decide)).bind _
  · exact fun _ rest adrift => (adrift.declines_symbol rfl (by decide)).bind _

/-- So are arguments. -/
theorem steady_arguments
    (each : ∀ rest, Scans text rest → expression.Strays more (CutBy ["OR", "AND"]) rest) :
    (arguments expression).Steady more text := by
  refine .of_strays ((separates_comma begins).separated (each text .refl) each
    fun read => .inr (.inr read)) (fun body rest _ _ => ?_) ?_ ?_
  · exact (steady_symbol begins (by decide) (show ")".toList = _ from rfl) (by decide)).bind
      fun _ _ _ _ => Local.pure.steady
  · exact fun _ rest abandoned => (abandoned.declines_symbol rfl (by decide)).bind _
  · exact fun _ rest adrift => (adrift.declines_symbol rfl (by decide)).bind _

/-- The end of a list, behind its last item. -/
def listEnd (value : Expr) : Parser Expr := do
  blanks
  let _ ← optional (char ',')
  symbol "]"
  return value

omit begins in
/-- A list is not closed where neither a comma nor its bracket stands. -/
theorem declines_listEnd {value : Expr} (skips : Skips text start)
    (other : ∀ c ∈ start.head?, c ≠ ',' ∧ c ≠ ']') : (listEnd value).Declines text := by
  have noComma : ',' ∉ start.head? := fun here => (other _ here).1 rfl
  have noBracket : ']' ∉ start.head? := fun here => (other _ here).2 rfl
  exact skips.declines_iff.2 ((declines_char noComma).optional.bind_declines
    ((declines_symbol_of_skips skips.again (show "]".toList = _ from rfl) noBracket).bind _))

omit begins in
/-- A list is not closed where an item is missing. -/
theorem Abandoned.declines_listEnd {value : Expr} (abandoned : Abandoned more text) :
    (listEnd value).Declines text := by
  rcases abandoned with cut | ⟨rest, comma, read⟩ | read
  · obtain ⟨c, others, skips, isName⟩ := cut.begins
    refine Source.declines_listEnd skips ?_
    rintro d ⟨⟩
    constructor
    all_goals
      rintro rfl
      exact absurd isName (by decide)
  · obtain ⟨start, skips⟩ := exists_skips text
    have same := (reads_symbol_iff skips).1 comma
    have missing : Abandoned more rest := .inr (.inr read)
    refine skips.declines_iff.2 ?_
    rw [same]
    exact (reads_satisfy (by decide)).optional.bind_declines
      ((missing.declines_symbol rfl (by decide)).bind _)
  · obtain ⟨start, skips⟩ := exists_skips text
    refine Source.declines_listEnd skips fun c here => ?_
    obtain ⟨others, rfl⟩ := List.head?_eq_some_iff.1 here
    constructor
    all_goals
      rintro rfl
      exact read (declines_expression_of_closing skips (by decide))

omit begins in
/-- Nor is it in the further lines. -/
theorem Adrift.declines_listEnd {value : Expr} (adrift : Adrift text) :
    (listEnd value).Declines text := by
  obtain ⟨c, others, skips, first⟩ := adrift.begins
  by_cases comma : c = ','
  · subst comma
    have operand := adrift.operand_of_comma ((reads_symbol_iff skips).2 rfl)
    exact skips.declines_iff.2 ((reads_satisfy (by decide)).optional.bind_declines
      (((Adrift.operand operand).declines_symbol rfl (by decide)).bind _))
  · refine Source.declines_listEnd skips ?_
    rintro d ⟨⟩
    refine ⟨comma, ?_⟩
    rintro rfl
    exact absurd first (by decide)

/-- So it is closed as it is. -/
theorem steady_listEnd {value : Expr} : (listEnd value).Steady more text := by
  obtain ⟨start, skips⟩ := exists_skips text
  rcases skips.append more with skips' | ⟨atEnd, goesOn⟩
  · exact skips.steady skips' ((Local.optional (.char (by decide))).steady.bind fun _ _ _ _ =>
      (steady_symbol begins (by decide) (show "]".toList = _ from rfl) (by decide)).bind
        fun _ _ _ _ => Local.pure.steady)
  · obtain ⟨rest, skips'⟩ := exists_skips more
    refine .of_declines (declines_listEnd skips fun c here => ?_)
      (declines_listEnd (goesOn rest skips') fun c here => ?_)
    · rw [atEnd.head c here]
      decide
    · have isName := isNameStart_of_begins begins skips' c here
      constructor
      all_goals
        rintro rfl
        exact absurd isName (by decide)

/-- So is a list. -/
theorem steady_listLiteral (ready : Ready more text) :
    (listLiteral expression).Steady more text := by
  refine (Local.char (by decide)).steady.bind fun _ inner reads scans => ?_
  have each := ready.behind scans (advances_satisfy _ _ _ reads)
  exact .of_strays ((separates_comma begins).separated (each inner .refl) each
    fun read => .inr (.inr read)) (fun _ _ _ _ => steady_listEnd begins)
    (fun _ _ abandoned => abandoned.declines_listEnd) fun _ _ adrift => adrift.declines_listEnd

end

/-! ## Calls -/

/-- The parenthesis that closes a call is found in front of further lines. -/
theorem splitCall?_append {state : ScanState} {raw : List Char}
    (found : splitCall? state text = some (raw, rest)) :
    splitCall? state (text ++ more) = some (raw, rest ++ more) := by
  induction text generalizing state raw with
  | nil => cases state <;> cases found
  | cons c text ih =>
    have later : ∀ {state : ScanState}, (splitCall? state text).map (fun split =>
        (c :: split.1, split.2)) = some (raw, rest) →
        (splitCall? state (text ++ more)).map (fun split => (c :: split.1, split.2)) =
          some (raw, rest ++ more) := by
      intro state mapped
      obtain ⟨⟨raw', rest'⟩, inner, same⟩ := Option.map_eq_some_iff.1 mapped
      cases same
      rw [ih inner]
      rfl
    rw [List.cons_append]
    cases state with
    | code depth =>
      rw [splitCall?] at found ⊢
      split_ifs at found ⊢
      · cases found
        rfl
      all_goals exact later found
    | inText depth | escaped depth =>
      rw [splitCall?] at found ⊢
      exact later found

/-- The raw text of a call is there, or parsing stops. -/
theorem not_declines_rawArguments : ¬rawArguments.Declines text := by
  rintro ⟨expected, left, failed⟩
  rw [rawArguments] at failed
  split at failed <;> cases failed

section

variable (begins : Headed more ∨ Skips more [])
include begins

/-- **A call is closed as it is without further lines**, whether its arguments are expressions or
raw text. -/
theorem steady_callOrFeature (ready : Ready more text) :
    (callOrFeature expression).Steady more text := by
  refine local_identifier.steady.bind fun name behind named scans => ?_
  have parenthesis : (symbol "(").Steady more behind :=
    steady_symbol begins (by decide) (show "(".toList = _ from rfl) (by decide)
  -- What has been entered behind the parenthesis.
  have entered : ∀ {inner}, (symbol "(").Reads behind () inner →
      Scans behind ('(' :: inner) ∧ (arguments expression).Steady more inner := by
    intro inner opening
    obtain ⟨start, skips⟩ := exists_skips behind
    rw [(reads_symbol_iff skips).1 opening] at skips
    have scans' : Scans behind inner := skips.scans.trans (.single (.char (by decide) (by decide)))
    exact ⟨skips.scans, steady_arguments begins
      ((ready.scans scans).behind scans' (advances_symbol (by decide) _ _ _ opening))⟩
  refine ⟨fun body rest reads => ?_, fun declines => ?_⟩
  · obtain ⟨result, inner, opening, later⟩ := reads_bind_iff.1 reads
    rcases reads_optional_iff.1 opening with ⟨_, rfl, opened⟩ | ⟨rfl, rfl, declines⟩
    swap
    · obtain ⟨rfl, rfl⟩ := reads_pure_iff.1 later
      exact ⟨.refl, (parenthesis.declines declines).optional.bind .pure⟩
    have opened' := (parenthesis.keeps _ _ opened).2.optional
    obtain ⟨scans', onArguments⟩ := entered opened
    rcases reads_orElse_iff.1 later with args | ⟨declines, raw⟩
    · obtain ⟨args, rest', args, last⟩ := reads_bind_iff.1 args
      obtain ⟨rfl, rfl⟩ := reads_pure_iff.1 last
      obtain ⟨scans'', args'⟩ := onArguments.keeps _ _ args
      exact ⟨scans'.trans (scans''.head (.char (by decide) (by decide))),
        opened'.bind (Reads.orElse _ (args'.bind .pure))⟩
    · rcases declines_bind_iff.1 declines with declines | ⟨_, _, -, declines⟩
      swap
      · exact absurd declines not_declines_pure
      obtain ⟨chars, rest', split, last⟩ := reads_bind_iff.1 raw
      obtain ⟨rfl, rfl⟩ := reads_pure_iff.1 last
      have found : splitCall? (.code 0) inner = some (chars, rest) := by
        rw [Reads, rawArguments] at split
        split at split
        · rename_i found
          cases split
          exact found
        · cases split
      refine ⟨scans'.trans (.single (.call declines found)), opened'.bind
        (Declines.orElse ((onArguments.declines declines).bind _) (Reads.bind ?_ .pure))⟩
      rw [Reads, rawArguments, splitCall?_append found]
  · rcases declines_bind_iff.1 declines with declines | ⟨result, inner, opening, later⟩
    · exact absurd declines not_declines_optional
    rcases reads_optional_iff.1 opening with ⟨_, rfl, opened⟩ | ⟨rfl, rfl, -⟩
    · exact absurd (declines_orElse_iff.1 later).2
        (not_declines_bind not_declines_rawArguments fun _ _ => not_declines_pure)
    · exact absurd later not_declines_pure

/-! ## Expressions -/

/-- At the end of the text an operand may be looked for in the further lines. -/
theorem expected_of_atEnd (atEnd : AtEnd start)
    (goesOn : ∀ rest, Skips more rest → Skips (text ++ '\n' :: more) rest) :
    (∀ c ∈ start.head?, beginsPrimary c = false) ∧ Expected (text ++ '\n' :: more) := by
  refine ⟨fun c here => ?_, ?_⟩
  · rw [atEnd.head c here]
    decide
  · obtain ⟨rest, skips'⟩ := exists_skips more
    exact (expected_of_begins begins).alike ⟨rest, skips', goesOn rest skips'⟩

/-- **An operand is read as it is**, or it is looked for in the further lines. -/
theorem strays_primary (ready : Ready more text) :
    (primary expression).Strays more (fun _ => False) text := by
  obtain ⟨start, skips⟩ := exists_skips text
  have ready' := ready.scans skips.scans
  rcases skips.append more with skips' | ⟨atEnd, goesOn⟩
  · refine (skips.steady skips' (.expecting ?_)).strays
    refine .orElse (steady_parenthesised begins ready') fun _ => .orElse ?_ fun _ =>
      .orElse ?_ fun _ => .orElse (steady_listLiteral begins ready') fun _ =>
        steady_callOrFeature begins ready'
    · exact (steady_textLiteral ready'.closed).bind fun _ _ _ _ => Local.pure.steady
    · exact local_number.steady.bind fun _ _ _ _ => Local.pure.steady
  · obtain ⟨other, expected⟩ := expected_of_atEnd begins atEnd goesOn
    have noNegation : negation.Declines (text ++ '\n' :: more) :=
      (steady_word begins (by decide)).declines (declines_negation_of_skips skips other)
    exact ⟨fun _ _ reads => absurd (declines_primary skips other) reads.not_declines,
      fun _ => drifts_primary expected noNegation⟩

/-- So is a comparison. -/
theorem strays_equality (ready : Ready more text) :
    (equality expression).Strays more (fun _ => False) text := by
  refine (strays_primary begins ready).bind (fun left rest _ scans => ?_)
    fun left _ adrift => adrift.drifts_comparison left
  refine (steady_equalitySign begins).bind_strays fun sign rest' _ scans' => ?_
  cases sign with
  | none => exact Local.pure.steady.strays
  | some negated =>
    exact (strays_primary begins (ready.scans (scans.trans scans'))).bind
      (fun _ _ _ _ => Local.pure.steady.strays) fun _ _ adrift => .pure adrift

/-- So is an operand under negations. -/
theorem strays_unary (ready : Ready more text) :
    (unary expression).Strays more (CutBy []) text := by
  have words : (many negation).Steady more text :=
    .many (advances_word (by decide)) fun _ => steady_word begins (by decide)
  exact words.bind_strays fun _ rest _ scans => (strays_equality begins (ready.scans scans)).bind
    (fun _ _ _ _ => Local.pure.steady.strays) fun _ _ adrift => .pure adrift

/-- **An expression is read as it is**, unless it ends in an operator, and then nothing is closed
behind it. -/
theorem strays_expression (closed : LeavesTextOpen text → '"' ∉ more) :
    expression.Strays more (CutBy ["OR", "AND"]) text := by
  induction length : text.length using Nat.strong_induction_on generalizing text with
  | _ length ih =>
    subst length
    have ready : Ready more text := ⟨closed, fun rest scans shorter =>
      ih _ shorter (fun opened => closed (scans.leavesTextOpen opened)) rfl⟩
    have onUnary := yields_unary yields_expression
    -- Conjunctions are operands of disjunctions.
    have conjunction : ∀ rest, Scans text rest → (leftAssociative "AND" "and"
        (unary expression)).Strays more (CutBy ["AND"]) rest := fun rest scans =>
      (separates_word begins (by decide) (by decide) onUnary drifts_unary).followed
        (strays_unary begins (ready.scans scans))
        (fun _ scans' => strays_unary begins (ready.scans (scans.trans scans'))) _
    have disjunction : ∀ rest, Scans text rest → (leftAssociative "OR" "or" (leftAssociative "AND"
        "and" (unary expression))).Strays more (CutBy ["OR", "AND"]) rest := fun rest scans =>
      (separates_word begins (by decide) (by decide)
        (yields_leftAssociative (isIdentifier_operator (by decide)) onUnary)
        (drifts_leftAssociative (by decide) onUnary drifts_unary)).followed
        (conjunction rest scans) (fun _ scans' => conjunction _ (scans.trans scans')) _
    obtain ⟨start, skips⟩ := exists_skips text
    rcases skips.append more with skips' | ⟨atEnd, goesOn⟩
    · rw [expression_eq]
      exact skips.strays skips' (disjunction start skips.scans)
    · obtain ⟨other, expected⟩ := expected_of_atEnd begins atEnd goesOn
      refine ⟨fun _ _ reads => ?_, fun _ => drifts_expression expected⟩
      rw [expression_eq] at reads
      exact absurd (declines_expressionOver_of_skips skips other) reads.not_declines

end

end RuleGraph.Source
