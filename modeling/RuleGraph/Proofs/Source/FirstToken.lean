import RuleGraph.Proofs.Source.Literals
import RuleGraph.Proofs.Source.Results
import RuleGraph.Source.Grammar

/-! # First tokens

What is read of a text is decided by its first token in many places: an operator, a bracket or a
separator is there or not, and an operand begins with few characters only.

* **`Source.Skips.reads_iff`**, **`Source.Skips.declines_iff`** — blanks make no difference.
* **`Source.reads_keyword_iff`**, **`Source.wordOf_of_reads`** — words of the language.
* **`Source.beginsPrimary`**, **`Source.declines_primary`**, **`Source.exists_cons_of_primary`** —
  what operands begin with.
-/

namespace RuleGraph.Source

open RuleGraph.Parser RuleGraph.Numeral

variable {α : Type} {text start rest : List Char} {letters : String} {expr : Parser Expr}

/-! ## Behind blanks -/

section

variable {parser : Parser α} (skips : Skips text start)
include skips

/-- A parser reads behind blanks what it reads where they end. -/
theorem Skips.reads_iff {value : α} :
    (do blanks; parser : Parser α).Reads text value rest ↔ parser.Reads start value rest := by
  rw [Reads, Reads, blanks_bind_eq skips]

/-- It declines behind blanks what it declines where they end. -/
theorem Skips.declines_iff :
    (do blanks; parser : Parser α).Declines text ↔ parser.Declines start := by
  rw [Declines, Declines, blanks_bind_eq skips]

/-- It comes to behind blanks what it comes to where they end. -/
theorem Skips.drifts_iff {kind : List Char → Prop} :
    (do blanks; parser : Parser α).Drifts kind text ↔ parser.Drifts kind start := by
  rw [Drifts, Drifts, skips.declines_iff]
  simp only [skips.reads_iff]

/-- Blanks in front make no difference. -/
theorem Skips.bind_eq :
    (do blanks; parser : Parser α) text = (do blanks; parser : Parser α) start := by
  rw [blanks_bind_eq skips, blanks_bind_eq skips.again]

end

/-! ## Words and symbols -/

/-- A word of the language is letters of any case in front of something that is not part of a
name. -/
theorem reads_keyword_iff : (keyword letters).Reads text () rest ↔ ∃ front, text = front ++ rest ∧
    front.map Char.toLower = letters.toList.map Char.toLower ∧
      ∀ c ∈ rest.head?, isNameChar c = false := by
  constructor
  · intro reads
    obtain ⟨_, middle, letter, behind⟩ := reads_bind_iff.1 reads
    rcases agrees_or_declines_literalBy (fun a b => a.toLower = b.toLower) letters.toList text with
      ⟨front, rest', rfl, agrees⟩ | declines
    · cases (reads_literalBy agrees).symm.trans letter
      rw [Reads, Parser.notFollowedBy] at behind
      split at behind
      · cases behind
      · rename_i expected left declined
        cases behind
        refine ⟨front, rfl, ?_, fun c here => ?_⟩
        · rw [← List.forall₂_eq_eq_eq, List.forall₂_map_left_iff, List.forall₂_map_right_iff]
          exact agrees.imp fun _ _ => of_decide_eq_true
        · obtain ⟨others, rfl⟩ := List.head?_eq_some_iff.1 here
          rw [← Bool.not_eq_true]
          intro inside
          exact (reads_satisfy inside).not_declines ⟨_, _, declined⟩
      · cases behind
    · exact absurd declines letter.not_declines
  · rintro ⟨front, rfl, same, ends⟩
    exact reads_keyword same ends

/-- Where a word was read it is the first word of the text. -/
theorem wordOf_of_reads (word : ∀ c ∈ letters.toList, c.isAlpha = true)
    (reads : (keyword letters).Reads text () rest) :
    wordOf text = letters.toList.map Char.toLower := by
  obtain ⟨front, rfl, same, ends⟩ := reads_keyword_iff.1 reads
  have agrees : List.Forall₂ (fun c letter => decide (c.toLower = letter.toLower) = true) front
      letters.toList := by
    rw [← List.forall₂_eq_eq_eq, List.forall₂_map_left_iff, List.forall₂_map_right_iff] at same
    exact same.imp fun _ _ => decide_eq_true
  rw [wordOf, (takeWhile_append (isNameChar_of_agrees agrees word) ends).1, same]

/-- A word that is read begins with a letter. -/
theorem exists_cons_of_keyword (word : ∀ c ∈ letters.toList, c.isAlpha = true)
    (nonempty : letters.toList ≠ []) (reads : (keyword letters).Reads text () rest) :
    ∃ c others, text = c :: others ∧ isNameStart c = true := by
  obtain ⟨front, rfl, same, -⟩ := reads_keyword_iff.1 reads
  cases front with
  | nil =>
    rw [List.map_nil, eq_comm, List.map_eq_nil_iff] at same
    exact absurd same nonempty
  | cons c front =>
    obtain ⟨letter, others, letters⟩ := List.exists_cons_of_ne_nil nonempty
    refine ⟨c, front ++ rest, rfl, ?_⟩
    rw [letters, List.map_cons, List.map_cons] at same
    have alpha := isAlpha_of_toLower_eq (List.cons.inj same).1
      (word letter (letters ▸ List.mem_cons_self))
    simp [isNameStart, alpha]

/-- A symbol is read where it stands. -/
theorem reads_symbol_iff (skips : Skips text start) :
    (symbol letters).Reads text () rest ↔ start = letters.toList ++ rest := by
  rw [symbol, skips.reads_iff, reads_literal_iff]

/-- A symbol is declined where something else stands. -/
theorem declines_symbol_of_skips {c : Char} {others : List Char} (skips : Skips text start)
    (same : letters.toList = c :: others) (other : c ∉ start.head?) :
    (symbol letters).Declines text := by
  rw [symbol, skips.declines_iff, same]
  exact declines_literal other

/-- A word is declined where something else stands. -/
theorem declines_word_of_skips (skips : Skips text start)
    (word : ∀ c ∈ letters.toList, c.isAlpha = true)
    (other : wordOf start ≠ letters.toList.map Char.toLower) :
    (do blanks; keyword letters : Parser Unit).Declines text :=
  skips.declines_iff.2 (declines_keyword word other)

/-! ## Operands -/

/-- A character that an operand may begin with. -/
def beginsPrimary (c : Char) : Bool :=
  isNameStart c || isDigit c || c ∈ ['(', '"', '[', '-', '+']

/-- The first characters of operands. -/
theorem beginsPrimary_eq_false_iff {c : Char} : beginsPrimary c = false ↔
    isNameStart c = false ∧ isDigit c = false ∧ c ≠ '(' ∧ c ≠ '"' ∧ c ≠ '[' ∧ c ≠ '-' ∧
      c ≠ '+' := by
  simp [beginsPrimary, and_assoc]

/-- A character that begins a name begins nothing else. -/
theorem of_isNameStart {c : Char} (start : isNameStart c = true) :
    c ≠ '(' ∧ c ≠ '"' ∧ c ≠ '[' ∧ isDigit c = false ∧ c ≠ '-' ∧ c ≠ '+' := by
  have apart : ∀ d ∈ ['(', '"', '[', '-', '+'], c ≠ d := by
    have others : ∀ d ∈ ['(', '"', '[', '-', '+'], isNameStart d = false := by decide
    rintro d listed rfl
    rw [others c listed] at start
    exact Bool.noConfusion start
  refine ⟨apart _ (by decide), apart _ (by decide), apart _ (by decide), ?_, apart _ (by decide),
    apart _ (by decide)⟩
  rw [isNameStart, Bool.or_eq_true, isAlpha_iff, decide_eq_true_eq] at start
  rw [isDigit, Bool.and_eq_false_iff, decide_eq_false_iff_not, decide_eq_false_iff_not]
  rcases start with letter | rfl
  · omega
  · decide

section

variable {c : Char} {others : List Char} {body : Expr} (begins : isNameStart c = true)
include begins

/-- What begins with a name is nothing but a call or a feature. -/
theorem declines_others_of_isNameStart : (parenthesised expr).Declines (c :: others) ∧
    (do return .const (.text (← textLiteral)) : Parser Expr).Declines (c :: others) ∧
    (do return .const (← number) : Parser Expr).Declines (c :: others) ∧
    (listLiteral expr).Declines (c :: others) := by
  obtain ⟨noParenthesis, noQuote, noBracket, noNumber⟩ := of_isNameStart begins
  have apart : ∀ {d : Char}, c ≠ d → d ∉ (c :: others).head? := by
    rintro d other ⟨⟩
    exact other rfl
  exact ⟨(declines_char (apart noParenthesis)).bind _,
    (declines_textLiteral (apart noQuote)).bind _,
    (declines_number (by rintro d ⟨⟩; exact noNumber)).bind _,
    (declines_char (apart noBracket)).bind _⟩

variable (skips : Skips text (c :: others))
include skips

/-- What begins with a name is read as a call or a feature. -/
theorem reads_primary_iff_of_isNameStart : (primary expr).Reads text body rest ↔
    (callOrFeature expr).Reads (c :: others) body rest := by
  obtain ⟨first, second, third, fourth⟩ :=
    @declines_others_of_isNameStart expr _ _ begins
  refine skips.reads_iff.trans ?_
  rw [reads_expecting_iff, first.reads_orElse_iff, second.reads_orElse_iff, third.reads_orElse_iff,
    fourth.reads_orElse_iff]

end

section

variable {inner : List Char} {body : Expr}

/-- What begins with a parenthesis is nothing but an expression between parentheses. -/
theorem declines_others_of_parenthesis :
    (orElse (do return .const (.text (← textLiteral)))
      (orElse (do return .const (← number))
        (orElse (listLiteral expr) (callOrFeature expr)))).Declines ('(' :: inner) := by
  refine .orElse_declines (Declines.bind _ (declines_textLiteral (by simp))) ?_
  refine .orElse_declines (Declines.bind _ (declines_number (by rintro c ⟨⟩; decide))) ?_
  refine .orElse_declines (Declines.bind _ (declines_char (by simp))) ?_
  exact Declines.bind _ (declines_identifier (by rintro c ⟨⟩; decide))

variable (skips : Skips text ('(' :: inner))
include skips

/-- What begins with a parenthesis is read so. -/
theorem reads_primary_iff_of_parenthesis : (primary expr).Reads text body rest ↔
    (parenthesised expr).Reads ('(' :: inner) body rest := by
  refine skips.reads_iff.trans (reads_expecting_iff.trans (reads_orElse_iff.trans ?_))
  exact or_iff_left fun reads => reads.2.not_declines declines_others_of_parenthesis

/-- It is declined so. -/
theorem declines_primary_iff_of_parenthesis : (primary expr).Declines text ↔
    (parenthesised expr).Declines ('(' :: inner) := by
  refine skips.declines_iff.trans (declines_expecting_iff.trans (declines_orElse_iff.trans ?_))
  exact and_iff_left declines_others_of_parenthesis

end

section

variable (skips : Skips text start) (other : ∀ c ∈ start.head?, beginsPrimary c = false)
include skips other

/-- What begins otherwise is no operand. -/
theorem declines_primary : (primary expr).Declines text := by
  have apart : ∀ d, beginsPrimary d = true → d ∉ start.head? := by
    intro d begins here
    exact Bool.noConfusion (begins.symm.trans (other d here))
  refine skips.declines_iff.2 (Declines.expecting _ ?_)
  refine Declines.orElse_declines (Declines.bind _ (declines_char (apart _ (by decide)))) ?_
  refine Declines.orElse_declines
    (Declines.bind _ (declines_textLiteral (apart _ (by decide)))) ?_
  refine Declines.orElse_declines (Declines.bind _ (declines_number fun c here => ?_)) ?_
  · obtain ⟨-, noDigit, -, -, -, noMinus, noPlus⟩ := beginsPrimary_eq_false_iff.1 (other c here)
    exact ⟨noDigit, noMinus, noPlus⟩
  refine Declines.orElse_declines (Declines.bind _ (declines_char (apart _ (by decide)))) ?_
  exact Declines.bind _ (declines_identifier fun c here =>
    (beginsPrimary_eq_false_iff.1 (other c here)).1)

/-- Nor does a negation begin so. -/
theorem declines_negation_of_skips : negation.Declines text := by
  refine declines_word_of_skips skips (by decide) (wordOf_ne fun c here => ?_)
  rintro lower
  have same : c.toLower = Char.toLower 'n' := lower.trans (by decide)
  have alpha := isAlpha_of_toLower_eq same (by decide)
  have noStart := (beginsPrimary_eq_false_iff.1 (other c here)).1
  simp [isNameStart, alpha] at noStart

/-- Nor does an operand with operators. -/
theorem declines_unary : (unary expr).Declines text :=
  (ReadsAll.none (declines_negation_of_skips skips other)).many.bind_declines
    (Declines.bind _ ((declines_primary skips other).bind _))

/-- Nor does an expression. -/
theorem declines_expressionOver_of_skips : (expressionOver expr).Declines text := by
  have operand : ∀ {word function : String} {operand : Parser Expr}, operand.Declines start →
      (leftAssociative word function operand).Declines start := fun declines => declines.bind _
  exact skips.declines_iff.2 (operand (operand (declines_unary skips.again other)))

end

/-- An operand that is read begins like one. -/
theorem exists_cons_of_primary {body : Expr} (skips : Skips text start)
    (reads : (primary expr).Reads text body rest) :
    ∃ c others, start = c :: others ∧ beginsPrimary c = true := by
  by_contra none
  refine reads.not_declines (declines_primary skips fun c here => ?_)
  cases start with
  | nil => cases here
  | cons d others =>
    cases here
    exact Bool.eq_false_iff.2 fun begins => none ⟨c, others, rfl, begins⟩

end RuleGraph.Source
