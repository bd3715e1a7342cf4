import RuleGraph.Proofs.Source.Depth
import RuleGraph.Proofs.Source.FirstToken

/-! # Places outside of brackets

A reader that looks for the end of a call may run into the definition behind the one that it reads,
and take the words of that for operands or operators. The places that it may come to there, outside
of brackets, are given by what the definition goes on with.

* **`Source.Operand`**, **`Source.Behind`** — what a definition goes on with, outside of brackets.
* **`Source.Expected`**, **`Source.Adrift`** — where a reader looks for an operand, and where it has
  found one.
* **`Source.expected_of_program`** — where a program begins a reader may look for an operand.
* **`Source.Adrift.begins`** — no bracket is closed where a reader has found an operand.
-/

namespace RuleGraph.Source

open RuleGraph.Parser RuleGraph.Numeral

mutual

/-- A text goes on with an operand of a definition. -/
inductive Operand : List Char → Prop where
  /-- A negation first. -/
  | negation {text rest : List Char} (word : negation.Reads text () rest) (operand : Operand rest) :
    Operand text
  /-- An operand that no operator takes apart. -/
  | primary {text rest : List Char} {body : Expr} (other : negation.Declines text)
    (reads : (primary expression).Reads text body rest) (behind : Behind rest) : Operand text

/-- A text goes on behind an operand of a definition. -/
inductive Behind : List Char → Prop where
  /-- The operand is compared with another one. -/
  | comparison {text middle rest : List Char} {negated : Bool} {body : Expr}
    (sign : equalitySign.Reads text (some negated) middle)
    (reads : (primary expression).Reads middle body rest) (behind : Behind rest) : Behind text
  /-- A word and another operand. -/
  | word {letters : String} {text rest : List Char} (listed : letters ∈ ["AND", "OR", "THEN"])
    (reads : (do blanks; keyword letters : Parser Unit).Reads text () rest)
    (operand : Operand rest) : Behind text
  /-- A comma and another operand. -/
  | comma {text rest : List Char} (reads : (symbol ",").Reads text () rest)
    (operand : Operand rest) : Behind text
  /-- The end of the definition. -/
  | semicolon {text rest : List Char} (reads : (symbol ";").Reads text () rest) : Behind text

end

/-- A text goes on with the name of the feature that a definition introduces. -/
def Named (text : List Char) : Prop :=
  ∃ name middle rest, (do blanks; identifier : Parser String).Reads text name middle ∧
    (symbol ":=").Reads middle () rest

/-- A text goes on with a definition: a word, and an operand or a name behind it. -/
def Headed (text : List Char) : Prop :=
  ∃ letters rest, letters ∈ ["LET", "WHEN", "EXECUTE"] ∧
    (do blanks; keyword letters : Parser Unit).Reads text () rest ∧ (Operand rest ∨ Named rest)

/-- Where a reader looks for an operand. -/
inductive Expected : List Char → Prop where
  /-- There is one. -/
  | operand {text : List Char} (operand : Operand text) : Expected text
  /-- The definition goes on behind one. -/
  | behind {text : List Char} (behind : Behind text) : Expected text
  /-- Something stands there that no operand begins with. -/
  | none {text start : List Char} (skips : Skips text start)
    (other : ∀ c ∈ start.head?, beginsPrimary c = false) : Expected text
  /-- There are the arguments of a call. -/
  | call {text inner rest : List Char} {name : String} {body : Expr}
    (skips : Skips text ('(' :: inner)) (reads : (callBody expression name).Reads inner body rest)
    (behind : Behind rest) : Expected text
  /-- A definition begins. -/
  | header {text : List Char} (headed : Headed text) : Expected text

/-- Where a reader has taken something for an operand. -/
inductive Adrift : List Char → Prop where
  /-- The definition goes on with an operand. -/
  | operand {text : List Char} (operand : Operand text) : Adrift text
  /-- The definition goes on behind one. -/
  | behind {text : List Char} (behind : Behind text) : Adrift text
  /-- The definition goes on with a name. -/
  | named {text : List Char} (named : Named text) : Adrift text

variable {α : Type} {text text' start rest middle : List Char} {body : Expr} {letters : String}

/-! ## Blanks in front -/

/-- Two texts are the same but for the blanks in front. -/
def Alike (text text' : List Char) : Prop :=
  ∃ start, Skips text start ∧ Skips text' start

/-- So is a text and what its blanks leave. -/
theorem Skips.alike (skips : Skips text start) : Alike start text :=
  ⟨start, skips.again, skips⟩

namespace Alike

variable {parser : Parser α} (alike : Alike text text')
include alike

/-- A parser behind blanks does the same on both. -/
theorem eq : (do blanks; parser : Parser α) text = (do blanks; parser : Parser α) text' := by
  obtain ⟨start, skips, skips'⟩ := alike
  rw [skips.bind_eq, skips'.bind_eq]

/-- It reads the same. -/
theorem reads {value : α} (reads : (do blanks; parser : Parser α).Reads text value rest) :
    (do blanks; parser : Parser α).Reads text' value rest := by
  rw [Reads, ← alike.eq]
  exact reads

/-- It declines both. -/
theorem declines (declines : (do blanks; parser : Parser α).Declines text) :
    (do blanks; parser : Parser α).Declines text' := by
  rw [Declines, ← alike.eq]
  exact declines

end Alike

/-- Blanks in front of an operand make no difference. -/
theorem Operand.alike (operand : Operand text) (alike : Alike text text') : Operand text' := by
  cases operand with
  | negation word operand => exact .negation (alike.reads word) operand
  | primary other reads behind => exact .primary (alike.declines other) (alike.reads reads) behind

/-- Nor do they behind one. -/
theorem Behind.alike (behind : Behind text) (alike : Alike text text') : Behind text' := by
  cases behind with
  | comparison sign reads behind =>
    rcases reads_optional_iff.1 sign with ⟨negated, same, inner⟩ | ⟨none, -⟩
    · cases same
      exact .comparison (alike.reads inner).optional reads behind
    · cases none
  | word listed reads operand => exact .word listed (alike.reads reads) operand
  | comma reads operand => exact .comma (alike.reads reads) operand
  | semicolon reads => exact .semicolon (alike.reads reads)

/-- Nor do they in front of a definition. -/
theorem Headed.alike (headed : Headed text) (alike : Alike text text') : Headed text' := by
  obtain ⟨letters, rest, listed, reads, next⟩ := headed
  exact ⟨letters, rest, listed, alike.reads reads, next⟩

/-- Nor do they where an operand is expected. -/
theorem Expected.alike (expected : Expected text) (alike : Alike text text') : Expected text' := by
  cases expected with
  | operand operand => exact .operand (operand.alike alike)
  | behind behind => exact .behind (behind.alike alike)
  | none skips other =>
    obtain ⟨start, skips', skips''⟩ := alike
    cases skips.unique skips'
    exact .none skips'' other
  | call skips reads behind =>
    obtain ⟨start, skips', skips''⟩ := alike
    cases skips.unique skips'
    exact .call skips'' reads behind
  | header headed => exact .header (headed.alike alike)

/-! ## First characters -/

/-- The words of the language. -/
def words : List String := ["AND", "OR", "NOT", "LET", "WHEN", "THEN", "EXECUTE"]

/-- They are made of letters. -/
theorem isAlpha_of_mem_words (listed : letters ∈ words) :
    (∀ c ∈ letters.toList, c.isAlpha = true) ∧ letters.toList ≠ [] := by
  have all : ∀ letters ∈ words, (∀ c ∈ letters.toList, c.isAlpha = true) ∧
      letters.toList ≠ [] := by decide
  exact all letters listed

/-- A text begins with one word at most. -/
theorem eq_of_words {letters' : String} {rest' : List Char} (listed : letters ∈ words)
    (listed' : letters' ∈ words)
    (reads : (do blanks; keyword letters : Parser Unit).Reads text () rest)
    (reads' : (do blanks; keyword letters' : Parser Unit).Reads text () rest') :
    letters = letters' ∧ rest = rest' := by
  have apart : ∀ a ∈ words, ∀ b ∈ words,
      a.toList.map Char.toLower = b.toList.map Char.toLower → a = b := by decide
  obtain ⟨start, skips⟩ := exists_skips text
  have word := wordOf_of_reads (isAlpha_of_mem_words listed).1 (skips.reads_iff.1 reads)
  have word' := wordOf_of_reads (isAlpha_of_mem_words listed').1 (skips.reads_iff.1 reads')
  obtain rfl := apart _ listed _ listed' (word.symm.trans word')
  have same := reads.symm.trans reads'
  cases same
  exact ⟨rfl, rfl⟩

/-- A word of the language begins like a name. -/
theorem exists_cons_of_word (listed : letters ∈ words)
    (reads : (do blanks; keyword letters : Parser Unit).Reads text () rest) :
    ∃ c others, Skips text (c :: others) ∧ isNameStart c = true := by
  obtain ⟨start, skips⟩ := exists_skips text
  obtain ⟨word, nonempty⟩ := isAlpha_of_mem_words listed
  obtain ⟨c, others, rfl, begins⟩ :=
    exists_cons_of_keyword word nonempty (skips.reads_iff.1 reads)
  exact ⟨c, others, skips, begins⟩

/-- What begins a name begins an operand. -/
theorem beginsPrimary_of_isNameStart {c : Char} (begins : isNameStart c = true) :
    beginsPrimary c = true := by
  simp [beginsPrimary, begins]

/-- An operand with negations begins like one without. -/
theorem Operand.begins (operand : Operand text) :
    ∃ c others, Skips text (c :: others) ∧ beginsPrimary c = true := by
  cases operand with
  | negation word _ =>
    obtain ⟨c, others, skips, begins⟩ := exists_cons_of_word (show "NOT" ∈ words by decide) word
    exact ⟨c, others, skips, beginsPrimary_of_isNameStart begins⟩
  | primary _ reads _ =>
    obtain ⟨start, skips⟩ := exists_skips text
    obtain ⟨c, others, rfl, begins⟩ := exists_cons_of_primary skips reads
    exact ⟨c, others, skips, begins⟩

/-- An operator or a separator stands behind an operand. -/
theorem Behind.begins (behind : Behind text) :
    ∃ c others, Skips text (c :: others) ∧ (isNameStart c = true ∨ c ∈ ['=', '!', ',', ';']) := by
  obtain ⟨start, skips⟩ := exists_skips text
  cases behind with
  | comparison sign _ _ =>
    rcases reads_optional_iff.1 sign with ⟨negated, -, inner⟩ | ⟨none, -⟩
    · rcases reads_orElse_iff.1 (skips.reads_iff.1 inner) with inner | ⟨-, inner⟩
      all_goals
        obtain ⟨_, middle, sign, -⟩ := reads_bind_iff.1 inner
        rw [reads_literal_iff.1 sign] at skips
        exact ⟨_, _, skips, .inr (by decide)⟩
    · cases none
  | word listed reads _ =>
    have infixes : ∀ letters ∈ ["AND", "OR", "THEN"], letters ∈ words := by decide
    obtain ⟨c, others, skips', begins⟩ := exists_cons_of_word (infixes _ listed) reads
    exact ⟨c, others, skips', .inl begins⟩
  | comma reads _ | semicolon reads =>
    rw [(reads_symbol_iff skips).1 reads] at skips
    exact ⟨_, _, skips, .inr (by decide)⟩

/-- A name begins like one. -/
theorem Named.begins (named : Named text) :
    ∃ c others, Skips text (c :: others) ∧ isNameStart c = true := by
  obtain ⟨name, middle, rest, reads, -⟩ := named
  obtain ⟨start, skips⟩ := exists_skips text
  obtain ⟨c, others, first, -⟩ := reads_bind_iff.1 (skips.reads_iff.1 reads)
  obtain ⟨rfl, begins⟩ := reads_satisfy_iff.1 first
  exact ⟨c, others, skips, begins⟩

/-- **Where a reader has found an operand no bracket is closed.** -/
theorem Adrift.begins (adrift : Adrift text) :
    ∃ c others, Skips text (c :: others) ∧
      (beginsPrimary c = true ∨ c ∈ ['=', '!', ',', ';']) := by
  cases adrift with
  | operand operand =>
    obtain ⟨c, others, skips, begins⟩ := operand.begins
    exact ⟨c, others, skips, .inl begins⟩
  | behind behind =>
    obtain ⟨c, others, skips, begins⟩ := behind.begins
    exact ⟨c, others, skips, begins.imp_left beginsPrimary_of_isNameStart⟩
  | named named =>
    obtain ⟨c, others, skips, begins⟩ := named.begins
    exact ⟨c, others, skips, .inl (beginsPrimary_of_isNameStart begins)⟩

/-! ## Expressions of a definition -/

/-- A word of the language takes a character. -/
theorem advances_keyword (nonempty : letters.toList ≠ []) : (keyword letters).Advances :=
  (advances_literalBy nonempty).bind fun _ => Yields.notFollowedBy

/-- So it does behind blanks. -/
theorem advances_word (nonempty : letters.toList ≠ []) :
    (do blanks; keyword letters : Parser Unit).Advances :=
  yields_blanks.bind_advances fun _ => advances_keyword nonempty

/-- A symbol takes a character. -/
theorem advances_symbol (nonempty : letters.toList ≠ []) : (symbol letters).Advances :=
  yields_blanks.bind_advances fun _ => advances_literalBy nonempty

/-- A comparison of a definition begins with an operand. -/
theorem operand_of_equality (other : negation.Declines text)
    (reads : (equality expression).Reads text body rest) (behind : Behind rest) :
    Operand text := by
  obtain ⟨left, middle, first, later⟩ := reads_bind_iff.1 reads
  obtain ⟨sign, middle', onSign, later⟩ := reads_bind_iff.1 later
  cases sign with
  | none =>
    obtain ⟨-, rfl⟩ := reads_pure_iff.1 later
    rcases reads_optional_iff.1 onSign with ⟨_, same, -⟩ | ⟨-, rfl, -⟩
    · cases same
    · exact .primary other first behind
  | some negated =>
    obtain ⟨right, rest', second, last⟩ := reads_bind_iff.1 later
    obtain ⟨-, rfl⟩ := reads_pure_iff.1 last
    exact .primary other first (.comparison onSign second behind)

/-- An operand under negations is one. -/
theorem operand_of_unary (reads : (unary expression).Reads text body rest)
    (behind : Behind rest) : Operand text := by
  obtain ⟨negations, middle, words, later⟩ := reads_bind_iff.1 reads
  obtain ⟨operand, rest', onOperand, last⟩ := reads_bind_iff.1 later
  obtain ⟨-, rfl⟩ := reads_pure_iff.1 last
  have all := words.readsAll (advances_word (by decide))
  clear reads later words last
  induction all with
  | none declines => exact operand_of_equality declines onOperand behind
  | more word _ _ ih => exact .negation word (ih onOperand)

/-- What begins with an operand does so with operators behind it. -/
theorem operand_of_leftAssociative {word function : String} {operand : Parser Expr}
    (listed : word ∈ ["AND", "OR", "THEN"])
    (each : ∀ {text rest body}, operand.Reads text body rest → Behind rest → Operand text)
    (reads : (leftAssociative word function operand).Reads text body rest) (behind : Behind rest) :
    Operand text := by
  obtain ⟨first, middle, onFirst, later⟩ := reads_bind_iff.1 reads
  obtain ⟨others, rest', row, last⟩ := reads_bind_iff.1 later
  obtain ⟨-, rfl⟩ := reads_pure_iff.1 last
  refine each onFirst (row.of_many (fun text _ rest => Behind rest → Behind text) (fun _ => id) ?_
    behind)
  intro text middle rest value values round later behind
  obtain ⟨_, between, onWord, onOperand⟩ := reads_bind_iff.1 round
  exact .word listed onWord (each onOperand (later behind))

/-- **An expression of a definition begins with an operand.** -/
theorem operand_of_expression (reads : expression.Reads text body rest) (behind : Behind rest) :
    Operand text := by
  rw [expression_eq] at reads
  obtain ⟨_, start, blank, inner⟩ := reads_bind_iff.1 reads
  have operand := operand_of_leftAssociative (by decide)
    (operand_of_leftAssociative (by decide) operand_of_unary) inner behind
  exact operand.alike (reads_blanks_iff.1 blank).alike

/-- So do the calls of a rule. -/
theorem operand_of_statementCalls {calls : List Expr}
    (reads : (commit statementCalls).Reads text calls rest) (behind : Behind rest) :
    Operand text := by
  obtain ⟨first, middle, onFirst, later⟩ :=
    reads_bind_iff.1 (reads_expecting_iff.1 (reads_commit_iff.1 reads))
  obtain ⟨others, rest', row, last⟩ := reads_bind_iff.1 later
  obtain ⟨-, rfl⟩ := reads_pure_iff.1 last
  refine operand_of_expression onFirst
    (row.of_many (fun text _ rest => Behind rest → Behind text) (fun _ => id) ?_ behind)
  intro text middle rest value values round later behind
  obtain ⟨_, between, comma, onCall⟩ := reads_bind_iff.1 round
  exact .comma comma (operand_of_expression onCall (later behind))

/-! ## Where a program begins -/

/-- **A definition begins with a word**, and with an operand or a name behind it. -/
theorem headed_of_definition {item : Definition}
    (reads : (do blanks; definition : Parser Definition).Reads text item rest) : Headed text := by
  have last : ∀ {text rest}, endOfDefinition.Reads text () rest → Behind text := fun reads =>
    .semicolon (reads_commit_iff.1 (reads_expecting_iff.1 reads))
  obtain ⟨_, start, blank, reads⟩ := reads_bind_iff.1 reads
  have skips := reads_blanks_iff.1 blank
  rcases reads_orElse_iff.1 reads with reads | ⟨-, reads⟩
  · obtain ⟨_, behind, word, later⟩ := reads_bind_iff.1 reads
    obtain ⟨name, middle, onName, later⟩ := reads_bind_iff.1 later
    obtain ⟨_, middle', sign, -⟩ := reads_bind_iff.1 later
    exact ⟨"LET", behind, by decide, skips.reads_iff.2 word, .inr ⟨name, middle, middle',
      reads_commit_iff.1 (reads_expecting_iff.1 onName),
      reads_commit_iff.1 (reads_expecting_iff.1 sign)⟩⟩
  rcases reads_orElse_iff.1 reads with reads | ⟨-, reads⟩
  · obtain ⟨_, behind, word, later⟩ := reads_bind_iff.1 reads
    obtain ⟨condition, middle, onCondition, later⟩ := reads_bind_iff.1 later
    obtain ⟨_, middle', onThen, later⟩ := reads_bind_iff.1 later
    obtain ⟨calls, middle'', onCalls, later⟩ := reads_bind_iff.1 later
    obtain ⟨_, rest', semicolon, -⟩ := reads_bind_iff.1 later
    refine ⟨"WHEN", behind, by decide, skips.reads_iff.2 word,
      .inl (operand_of_expression (reads_commit_iff.1 onCondition) ?_)⟩
    exact .word (by decide) (reads_commit_iff.1 (reads_expecting_iff.1 onThen))
      (operand_of_statementCalls onCalls (last semicolon))
  · obtain ⟨_, behind, word, later⟩ := reads_bind_iff.1 reads
    obtain ⟨calls, middle, onCalls, later⟩ := reads_bind_iff.1 later
    obtain ⟨_, rest', semicolon, -⟩ := reads_bind_iff.1 later
    exact ⟨"EXECUTE", behind, by decide, skips.reads_iff.2 word,
      .inl (operand_of_statementCalls onCalls (last semicolon))⟩

/-- A definition takes a character. -/
theorem advances_definition : (do blanks; definition : Parser Definition).Advances := by
  have last : endOfDefinition.Yields fun _ => True := (yields_symbol ";").commit.expecting
  have calls : statementCalls.commit.Yields fun _ => True :=
    Yields.mono (fun _ _ => trivial)
      (Yields.separated1 (yields_symbol ",") yields_expression).expecting.commit
  refine yields_blanks.bind_advances fun _ => .orElse ?_ (.orElse ?_ ?_)
  · exact (advances_keyword (by decide)).bind fun _ =>
      (yields_blanks.bind fun _ _ => yields_identifier).commit.expecting.bind fun _ _ =>
        (yields_symbol _).commit.expecting.bind fun _ _ => yields_expression.commit.bind
          fun _ _ => last.bind fun _ _ => .known
  · exact (advances_keyword (by decide)).bind fun _ =>
      yields_expression.commit.bind fun _ _ => (yields_word _).commit.expecting.bind fun _ _ =>
        calls.bind fun _ _ => last.bind fun _ _ => .known
  · exact (advances_keyword (by decide)).bind fun _ =>
      calls.bind fun _ _ => last.bind fun _ _ => .known

/-- Where a program begins, a definition follows or nothing but blanks. -/
theorem headed_or_skips_of_program {definitions : Program}
    (reads : program.Reads text definitions []) : Headed text ∨ Skips text [] := by
  obtain ⟨items, middle, row, later⟩ := reads_bind_iff.1 reads
  obtain ⟨_, rest, blank, last⟩ := reads_bind_iff.1 later
  obtain ⟨-, rfl⟩ := reads_pure_iff.1 last
  cases row.readsAll advances_definition with
  | none => exact .inr (reads_blanks_iff.1 blank)
  | more first => exact .inl (headed_of_definition first)

end RuleGraph.Source
