import RuleGraph.Proofs.Source.Adrift

/-! # Reading outside of brackets

Where a reader looks for an operand outside of the brackets of a definition that can be read, it
finds one or declines, and never fails finally: every call that it may enter is closed. What it then
comes to is outside of brackets again.

* **`Source.Adrift.expected_of_word`**, **`Source.Adrift.operand_of_comma`** — behind an operator or
  a comma an operand may be looked for again.
* **`Source.drifts_primary`** — what is taken for an operand.
* **`Source.drifts_expression`** — what is taken for an expression.
-/

namespace RuleGraph.Source

open RuleGraph.Parser RuleGraph.Numeral

variable {text start rest inner : List Char} {body : Expr} {letters : String}

/-! ## Tokens -/

/-- A word of the language is there or not. -/
theorem drifts_keyword (letters : String) (text : List Char) :
    (keyword letters).Drifts (fun _ => True) text := by
  have spelt : (literalBy (fun a b => a.toLower = b.toLower) letters.toList).Drifts (fun _ => True)
      text := by
    rcases agrees_or_declines_literalBy (fun a b => a.toLower = b.toLower) letters.toList text with
      ⟨front, rest, rfl, agrees⟩ | declines
    · exact .inr ⟨(), rest, reads_literalBy agrees, trivial⟩
    · exact .inl declines
  refine spelt.bind fun _ middle _ _ => ?_
  rcases @Drifts.satisfy middle isNameChar with declines | ⟨c, rest, reads, -⟩
  · exact .inr ⟨(), middle, declines.notFollowedBy, trivial⟩
  · exact .inl reads.notFollowedBy

/-- Where no name begins it is not. -/
theorem declines_keyword_of_head (listed : letters ∈ words)
    (other : ∀ c ∈ text.head?, isNameStart c = false) : (keyword letters).Declines text := by
  rcases drifts_keyword letters text with declines | ⟨_, _, reads, -⟩
  · exact declines
  · obtain ⟨c, others, rfl, begins⟩ := exists_cons_of_keyword (isAlpha_of_mem_words listed).1
      (isAlpha_of_mem_words listed).2 reads
    exact Bool.noConfusion (begins.symm.trans (other c rfl))

/-- Behind blanks it is there or not as well. -/
theorem drifts_word (letters : String) (text : List Char) :
    (do blanks; keyword letters : Parser Unit).Drifts (fun _ => True) text := by
  obtain ⟨start, skips⟩ := exists_skips text
  exact skips.drifts_iff.2 (drifts_keyword letters start)

/-- So is a symbol. -/
theorem drifts_symbol (letters : String) (text : List Char) :
    (symbol letters).Drifts (fun _ => True) text := by
  obtain ⟨start, skips⟩ := exists_skips text
  refine skips.drifts_iff.2 ?_
  rcases agrees_or_declines_literalBy (fun a b => a = b) letters.toList start with
    ⟨front, rest, rfl, agrees⟩ | declines
  · exact .inr ⟨(), rest, reads_literalBy agrees, trivial⟩
  · exact .inl declines

/-- What begins with two characters begins with the same. -/
theorem eq_of_skips_cons {c d : Char} {others others' : List Char}
    (skips : Skips text (c :: others)) (skips' : Skips text (d :: others')) : c = d :=
  (List.cons.inj (skips.unique skips')).1

/-- What begins a name is none of the signs. -/
theorem ne_of_isNameStart {c d : Char} (begins : isNameStart c = true)
    (sign : d ∈ ['=', '!', ',', ';', '(', '.', ':', ')', ']']) : c ≠ d := by
  have apart : ∀ d ∈ ['=', '!', ',', ';', '(', '.', ':', ')', ']'], isNameStart d = false := by
    decide
  rintro rfl
  exact Bool.noConfusion (begins.symm.trans (apart c sign))

/-- An equality sign begins with one of two characters. -/
theorem exists_cons_of_equalitySign {negated : Bool}
    (reads : equalitySign.Reads text (some negated) rest) :
    ∃ c others, Skips text (c :: others) ∧ c ∈ ['=', '!'] := by
  obtain ⟨start, skips⟩ := exists_skips text
  rcases reads_optional_iff.1 reads with ⟨_, -, inner⟩ | ⟨none, -⟩
  · rcases reads_orElse_iff.1 (skips.reads_iff.1 inner) with inner | ⟨-, inner⟩
    all_goals
      obtain ⟨_, middle, sign, -⟩ := reads_bind_iff.1 inner
      rw [reads_literal_iff.1 sign] at skips
      exact ⟨_, _, skips, by decide⟩
  · cases none

/-- Where something else stands there is none. -/
theorem reads_equalitySign_none {c : Char} {others : List Char} (skips : Skips text (c :: others))
    (other : c ∉ ['=', '!']) : equalitySign.Reads text none text := by
  have apart : ∀ d ∈ ['=', '!'], d ∉ (c :: others).head? := by
    rintro d listed ⟨⟩
    exact other listed
  exact (skips.declines_iff.2 (Declines.orElse_declines
    ((declines_literal (apart _ (by decide))).bind _)
    ((declines_literal (apart _ (by decide))).bind _))).optional

/-! ## Names and parentheses -/

/-- A word may be read as a name, if no point follows it. -/
theorem exists_reads_identifier (listed : letters ∈ words)
    (reads : (keyword letters).Reads text () rest) (ends : '.' ∉ rest.head?) :
    ∃ name, identifier.Reads text name rest := by
  obtain ⟨word, nonempty⟩ := isAlpha_of_mem_words listed
  obtain ⟨front, rfl, same, noName⟩ := reads_keyword_iff.1 reads
  have agrees : List.Forall₂ (fun c letter => decide (c.toLower = letter.toLower) = true) front
      letters.toList := by
    rw [← List.forall₂_eq_eq_eq, List.forall₂_map_left_iff, List.forall₂_map_right_iff] at same
    exact same.imp fun _ _ => decide_eq_true
  have inside := isNameChar_of_agrees agrees word
  obtain ⟨c, others, whole, begins⟩ := exists_cons_of_keyword word nonempty reads
  cases front with
  | nil =>
    rw [List.map_nil, eq_comm, List.map_eq_nil_iff] at same
    exact absurd same nonempty
  | cons d front =>
    cases whole
    refine ⟨String.ofList (c :: front), ?_⟩
    have isIdentifier : IsIdentifier (String.ofList (c :: front)) :=
      ⟨c, front, String.toList_ofList, begins, fun letter member => by
        simp [inside letter (List.mem_cons_of_mem _ member)]⟩
    have named := @reads_identifier rest _ isIdentifier fun c here =>
      ⟨noName c here, by rintro rfl; exact ends here⟩
    rwa [String.toList_ofList] at named

/-- What is read behind the name of a call begins with its arguments, or is an operand between
parentheses. -/
theorem Adrift.reads_arguments (adrift : Adrift text) (skips : Skips text ('(' :: inner)) :
    ∃ args rest, (arguments expression).Reads inner args rest ∧ Behind rest := by
  have apart : ∀ {c : Char} {others : List Char}, Skips text (c :: others) → c ≠ '(' → False :=
    fun skips' other => other (eq_of_skips_cons skips' skips)
  cases adrift with
  | operand operand =>
    cases operand with
    | negation word _ =>
      obtain ⟨c, others, skips', begins⟩ := exists_cons_of_word (show "NOT" ∈ words by decide) word
      exact (apart skips' (ne_of_isNameStart begins (by decide))).elim
    | primary _ reads behind =>
      obtain ⟨_, start, opening, later⟩ :=
        reads_bind_iff.1 ((reads_primary_iff_of_parenthesis skips).1 reads)
      obtain ⟨same, -⟩ := reads_satisfy_iff.1 opening
      cases same
      obtain ⟨body', middle, onBody, later⟩ := reads_bind_iff.1 later
      obtain ⟨_, rest', closing, last⟩ := reads_bind_iff.1 later
      obtain ⟨-, rfl⟩ := reads_pure_iff.1 last
      -- The argument is the only one, since the parenthesis is closed behind it.
      obtain ⟨start', skips'⟩ := exists_skips middle
      have none : (do symbol ","; expression : Parser Expr).Declines middle := by
        refine Declines.bind _
          (declines_symbol_of_skips skips' (show ",".toList = [','] from rfl) ?_)
        rw [(reads_symbol_iff skips').1 closing]
        simp
      exact ⟨[body'], _, Reads.bind (Reads.bind onBody.optional
        (Reads.bind (ReadsAll.none none).many .pure)) (Reads.bind closing .pure), behind⟩
  | behind behind =>
    obtain ⟨c, others, skips', begins⟩ := behind.begins
    rcases begins with begins | sign
    · exact (apart skips' (ne_of_isNameStart begins (by decide))).elim
    · have all : ∀ c ∈ ['=', '!', ',', ';'], c ≠ '(' := by decide
      exact (apart skips' (all c sign)).elim
  | named named =>
    obtain ⟨c, others, skips', begins⟩ := named.begins
    exact (apart skips' (ne_of_isNameStart begins (by decide))).elim

/-- **A word that is taken for an operand** is a feature, or calls what is an operand between
parentheses. -/
theorem drifts_primary_word (listed : letters ∈ words)
    (word : (do blanks; keyword letters : Parser Unit).Reads text () rest) (adrift : Adrift rest) :
    (primary expression).Drifts Adrift text := by
  obtain ⟨c, others, skips, begins⟩ := exists_cons_of_word listed word
  obtain ⟨name, onName⟩ := exists_reads_identifier listed (skips.reads_iff.1 word) <| by
    intro point
    obtain ⟨others', rfl⟩ := List.head?_eq_some_iff.1 point
    obtain ⟨d, others'', skips', first⟩ := adrift.begins
    have token : Skips ('.' :: others') ('.' :: others') :=
      .stop (by rintro c ⟨⟩; decide) (declines_comment (by simp))
    obtain rfl := eq_of_skips_cons token skips'
    exact absurd first (by decide)
  suffices reads : ∃ body rest', (callOrFeature expression).Reads (c :: others) body rest' ∧
      Adrift rest' by
    obtain ⟨body, rest', reads, adrift'⟩ := reads
    exact .inr ⟨body, rest', (reads_primary_iff_of_isNameStart begins skips).2 reads, adrift'⟩
  rcases drifts_symbol "(" rest with declines | ⟨_, inner, opening, -⟩
  · exact ⟨_, rest, onName.bind (declines.optional.bind .pure), adrift⟩
  · obtain ⟨start, skips'⟩ := exists_skips rest
    rw [(reads_symbol_iff skips').1 opening] at skips'
    obtain ⟨args, rest', onArgs, behind⟩ := adrift.reads_arguments skips'
    exact ⟨_, rest', onName.bind (opening.optional.bind (Reads.orElse _ (onArgs.bind .pure))),
      .behind behind⟩

/-! ## Operators and separators -/

/-- A name that begins with a word is that word, or goes on with a point. -/
theorem eq_or_mem_head?_of_identifier {name : String} {middle : List Char}
    (listed : letters ∈ words) (word : (keyword letters).Reads text () rest)
    (named : identifier.Reads text name middle) : middle = rest ∨ '.' ∈ rest.head? := by
  by_cases point : '.' ∈ rest.head?
  · exact .inr point
  · obtain ⟨name', named'⟩ := exists_reads_identifier listed word point
    cases named.symm.trans named'
    exact .inl rfl

/-- A point begins no operand. -/
theorem expected_of_point (point : '.' ∈ text.head?) : Expected text := by
  obtain ⟨others, rfl⟩ := List.head?_eq_some_iff.1 point
  refine .none (.stop ?_ (declines_comment (by simp))) ?_
  all_goals
    rintro c ⟨⟩
    decide

/-- **Behind what is read as an operator** an operand may be looked for again. -/
theorem Adrift.expected_of_word (adrift : Adrift text) (listed : letters ∈ ["AND", "OR"])
    (word : (do blanks; keyword letters : Parser Unit).Reads text () rest) : Expected rest := by
  have infixes : ∀ letters ∈ ["AND", "OR"], letters ∈ words ∧ letters ≠ "NOT" := by decide
  obtain ⟨isWord, notNegation⟩ := infixes letters listed
  obtain ⟨c, others, skips, begins⟩ := exists_cons_of_word isWord word
  have apart : ∀ {d : Char} {others' : List Char}, Skips text (d :: others') →
      d ∈ ['=', '!', ',', ';', '(', '.', ':', ')', ']'] → False := fun skips' sign =>
    ne_of_isNameStart begins sign (eq_of_skips_cons skips skips')
  cases adrift with
  | operand operand =>
    cases operand with
    | negation word' _ =>
      exact absurd (eq_of_words isWord (show "NOT" ∈ words by decide) word word').1 notNegation
    | primary _ reads behind =>
      obtain ⟨name, middle, named, later⟩ :=
        reads_bind_iff.1 ((reads_primary_iff_of_isNameStart begins skips).1 reads)
      rcases eq_or_mem_head?_of_identifier isWord (skips.reads_iff.1 word) named with rfl | point
      swap
      · exact expected_of_point point
      obtain ⟨result, middle', opening, last⟩ := reads_bind_iff.1 later
      rcases reads_optional_iff.1 opening with ⟨_, rfl, parenthesis⟩ | ⟨rfl, rfl, -⟩
      · obtain ⟨start, skips'⟩ := exists_skips middle
        rw [(reads_symbol_iff skips').1 parenthesis] at skips'
        exact .call skips' last behind
      · obtain ⟨-, rfl⟩ := reads_pure_iff.1 last
        exact .behind behind
  | behind behind =>
    cases behind with
    | comparison sign _ _ =>
      obtain ⟨d, others', skips', isSign⟩ := exists_cons_of_equalitySign sign
      have signs : ∀ d ∈ ['=', '!'], d ∈ ['=', '!', ',', ';', '(', '.', ':', ')', ']'] := by decide
      exact (apart skips' (signs d isSign)).elim
    | word listed' word' operand =>
      have infixes' : ∀ letters ∈ ["AND", "OR", "THEN"], letters ∈ words := by decide
      obtain ⟨-, rfl⟩ := eq_of_words isWord (infixes' _ listed') word word'
      exact .operand operand
    | comma reads _ | semicolon reads =>
      rw [(reads_symbol_iff skips).1 reads] at skips
      exact (apart skips (by decide)).elim
  | named named =>
    obtain ⟨name, middle, rest', onName, sign⟩ := named
    rcases eq_or_mem_head?_of_identifier isWord (skips.reads_iff.1 word)
      (skips.reads_iff.1 onName) with rfl | point
    · obtain ⟨start, skips'⟩ := exists_skips middle
      rw [(reads_symbol_iff skips').1 sign] at skips'
      exact .none skips' (by rintro c ⟨⟩; decide)
    · exact expected_of_point point

/-- Behind a comma there is an operand. -/
theorem Adrift.operand_of_comma (adrift : Adrift text) (comma : (symbol ",").Reads text () rest) :
    Operand rest := by
  obtain ⟨start, skips⟩ := exists_skips text
  rw [(reads_symbol_iff skips).1 comma] at skips
  have apart : ∀ {c : Char} {others : List Char}, Skips text (c :: others) → c ≠ ',' → False :=
    fun skips' other => other (eq_of_skips_cons skips' skips)
  cases adrift with
  | operand operand =>
    obtain ⟨c, others, skips', begins⟩ := operand.begins
    exact (apart skips' (by rintro rfl; exact absurd begins (by decide))).elim
  | behind behind =>
    cases behind with
    | comparison sign _ _ =>
      obtain ⟨c, others, skips', isSign⟩ := exists_cons_of_equalitySign sign
      have signs : ∀ c ∈ ['=', '!'], c ≠ ',' := by decide
      exact (apart skips' (signs c isSign)).elim
    | word listed word _ =>
      have infixes : ∀ letters ∈ ["AND", "OR", "THEN"], letters ∈ words := by decide
      obtain ⟨c, others, skips', begins⟩ := exists_cons_of_word (infixes _ listed) word
      exact (apart skips' (ne_of_isNameStart begins (by decide))).elim
    | comma comma' operand =>
      cases comma.symm.trans comma'
      exact operand
    | semicolon semicolon =>
      rw [(reads_symbol_iff skips).1 semicolon] at skips
      exact (apart skips (by decide)).elim
  | named named =>
    obtain ⟨c, others, skips', begins⟩ := named.begins
    exact (apart skips' (ne_of_isNameStart begins (by decide))).elim

/-- An equality sign compares operands of the definition. -/
theorem Adrift.reads_equalitySign (adrift : Adrift text) :
    equalitySign.Reads text none text ∨ ∃ negated middle body rest,
      equalitySign.Reads text (some negated) middle ∧
        (primary expression).Reads middle body rest ∧ Behind rest := by
  have name : ∀ {c : Char} {others : List Char}, Skips text (c :: others) →
      isNameStart c = true → equalitySign.Reads text none text := fun skips begins =>
    reads_equalitySign_none skips fun sign => by
      have signs : ∀ c ∈ ['=', '!'], isNameStart c = false := by decide
      exact Bool.noConfusion (begins.symm.trans (signs _ sign))
  cases adrift with
  | operand operand =>
    obtain ⟨c, others, skips, begins⟩ := operand.begins
    refine .inl (reads_equalitySign_none skips fun sign => ?_)
    have signs : ∀ c ∈ ['=', '!'], beginsPrimary c = false := by decide
    exact Bool.noConfusion (begins.symm.trans (signs c sign))
  | behind behind =>
    cases behind with
    | comparison sign reads behind => exact .inr ⟨_, _, _, _, sign, reads, behind⟩
    | word listed word _ =>
      have infixes : ∀ letters ∈ ["AND", "OR", "THEN"], letters ∈ words := by decide
      obtain ⟨c, others, skips, begins⟩ := exists_cons_of_word (infixes _ listed) word
      exact .inl (name skips begins)
    | comma reads _ | semicolon reads =>
      obtain ⟨start, skips⟩ := exists_skips text
      rw [(reads_symbol_iff skips).1 reads] at skips
      exact .inl (reads_equalitySign_none skips (by decide))
  | named named =>
    obtain ⟨c, others, skips, begins⟩ := named.begins
    exact .inl (name skips begins)

/-! ## Operands -/

/-- The arguments of a call are an operand between parentheses, or none. -/
theorem drifts_parenthesised {name : String}
    (reads : (callBody expression name).Reads inner body rest) (behind : Behind rest) :
    (parenthesised expression).Drifts Adrift ('(' :: inner) := by
  obtain ⟨args, middle, row, closing⟩ : ∃ args middle,
      (separated (symbol ",") expression).Reads inner args middle ∧
        (symbol ")").Drifts Behind middle := by
    rcases reads_orElse_iff.1 reads with reads | ⟨declines, -⟩
    · obtain ⟨args, middle, onArgs, last⟩ := reads_bind_iff.1 reads
      obtain ⟨-, rfl⟩ := reads_pure_iff.1 last
      obtain ⟨args', middle', row, later⟩ := reads_bind_iff.1 onArgs
      obtain ⟨_, rest', closing, same⟩ := reads_bind_iff.1 later
      obtain ⟨-, rfl⟩ := reads_pure_iff.1 same
      exact ⟨args', middle', row, .inr ⟨(), _, closing, behind⟩⟩
    · rcases declines_bind_iff.1 declines with declines | ⟨_, _, -, ⟨_, _, failed⟩⟩
      · rcases declines_bind_iff.1 declines with declines | ⟨args, middle, row, declines⟩
        · exact absurd declines not_declines_separated
        · rcases declines_bind_iff.1 declines with declines | ⟨_, _, -, ⟨_, _, failed⟩⟩
          · exact ⟨args, middle, row, .inl declines⟩
          · cases failed
      · cases failed
  refine Drifts.behind (reads_satisfy (by decide)) ?_
  obtain ⟨result, middle', first, later⟩ := reads_bind_iff.1 row
  rcases reads_optional_iff.1 first with ⟨left, rfl, onFirst⟩ | ⟨-, -, declines⟩
  swap
  · exact .inl (declines.bind _)
  obtain ⟨others, middle'', further, last⟩ := reads_bind_iff.1 later
  obtain ⟨-, rfl⟩ := reads_pure_iff.1 last
  refine Drifts.behind onFirst ?_
  have advances : (do symbol ","; expression : Parser Expr).Advances :=
    (advances_symbol (by decide)).bind fun _ => yields_expression
  cases further.readsAll advances with
  | none => exact closing.bind fun _ _ _ behind => .pure (.behind behind)
  | more round =>
    obtain ⟨_, _, comma, -⟩ := reads_bind_iff.1 round
    obtain ⟨start, skips⟩ := exists_skips middle'
    refine .inl (Declines.bind _
      (declines_symbol_of_skips skips (show ")".toList = [')'] from rfl) ?_))
    rw [(reads_symbol_iff skips).1 comma]
    simp

/-- **What is taken for an operand** leads to where one has been found. -/
theorem drifts_primary (expected : Expected text) (other : negation.Declines text) :
    (primary expression).Drifts Adrift text := by
  have infixes : ∀ letters ∈ ["AND", "OR", "THEN"], letters ∈ words := by decide
  have headers : ∀ letters ∈ ["LET", "WHEN", "EXECUTE"], letters ∈ words := by decide
  have declined : ∀ {c : Char} {others : List Char}, Skips text (c :: others) →
      beginsPrimary c = false → (primary expression).Drifts Adrift text :=
    fun skips begins => .inl (declines_primary skips (by rintro d ⟨⟩; exact begins))
  cases expected with
  | operand operand =>
    cases operand with
    | negation word _ => exact absurd other word.not_declines
    | primary _ reads behind => exact .inr ⟨_, _, reads, .behind behind⟩
  | behind behind =>
    cases behind with
    | comparison sign _ _ =>
      obtain ⟨c, others, skips, isSign⟩ := exists_cons_of_equalitySign sign
      have signs : ∀ c ∈ ['=', '!'], beginsPrimary c = false := by decide
      exact declined skips (signs c isSign)
    | word listed word operand =>
      exact drifts_primary_word (infixes _ listed) word (.operand operand)
    | comma reads _ | semicolon reads =>
      obtain ⟨start, skips⟩ := exists_skips text
      rw [(reads_symbol_iff skips).1 reads] at skips
      exact declined skips (by decide)
  | none skips begins => exact .inl (declines_primary skips begins)
  | call skips reads behind =>
    rcases drifts_parenthesised reads behind with declines | ⟨body, rest, inside, adrift⟩
    · exact .inl ((declines_primary_iff_of_parenthesis skips).2 declines)
    · exact .inr ⟨body, rest, (reads_primary_iff_of_parenthesis skips).2 inside, adrift⟩
  | header headed =>
    obtain ⟨letters, rest, listed, word, next⟩ := headed
    exact drifts_primary_word (headers _ listed) word (next.elim .operand .named)

/-- The word of a negation is read in front of operands only. -/
theorem Expected.drifts_negation (expected : Expected text) : negation.Drifts Expected text := by
  rcases drifts_word "NOT" text with declines | ⟨_, rest, word, -⟩
  · exact .inl declines
  have isWord : "NOT" ∈ words := by decide
  obtain ⟨c, others, skips, begins⟩ := exists_cons_of_word isWord word
  have apart : ∀ {d : Char} {others' : List Char}, Skips text (d :: others') →
      d ∈ ['=', '!', ',', ';', '(', '.', ':', ')', ']'] → negation.Drifts Expected text :=
    fun skips' sign => absurd (eq_of_skips_cons skips skips') (ne_of_isNameStart begins sign)
  have other : ∀ {letters : String} {rest' : List Char}, letters ∈ words → letters ≠ "NOT" →
      (do blanks; keyword letters : Parser Unit).Reads text () rest' →
      negation.Drifts Expected text := fun listed different word' =>
    absurd (eq_of_words listed isWord word' word).1 different
  cases expected with
  | operand operand =>
    cases operand with
    | negation word' operand => exact .inr ⟨(), _, word', .operand operand⟩
    | primary declines _ _ => exact .inl declines
  | behind behind =>
    cases behind with
    | comparison sign _ _ =>
      obtain ⟨d, others', skips', isSign⟩ := exists_cons_of_equalitySign sign
      have signs : ∀ d ∈ ['=', '!'], d ∈ ['=', '!', ',', ';', '(', '.', ':', ')', ']'] := by decide
      exact apart skips' (signs d isSign)
    | word listed word' _ =>
      have infixes : ∀ letters ∈ ["AND", "OR", "THEN"], letters ∈ words ∧ letters ≠ "NOT" := by
        decide
      exact other (infixes _ listed).1 (infixes _ listed).2 word'
    | comma reads _ | semicolon reads =>
      rw [(reads_symbol_iff skips).1 reads] at skips
      exact apart skips (by decide)
  | none skips' none => exact .inl (declines_negation_of_skips skips' none)
  | call skips' _ _ => exact apart skips' (by decide)
  | header headed =>
    obtain ⟨letters, rest', listed, word', -⟩ := headed
    have headers : ∀ letters ∈ ["LET", "WHEN", "EXECUTE"], letters ∈ words ∧ letters ≠ "NOT" := by
      decide
    exact other (headers _ listed).1 (headers _ listed).2 word'

/-! ## Expressions -/

/-- A comparison with what stands behind an operand. -/
theorem Adrift.drifts_comparison (adrift : Adrift text) (left : Expr) :
    (do
      match ← equalitySign with
      | none => return left
      | some negated =>
        let right ← primary expression
        let comparison := Expr.call "eq" [left, right]
        return if negated then .call "not" [comparison] else comparison : Parser Expr).Drifts
      Adrift text := by
  rcases adrift.reads_equalitySign with none | ⟨negated, middle, right, rest, sign, reads, behind⟩
  · exact .inr ⟨left, text, none.bind .pure, adrift⟩
  · exact .inr ⟨_, rest, sign.bind (reads.bind .pure), .behind behind⟩

/-- What is taken for an operand under negations. -/
theorem drifts_unary (expected : Expected text) : (unary expression).Drifts Adrift text := by
  obtain ⟨negations, rest, all, expected'⟩ := Drifts.readsAll (advances_word (by decide))
    (fun _ => Expected.drifts_negation) expected
  have comparison : (equality expression).Drifts Adrift rest :=
    (drifts_primary expected' all.declines).bind fun left _ _ adrift =>
      adrift.drifts_comparison left
  exact .behind all.many (comparison.bind fun _ _ _ adrift => .pure adrift)

/-- What is taken for an operator and an operand behind it. -/
theorem Adrift.drifts_round {operand : Parser Expr} (listed : letters ∈ ["AND", "OR"])
    (each : ∀ {text}, Expected text → operand.Drifts Adrift text) (adrift : Adrift text) :
    (Parser.bind (do blanks; keyword letters) fun _ => operand).Drifts Adrift text :=
  (drifts_word letters text).bind fun _ _ word _ => each (adrift.expected_of_word listed word)

/-- What is taken for operands in a row, from the first of them on. -/
theorem Adrift.drifts_further {operand : Parser Expr} (listed : letters ∈ ["AND", "OR"])
    (yields : operand.Yields Expr.IsParsed)
    (each : ∀ {text}, Expected text → operand.Drifts Adrift text) (adrift : Adrift text) :
    (further (do blanks; keyword letters) operand).Drifts Adrift text := by
  have nonempty : ∀ letters ∈ ["AND", "OR"], letters.toList ≠ [] := by decide
  obtain ⟨others, rest, all, adrift'⟩ := Drifts.readsAll
    ((advances_word (nonempty _ listed)).bind fun _ => yields)
    (fun _ adrift => adrift.drifts_round listed each) adrift
  exact .inr ⟨others, rest, all.many, adrift'⟩

/-- What is taken for operands in a row. -/
theorem drifts_leftAssociative {function : String} {operand : Parser Expr}
    (listed : letters ∈ ["AND", "OR"]) (yields : operand.Yields Expr.IsParsed)
    (each : ∀ {text}, Expected text → operand.Drifts Adrift text) (expected : Expected text) :
    (leftAssociative letters function operand).Drifts Adrift text :=
  (each expected).bind fun _ _ _ adrift => (adrift.drifts_further listed yields each).bind
    fun _ _ _ adrift => .pure adrift

/-- **What is taken for an expression** leads to where an operand has been found. -/
theorem drifts_expression (expected : Expected text) : expression.Drifts Adrift text := by
  obtain ⟨start, skips⟩ := exists_skips text
  rw [expression_eq]
  refine skips.drifts_iff.2 ?_
  have onUnary := yields_unary yields_expression
  exact drifts_leftAssociative (by decide)
    (yields_leftAssociative (isIdentifier_operator (by decide)) onUnary)
    (drifts_leftAssociative (by decide) onUnary drifts_unary)
    (expected.alike ⟨start, skips, skips.again⟩)

/-- What is taken for a comma and an expression behind it. -/
theorem Adrift.drifts_item (adrift : Adrift text) :
    (Parser.bind (symbol ",") fun _ => expression).Drifts Adrift text :=
  (drifts_symbol "," text).bind fun _ _ comma _ =>
    drifts_expression (.operand (adrift.operand_of_comma comma))

end RuleGraph.Source
