import RuleGraph.Proofs.Source.Excursions

/-! # Programs behind one another

Two texts that are programs are one if they are put behind one another, on lines of their own, and
its definitions are those of the one and then those of the other. There is one exception: a quote in
the first text that is not closed there may be closed in the second one.

* **`Source.keeps_definition`** — definitions are read in front of others.
* **`parse_append`** — programs are read behind one another.
* **`parse_append_differs`** — a quote in a comment that makes a difference.
-/

namespace RuleGraph

namespace Source

open RuleGraph.Parser

variable {text start rest more : List Char}

/-! ## Definitions -/

section

variable (begins : Headed more ∨ Skips more [])
include begins

/-- The end of a definition is read in front of others. -/
theorem keeps_endOfDefinition : endOfDefinition.Keeps more text :=
  (steady_symbol begins (by decide) (show ";".toList = _ from rfl)
    (by decide)).keeps.commit.expecting

omit begins in
/-- What is read behind blanks is read in front of other lines, if it is not read at the end. -/
theorem keeps_behind_blanks {α : Type} {parser : Parser α}
    (keeps : ∀ start, Scans text start → parser.Keeps more start)
    (atEnd : ∀ rest, AtEnd rest → parser.Declines rest) :
    (do blanks; parser : Parser α).Keeps more text := by
  intro value rest reads
  obtain ⟨start, skips⟩ := exists_skips text
  have inner := skips.reads_iff.1 reads
  rcases skips.append more with skips' | ⟨isEnd, -⟩
  · obtain ⟨scans, inner'⟩ := keeps start skips.scans value rest inner
    exact ⟨skips.scans.trans scans, skips'.reads_iff.2 inner'⟩
  · exact absurd (atEnd start isEnd) inner.not_declines

/-- The calls of a rule are read in front of other definitions, unless an operand is missing. -/
theorem strays_statementCalls (closed : LeavesTextOpen text → '"' ∉ more) :
    (commit statementCalls).Strays more (Abandoned more) text := by
  have each : ∀ rest, Scans text rest → expression.Strays more (CutBy ["OR", "AND"]) rest :=
    fun rest scans => strays_expression begins fun opened => closed (scans.leavesTextOpen opened)
  exact ((separates_comma begins).followed (each text .refl) each List.cons).expecting.commit

omit begins in
/-- Where an operand is missing no definition ends. -/
theorem Abandoned.not_reads {item : Definition} (abandoned : Abandoned more text)
    (result : Definition) (rest : List Char) :
    ¬(do endOfDefinition; return item : Parser Definition).Reads text result rest := by
  intro reads
  obtain ⟨_, middle, semicolon, -⟩ := reads_bind_iff.1 reads
  exact (reads_commit_iff.1 (reads_expecting_iff.1 semicolon)).not_declines
    (abandoned.declines_symbol rfl (by decide))

/-- The definition of a feature is read in front of others. -/
theorem keeps_featureDefinition (closed : LeavesTextOpen text → '"' ∉ more) :
    featureDefinition.Keeps more text := by
  have word : (keyword "LET").Local := local_keyword (by decide)
  have name : ∀ {text}, (do blanks; identifier : Parser String).Keeps more text := fun {_} =>
    keeps_behind_blanks (fun _ _ => local_identifier.steady.keeps) fun rest atEnd =>
      declines_identifier fun c here => by rw [atEnd.head c here]; decide
  refine word.steady.keeps.bind fun _ behind _ scans => ?_
  refine name.commit.expecting.bind fun _ middle _ scans' => ?_
  refine (steady_symbol begins (by decide) (show ":=".toList = _ from rfl)
    (by decide)).keeps.commit.expecting.bind fun _ rest _ scans'' => ?_
  refine .of_strays (strays_expression begins fun opened => closed
    (((scans.trans scans').trans scans'').leavesTextOpen opened)).commit ?_ ?_
  · exact fun _ _ _ _ => (keeps_endOfDefinition begins).bind fun _ _ _ _ => Local.pure.steady.keeps
  · rintro _ _ cut
    have abandoned : Abandoned more _ := .inl cut
    exact abandoned.not_reads

/-- A rule with a condition is read in front of other definitions. -/
theorem keeps_conditionalRule (closed : LeavesTextOpen text → '"' ∉ more) :
    conditionalRule.Keeps more text := by
  have word : (keyword "WHEN").Local := local_keyword (by decide)
  refine word.steady.keeps.bind fun _ behind _ scans => ?_
  refine .of_strays (strays_expression begins fun opened =>
    closed (scans.leavesTextOpen opened)).commit (fun _ middle _ scans' => ?_) ?_
  · refine (steady_word begins (by decide)).keeps.commit.expecting.bind fun _ rest _ scans'' => ?_
    refine .of_strays (strays_statementCalls begins fun opened => closed
      (((scans.trans scans').trans scans'').leavesTextOpen opened)) ?_ ?_
    · exact fun _ _ _ _ =>
        (keeps_endOfDefinition begins).bind fun _ _ _ _ => Local.pure.steady.keeps
    · exact fun _ _ abandoned => abandoned.not_reads
  · rintro condition rest ⟨letters, listed, behind', operator⟩ result rest' reads
    obtain ⟨_, middle, word', -⟩ := reads_bind_iff.1 reads
    have operators : ∀ letters ∈ ["OR", "AND"], letters ∈ words ∧ letters ≠ "THEN" := by decide
    obtain ⟨isWord, different⟩ := operators letters listed
    exact different (eq_of_words isWord (by decide) operator
      (reads_commit_iff.1 (reads_expecting_iff.1 word'))).1

/-- So is a rule without one. -/
theorem keeps_unconditionalRule (closed : LeavesTextOpen text → '"' ∉ more) :
    unconditionalRule.Keeps more text := by
  have word : (keyword "EXECUTE").Local := local_keyword (by decide)
  refine word.steady.keeps.bind fun _ behind _ scans => ?_
  refine .of_strays (strays_statementCalls begins fun opened =>
    closed (scans.leavesTextOpen opened)) ?_ ?_
  · exact fun _ _ _ _ => (keeps_endOfDefinition begins).bind fun _ _ _ _ => Local.pure.steady.keeps
  · exact fun _ _ abandoned => abandoned.not_reads

omit begins in
/-- Behind the end of its definition a result is not declined. -/
theorem not_declines_endOfDefinition {item : Definition} :
    ¬(do endOfDefinition; return item : Parser Definition).Declines text :=
  not_declines_bind (fun declines => not_declines_commit (declines_expecting_iff.1 declines))
    fun _ _ => not_declines_pure

omit begins in
/-- A feature is declined by its first word. -/
theorem declines_featureDefinition (declines : featureDefinition.Declines text) :
    (keyword "LET").Declines text := by
  refine (declines_bind_iff.1 declines).resolve_right ?_
  rintro ⟨_, rest, -, declines⟩
  refine absurd declines (not_declines_bind (fun declines =>
    not_declines_commit (declines_expecting_iff.1 declines)) fun _ _ => ?_)
  refine not_declines_bind (fun declines =>
    not_declines_commit (declines_expecting_iff.1 declines)) fun _ _ => ?_
  exact not_declines_bind not_declines_commit fun _ _ => not_declines_endOfDefinition

omit begins in
/-- So is a rule with a condition. -/
theorem declines_conditionalRule (declines : conditionalRule.Declines text) :
    (keyword "WHEN").Declines text := by
  refine (declines_bind_iff.1 declines).resolve_right ?_
  rintro ⟨_, rest, -, declines⟩
  refine absurd declines (not_declines_bind not_declines_commit fun _ _ => ?_)
  refine not_declines_bind (fun declines =>
    not_declines_commit (declines_expecting_iff.1 declines)) fun _ _ => ?_
  exact not_declines_bind not_declines_commit fun _ _ => not_declines_endOfDefinition

/-- **A definition is read in front of others.** -/
theorem keeps_definition (closed : LeavesTextOpen text → '"' ∉ more) :
    (do blanks; definition : Parser Definition).Keeps more text := by
  refine keeps_behind_blanks (fun start scans => ?_) fun rest atEnd => ?_
  · replace closed := fun opened => closed (scans.leavesTextOpen opened)
    have onLet : (keyword "LET").Local := local_keyword (by decide)
    have onWhen : (keyword "WHEN").Local := local_keyword (by decide)
    intro item rest reads
    rcases reads_orElse_iff.1 reads with reads | ⟨declines, reads⟩
    · exact (keeps_featureDefinition begins closed item rest reads).imp_right (Reads.orElse _)
    have notFeature : featureDefinition.Declines (start ++ '\n' :: more) :=
      (onLet.steady.declines (declines_featureDefinition declines)).bind _
    rcases reads_orElse_iff.1 reads with reads | ⟨declines, reads⟩
    · exact (keeps_conditionalRule begins closed item rest reads).imp_right
        fun reads' => notFeature.orElse (reads'.orElse _)
    have notConditional : conditionalRule.Declines (start ++ '\n' :: more) :=
      (onWhen.steady.declines (declines_conditionalRule declines)).bind _
    exact (keeps_unconditionalRule begins closed item rest reads).imp_right
      fun reads' => notFeature.orElse (notConditional.orElse reads')
  · have other : ∀ letters ∈ words, (keyword letters).Declines rest := fun letters listed =>
      declines_keyword_of_head listed fun c here => by rw [atEnd.head c here]; decide
    exact .orElse_declines ((other _ (by decide)).bind _) (.orElse_declines
      ((other _ (by decide)).bind _) ((other _ (by decide)).bind _))

end

/-! ## Programs -/

/-- Where a text ends the further lines go on. -/
theorem Skips.alike_of_nil (skips : Skips text []) : Alike more (text ++ '\n' :: more) := by
  obtain ⟨start, begin⟩ := exists_skips more
  rcases skips.append more with skips' | ⟨-, goesOn⟩
  · cases skips'.again with
    | stop token => exact absurd (token '\n' rfl) (by decide)
    | blank _ others => exact absurd others.suffix.length_le (Nat.not_succ_le_self _)
  · exact ⟨start, begin, goesOn start begin⟩

/-- Blanks in front of a program make no difference. -/
theorem Alike.readsAll {text' : List Char} {items : List Definition} (alike : Alike text text')
    (all : ReadsAll (do blanks; definition) text items rest) (ended : Skips rest []) :
    ∃ rest', ReadsAll (do blanks; definition) text' items rest' ∧ Skips rest' [] := by
  cases all with
  | none declines =>
    obtain ⟨start, skips, skips'⟩ := alike
    cases skips.unique ended
    exact ⟨text', .none (Alike.declines ⟨[], skips, skips'⟩ declines), skips'⟩
  | more first _ others =>
    have first' := alike.reads first
    exact ⟨rest, .more first' (advances_definition _ _ _ first') others, ended⟩

/-- **Programs are read behind one another.** -/
theorem exists_readsAll_append {items others : List Definition} {rest' : List Char}
    (first : ReadsAll (do blanks; definition) text items rest) (ended : Skips rest [])
    (second : ReadsAll (do blanks; definition) more others rest') (ended' : Skips rest' [])
    (begins : Headed more ∨ Skips more []) (closed : LeavesTextOpen text → '"' ∉ more) :
    ∃ rest'', ReadsAll (do blanks; definition) (text ++ '\n' :: more) (items ++ others) rest'' ∧
      Skips rest'' [] := by
  induction first with
  | none => exact ended.alike_of_nil.readsAll second ended'
  | @more text middle rest item items reads _ _ ih =>
    obtain ⟨scans, reads'⟩ := keeps_definition begins closed item middle reads
    obtain ⟨rest'', all, ended''⟩ := ih ended fun opened => closed (scans.leavesTextOpen opened)
    exact ⟨rest'', .more reads' (advances_definition _ _ _ reads') all, ended''⟩

/-- What is read as a program is read one definition after the other. -/
theorem exists_readsAll_of_program {definitions : Program}
    (reads : program.Reads text definitions []) :
    ∃ rest, ReadsAll (do blanks; definition) text definitions rest ∧ Skips rest [] := by
  obtain ⟨items, middle, row, later⟩ := reads_bind_iff.1 reads
  obtain ⟨_, rest, blank, last⟩ := reads_bind_iff.1 later
  obtain ⟨rfl, rfl⟩ := reads_pure_iff.1 last
  exact ⟨middle, row.readsAll advances_definition, reads_blanks_iff.1 blank⟩

end Source

/-- A text is a program if the whole of it is read as one. -/
theorem parse_eq_ok_iff {source : String} {definitions : Program} :
    parse source = .ok definitions ↔ Source.program.Reads source.toList definitions [] := by
  rw [parse, Source.parseChars, Parser.Reads]
  constructor
  · intro parsed
    split at parsed
    · rename_i read
      cases parsed
      exact read
    all_goals cases parsed
  · intro reads
    rw [reads]

open Source in
/-- **Programs on lines of their own make up a program of all their definitions**, if no quote that
the first text leaves open is followed by another one in the second. -/
theorem parse_append {first second : String} {definitions others : Program}
    (parsed : parse first = .ok definitions) (parsed' : parse second = .ok others)
    (closed : LeavesTextOpen first.toList → '"' ∉ second.toList) :
    parse (first ++ "\n" ++ second) = .ok (definitions ++ others) := by
  rw [parse_eq_ok_iff] at parsed parsed' ⊢
  obtain ⟨rest, all, ended⟩ := exists_readsAll_of_program parsed
  obtain ⟨rest', all', ended'⟩ := exists_readsAll_of_program parsed'
  obtain ⟨rest'', whole, ended''⟩ := exists_readsAll_append all ended all' ended'
    (headed_or_skips_of_program parsed') closed
  have text : (first ++ "\n" ++ second).toList = first.toList ++ '\n' :: second.toList := by
    rw [String.toList_append, String.toList_append, List.append_assoc]
    rfl
  rw [text]
  exact Parser.Reads.bind whole.many (Parser.Reads.bind ended''.reads .pure)

open Source in
/-- A call of raw text whose last operand is missing, in front of a rule. -/
theorem parse_append_of_missing :
    parse "LET X := f(a AND # b) ;" = .ok [.feature "X" (.custom "f" "a AND # b")] ∧
    parse "WHEN X THEN log(\"hi\");" =
      .ok [.rule (some (.feature "X")) [.call "log" [.const (.text "hi")]]] ∧
    parse ("LET X := f(a AND # b) ;" ++ "\n" ++ "WHEN X THEN log(\"hi\");") =
      .ok [.feature "X" (.custom "f" "a AND # b"),
        .rule (some (.feature "X")) [.call "log" [.const (.text "hi")]]] := by
  have first :
      parse "LET X := f(a AND # b) ;" = .ok [.feature "X" (.custom "f" "a AND # b")] := by
    decide +kernel
  have second : parse "WHEN X THEN log(\"hi\");" =
      .ok [.rule (some (.feature "X")) [.call "log" [.const (.text "hi")]]] := by
    decide +kernel
  exact ⟨first, second, parse_append first second fun opened => absurd opened.mem (by decide)⟩

/-- Of two quotes the first stands in a comment. So the second one begins a text where arguments are
read, and ends one where raw text is read. As no quote follows, the call is one of raw text; but a
quote of another program behind it ends the text of the arguments. -/
theorem parse_append_differs :
    parse "LET X := f(a # \"\n, \") ;" = .ok [.feature "X" (.custom "f" "a # \"\n, \"")] ∧
    parse "EXECUTE log(\"), log(\");" =
      .ok [.rule none [.call "log" [.const (.text "), log(")]]] ∧
    parse ("LET X := f(a # \"\n, \") ;" ++ "\n" ++ "EXECUTE log(\"), log(\");") =
      .error ⟨38, ["`;`"]⟩ := by
  decide +kernel

end RuleGraph
