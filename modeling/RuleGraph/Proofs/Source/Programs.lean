import RuleGraph.Proofs.Source.Expressions

/-! # Programs are read

The text that is written for a program is read as the program.

* **`Expr.layout_write`** — what is written for an expression is one of its texts.
* **`Definition.IsWritable`** — definitions of writable expressions.
* **`Source.reads_definition`** — what is written for a definition is read as the definition.
* **`parse_lines`** — definitions, one to a line, are read as a program of them.
-/

namespace RuleGraph

open RuleGraph.Parser Source

/-! ## Expressions as they are written -/

/-- Texts joined by commas are texts in a row. -/
theorem separated_commaSeparated {gap : List Char} (isGap : IsGap gap) (texts : List String) :
    Expr.Separated (texts.map String.toList) (gap ++ (commaSeparated texts).toList) := by
  induction texts generalizing gap with
  | nil =>
    rw [commaSeparated, String.intercalate_nil, String.toList_empty, List.append_nil]
    exact .none isGap
  | cons text rest ih =>
    cases rest with
    | nil =>
      have single : (commaSeparated [text]).toList = text.toList ++ [] := by
        rw [commaSeparated, String.intercalate_singleton, List.append_nil]
      rw [single]
      exact .last isGap .nil
    | cons next others =>
      have several : (commaSeparated (text :: next :: others)).toList =
          text.toList ++ ([] ++ ',' :: ([' '] ++ (commaSeparated (next :: others)).toList)) := by
        rw [commaSeparated, String.intercalate_cons_cons, String.toList_append,
          String.toList_append, List.append_assoc]
        rfl
      rw [several]
      exact .more isGap .nil (ih isGap_space)

namespace Expr

/-- Several expressions are written one by one. -/
theorem writeAll_eq_map (bodies : List Expr) : writeAll bodies = bodies.map write := by
  induction bodies with
  | nil => rfl
  | cons body rest ih => rw [writeAll, List.map_cons, ih]

/-- Several expressions are written as texts of theirs if each of them is. -/
theorem forall₂_layout_write {bodies : List Expr}
    (each : ∀ body ∈ bodies, body.Layout body.write.toList) :
    List.Forall₂ Layout bodies ((writeAll bodies).map String.toList) := by
  rw [writeAll_eq_map, List.map_map, List.forall₂_map_right_iff, List.forall₂_same]
  exact each

/-- **What is written for an expression is one of its texts.** -/
theorem layout_write {body : Expr} (readable : body.IsReadable) :
    body.Layout body.write.toList := by
  induction body with
  | const value => exact .const value
  | feature name => exact .feature name
  | list items ih =>
    cases readable with
    | list all =>
      have separated := separated_commaSeparated .nil (writeAll items)
      have text : (write (.list items)).toList =
          '[' :: ([] ++ (commaSeparated (writeAll items)).toList ++ [']']) := by
        rw [write, String.toList_append, String.toList_append, List.nil_append]
        rfl
      rw [text]
      exact .list (forall₂_layout_write fun item member => ih item member (all item member))
        separated
  | call function args ih =>
    cases readable with
    | call proper all =>
      have separated := separated_commaSeparated .nil (writeAll args)
      have text : (write (.call function args)).toList = function.toList ++ ([] ++
          '(' :: ([] ++ (commaSeparated (writeAll args)).toList ++ [')'])) := by
        rw [write, String.toList_append, String.toList_append, String.toList_append,
          List.append_assoc, List.append_assoc, List.nil_append]
        rfl
      rw [text]
      exact .call .nil (forall₂_layout_write fun arg member => ih arg member (all arg member))
        separated
  | custom => cases readable

end Expr

/-- Definitions of writable expressions. A rule has a statement. -/
inductive Definition.IsWritable : Definition → Prop where
  /-- A feature. -/
  | feature {name : String} {body : Expr} (named : IsIdentifier name)
    (writable : body.IsWritable) : IsWritable (.feature name body)
  /-- A rule. -/
  | rule {condition : Option Expr} {calls : List Expr}
    (holds : ∀ body ∈ condition, body.IsWritable) (nonempty : calls ≠ [])
    (each : ∀ call ∈ calls, call.IsWritable) : IsWritable (.rule condition calls)

/-- Definitions of readable expressions. A rule has a statement. -/
inductive Definition.IsReadable : Definition → Prop where
  /-- A feature. -/
  | feature {name : String} {body : Expr} (named : IsIdentifier name)
    (readable : body.IsReadable) : IsReadable (.feature name body)
  /-- A rule. -/
  | rule {condition : Option Expr} {calls : List Expr}
    (holds : ∀ body ∈ condition, body.IsReadable) (nonempty : calls ≠ [])
    (each : ∀ call ∈ calls, call.IsReadable) : IsReadable (.rule condition calls)

/-- Writable definitions are readable. -/
theorem Definition.IsWritable.isReadable {item : Definition} (writable : item.IsWritable) :
    item.IsReadable := by
  cases writable with
  | feature named writable => exact .feature named writable.isReadable
  | rule holds nonempty each =>
    exact .rule (fun body isBody => (holds body isBody).isReadable) nonempty
      fun call member => (each call member).isReadable

namespace Source

variable {gap rest : List Char}

/-! ## Definitions -/

/-- A definition ends with a semicolon. -/
theorem reads_endOfDefinition (isGap : IsGap gap) :
    endOfDefinition.Reads (gap ++ ';' :: rest) () rest := by
  have last : (symbol ";").Reads (gap ++ ';' :: rest) () rest :=
    reads_symbol ";" isGap (by rintro c ⟨⟩; decide)
  exact last.commit.expecting _

/-- A word of the language is read in front of a space. -/
theorem reads_keyword_space (letters : String) :
    (keyword letters).Reads (letters.toList ++ ' ' :: rest) () (' ' :: rest) :=
  reads_keyword rfl (by rintro c ⟨⟩; decide)

/-- A definition that begins with another word is declined. -/
theorem declines_keyword_space {letters word : String}
    (isWord : ∀ c ∈ letters.toList, c.isAlpha = true)
    (other : wordOf word.toList ≠ letters.toList.map Char.toLower) :
    (keyword letters).Declines (word.toList ++ ' ' :: rest) :=
  declines_keyword isWord (by rwa [wordOf_append (by rintro c ⟨⟩; decide)])

/-- What is written for an expression is read in front of a semicolon. -/
theorem reads_written {body : Expr} (readable : body.IsReadable) :
    expression.Reads (' ' :: (body.write.toList ++ ';' :: rest)) body (';' :: rest) := by
  have stops : Stops (';' :: rest) := stops_delimiter .nil (by decide)
  exact reads_expression (Expr.layout_write readable) readable [' '] _ isGap_space stops

/-- What is written for several expressions is read as statements. -/
theorem reads_statementCalls {calls : List Expr} (nonempty : calls ≠ [])
    (each : ∀ call ∈ calls, call.IsReadable) :
    ∃ gap, IsGap gap ∧ statementCalls.Reads
      (' ' :: ((commaSeparated (Expr.writeAll calls)).toList ++ ';' :: rest)) calls
      (gap ++ ';' :: rest) := by
  obtain ⟨call, others, rfl⟩ := List.exists_cons_of_ne_nil nonempty
  have layouts := Expr.forall₂_layout_write fun call member => Expr.layout_write (each call member)
  have reads := forall₂_of_layouts layouts fun call member text _ layout =>
    reads_expression layout (each call member)
  have separated := separated_commaSeparated isGap_space (Expr.writeAll (call :: others))
  obtain ⟨middle, gap, isGap, -, first, all⟩ :=
    readsAll_separated separated reads (show ';' ∈ [';', ')', ']'] by decide)
  exact ⟨gap, isGap, Reads.expecting _ (Reads.bind first (Reads.bind all.many .pure))⟩

/-- The definition of a feature is read if what stands behind the sign is read as an expression, up
to the semicolon. -/
theorem reads_featureDefinition {name : String} {body : Expr} {text : List Char}
    (named : IsIdentifier name) (isGap : IsGap gap)
    (reads : expression.Reads (' ' :: text) body (gap ++ ';' :: rest)) :
    featureDefinition.Reads ("LET".toList ++ ' ' :: (name.toList ++ ' ' :: (":=".toList ++
      ' ' :: text))) (.feature name body) rest := by
  have onName : (do blanks; identifier : Parser String).Reads (' ' :: (name.toList ++ ' ' ::
      (":=".toList ++ ' ' :: text))) name (' ' :: (":=".toList ++ ' ' :: text)) :=
    Reads.bind (reads_blanks isGap_space (startsToken_of_isIdentifier named))
      (reads_identifier named (by rintro c ⟨⟩; decide))
  have sign : (symbol ":=").Reads (' ' :: (":=".toList ++ ' ' :: text)) () (' ' :: text) :=
    reads_symbol ":=" isGap_space (by rintro c ⟨⟩; decide)
  exact Reads.bind (reads_keyword_space "LET") (Reads.bind (onName.commit.expecting _)
    (Reads.bind (sign.commit.expecting _) (Reads.bind reads.commit
      (Reads.bind (reads_endOfDefinition isGap) .pure))))

/-- An expression ends in front of `THEN`. -/
theorem stops_then : Stops (' ' :: ("THEN".toList ++ ' ' :: rest)) := by
  have word : wordOf ("THEN".toList ++ ' ' :: rest) = ['t', 'h', 'e', 'n'] := by
    rw [wordOf_append (by rintro c ⟨⟩; decide)]
    decide
  refine ⟨by rintro c ⟨⟩; decide, [' '], "THEN".toList ++ ' ' :: rest, rfl, isGap_space,
    by rintro c ⟨⟩; decide, by rintro c ⟨⟩; decide, ?_, ?_⟩
  · rw [word]
    decide
  · rw [word]
    decide

/-- Statements under a condition are read. -/
theorem reads_conditionalRule {condition : Expr} {calls : List Expr}
    (readable : condition.IsReadable) (nonempty : calls ≠ [])
    (each : ∀ call ∈ calls, call.IsReadable) :
    conditionalRule.Reads ("WHEN".toList ++ ' ' :: (condition.write.toList ++ ' ' ::
      ("THEN".toList ++ ' ' :: ((commaSeparated (Expr.writeAll calls)).toList ++ ';' :: rest))))
      (.rule (some condition) calls) rest := by
  obtain ⟨gap, isGap, reads⟩ := @reads_statementCalls rest calls nonempty each
  have first := reads_expression (Expr.layout_write readable) readable [' '] _ isGap_space
    (@stops_then ((commaSeparated (Expr.writeAll calls)).toList ++ ';' :: rest))
  have next : (do blanks; keyword "THEN" : Parser Unit).Reads (' ' :: ("THEN".toList ++
      ' ' :: ((commaSeparated (Expr.writeAll calls)).toList ++ ';' :: rest))) ()
      (' ' :: ((commaSeparated (Expr.writeAll calls)).toList ++ ';' :: rest)) :=
    Reads.bind (reads_blanks isGap_space (by rintro c ⟨⟩; decide)) (reads_keyword_space "THEN")
  exact Reads.bind (reads_keyword_space "WHEN") (Reads.bind first.commit
    (Reads.bind (next.commit.expecting _) (Reads.bind reads.commit
      (Reads.bind (reads_endOfDefinition isGap) .pure))))

/-- Statements without a condition are read. -/
theorem reads_unconditionalRule {calls : List Expr} (nonempty : calls ≠ [])
    (each : ∀ call ∈ calls, call.IsReadable) :
    unconditionalRule.Reads ("EXECUTE".toList ++ ' ' ::
      ((commaSeparated (Expr.writeAll calls)).toList ++ ';' :: rest)) (.rule none calls) rest := by
  obtain ⟨gap, isGap, reads⟩ := @reads_statementCalls rest calls nonempty each
  exact Reads.bind (reads_keyword_space "EXECUTE") (Reads.bind reads.commit
    (Reads.bind (reads_endOfDefinition isGap) .pure))

/-- **What is written for a definition is read as the definition.** -/
theorem reads_definition {item : Definition} (readable : item.IsReadable) :
    definition.Reads (item.write.toList ++ rest) item rest := by
  have notFeature : ∀ {word : String} {tail : List Char}, wordOf word.toList ≠ ['l', 'e', 't'] →
      featureDefinition.Declines (word.toList ++ ' ' :: tail) :=
    fun other => Declines.bind _ (declines_keyword_space (by decide) other)
  cases readable with
  | @feature name body named readable =>
    have text : (Definition.feature name body).write.toList ++ rest = "LET".toList ++ ' ' ::
        (name.toList ++ ' ' :: (":=".toList ++ ' ' :: (body.write.toList ++ ';' :: rest))) := by
      simp [Definition.write]
    rw [text]
    exact Reads.orElse _ (reads_featureDefinition named .nil (reads_written readable))
  | @rule condition calls holds nonempty each =>
    cases condition with
    | none =>
      have text : (Definition.rule none calls).write.toList ++ rest = "EXECUTE".toList ++
          ' ' :: ((commaSeparated (Expr.writeAll calls)).toList ++ ';' :: rest) := by
        simp [Definition.write]
      have notRule : conditionalRule.Declines ("EXECUTE".toList ++
          ' ' :: ((commaSeparated (Expr.writeAll calls)).toList ++ ';' :: rest)) :=
        Declines.bind _ (declines_keyword_space (by decide) (by decide))
      rw [text]
      exact (notFeature (by decide)).orElse (notRule.orElse (reads_unconditionalRule nonempty each))
    | some condition =>
      have text : (Definition.rule (some condition) calls).write.toList ++ rest = "WHEN".toList ++
          ' ' :: (condition.write.toList ++ ' ' :: ("THEN".toList ++
            ' ' :: ((commaSeparated (Expr.writeAll calls)).toList ++ ';' :: rest))) := by
        simp [Definition.write]
      have conditional := @reads_conditionalRule rest _ _ (holds condition rfl) nonempty each
      rw [text]
      exact (notFeature (by decide)).orElse (Reads.orElse _ conditional)

/-! ## Programs -/

/-- No definition begins at the end of a text. -/
theorem declines_definition_nil : definition.Declines [] := by
  refine Declines.orElse_declines ?_ (Declines.orElse_declines ?_ ?_)
  · exact Declines.bind _ (declines_keyword (by decide) (by decide))
  · exact Declines.bind _ (declines_keyword (by decide) (by decide))
  · exact Declines.bind _ (declines_keyword (by decide) (by decide))

/-- What is written for a definition begins with a word. -/
theorem exists_write_eq (item : Definition) :
    ∃ c others, item.write.toList = c :: others ∧ c ∈ ['L', 'W', 'E'] := by
  unfold Definition.write
  split
  · exact ⟨'L', _, by simp only [String.toList_append]; rfl, by decide⟩
  · exact ⟨'W', _, by simp only [String.toList_append]; rfl, by decide⟩
  · exact ⟨'E', _, by simp only [String.toList_append]; rfl, by decide⟩

/-- Texts made of what is written for definitions, with blanks and comments around them. -/
inductive Written : Program → List Char → Prop where
  /-- Behind the last definition. -/
  | none {gap : List Char} (isGap : IsGap gap) : Written [] gap
  /-- A definition and the others. -/
  | more {gap text : List Char} {item : Definition} {program : Program} (isGap : IsGap gap)
    (others : Written program text) : Written (item :: program) (gap ++ (item.write.toList ++ text))

variable {text : List Char} {program : Program}

/-- Definitions, one to a line, make up such a text. -/
theorem written_lines (program : Program) (isGap : IsGap gap) : Written program
    (gap ++ (String.join (program.map fun item => item.write ++ "\n")).toList) := by
  induction program generalizing gap with
  | nil =>
    rw [List.map_nil, String.join_nil, String.toList_empty, List.append_nil]
    exact .none isGap
  | cons item rest ih =>
    rw [List.map_cons, String.join_cons, String.toList_append, String.toList_append,
      List.append_assoc]
    exact .more isGap (ih isGap_lineFeed)

/-- So does what is written for a program. -/
theorem written_write (program : Program) (isGap : IsGap gap) :
    Written program (gap ++ program.write.toList) := by
  unfold Program.write
  induction program generalizing gap with
  | nil =>
    rw [List.map_nil, String.intercalate_nil, String.toList_empty, List.append_nil]
    exact .none isGap
  | cons item rest ih =>
    cases rest with
    | nil =>
      rw [List.map_singleton, String.intercalate_singleton, ← List.append_nil item.write.toList]
      exact .more isGap (.none .nil)
    | cons next others =>
      rw [List.map_cons, List.map_cons, String.intercalate_cons_cons, ← List.map_cons,
        String.toList_append, String.toList_append, List.append_assoc]
      exact .more isGap (ih isGap_lineFeed)

/-- Definitions are read one by one. -/
theorem Written.readsAll (written : Written program text)
    (readable : ∀ item ∈ program, item.IsReadable) :
    ∃ gap, IsGap gap ∧ ReadsAll (do blanks; definition) text program gap := by
  induction written with
  | @none gap isGap =>
    exact ⟨gap, isGap, .none ((reads_blanks_end isGap).bind_declines declines_definition_nil)⟩
  | @more gap text item rest isGap _ ih =>
    obtain ⟨onItem, onRest⟩ := List.forall_mem_cons.1 readable
    obtain ⟨gap', isGap', all⟩ := ih onRest
    obtain ⟨c, others, begins, listed⟩ := exists_write_eq item
    have starts : StartsToken (item.write.toList ++ text) := by
      have letters : ∀ d ∈ ['L', 'W', 'E'], Text.isBlank d = false ∧ d ≠ '#' := by decide
      rw [begins]
      rintro d ⟨⟩
      exact letters c listed
    refine ⟨gap', isGap', .more (Reads.bind (reads_blanks isGap starts)
      (reads_definition onItem)) ?_ all⟩
    rw [begins]
    simp only [List.length_append, List.length_cons]
    omega

/-- Texts made of what is written for definitions are read as a program of them. -/
theorem Written.parseChars (written : Written program text)
    (readable : ∀ item ∈ program, item.IsReadable) : parseChars text = .ok program := by
  obtain ⟨gap, isGap, all⟩ := written.readsAll readable
  have reads : Source.program.Reads text program [] :=
    Reads.bind all.many (Reads.bind (reads_blanks_end isGap) .pure)
  rw [Source.parseChars, reads]

end Source

variable {program : Program} (readable : ∀ item ∈ program, item.IsReadable)
include readable

/-- **Definitions, one to a line, are read as a program of them.** -/
theorem parse_lines :
    parse (String.join (program.map fun item => item.write ++ "\n")) = .ok program :=
  (written_lines program .nil).parseChars readable

/-- **What is written for a program is read as the program.** -/
theorem parse_write : parse program.write = .ok program :=
  (written_write program .nil).parseChars readable

end RuleGraph
