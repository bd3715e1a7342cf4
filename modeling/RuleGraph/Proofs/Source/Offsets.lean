import RuleGraph.Proofs.Source.Adrift

/-! # Where parsing stops

Whether it reads or fails, a parser leaves an end of its text. So a text that is no program can be
cut where parsing stopped, and that is not in front of the end of a definition which was read.

* **`Parser.LeavesEnd`** — a parser leaves an end of every text.
* **`Parser.ReadsInTurn`** — values that are read one behind the other, whatever comes then.
* **`Source.leavesEnd_expression`**, **`Source.leavesEnd_definition`** — the parsers of source.
* **`parse_error_inside`** — the offset of a parse error.
-/

namespace RuleGraph

namespace Parser

variable {α β : Type} {parser other : Parser α} {text rest : List Char} {values : List α}

/-- Whether it reads or fails, a parser leaves an end of the text. -/
def LeavesEnd (parser : Parser α) : Prop :=
  ∀ text, (parser text).2 <:+ text

namespace LeavesEnd

/-- A known value. -/
theorem pure {value : α} : LeavesEnd (Pure.pure value : Parser α) :=
  fun _ => List.suffix_rfl

/-- No value at all. -/
theorem fail {failure : Failure} : LeavesEnd (fail failure : Parser α) :=
  fun _ => List.suffix_rfl

/-- What a sequence leaves is an end of what its first part leaves. -/
theorem suffix_bind {next : α → Parser β} (second : ∀ value, (next value).LeavesEnd)
    (text : List Char) : ((parser >>= next) text).2 <:+ (parser text).2 := by
  show (Parser.bind parser next text).2 <:+ (parser text).2
  rw [Parser.bind]
  rcases parser text with ⟨_ | value, rest⟩
  · exact List.suffix_rfl
  · exact second value rest

/-- First one thing and then another. -/
theorem bind {next : α → Parser β} (first : parser.LeavesEnd)
    (second : ∀ value, (next value).LeavesEnd) : LeavesEnd (parser >>= next) :=
  fun text => (suffix_bind second text).trans (first text)

/-- Alternatives. -/
theorem orElse (first : parser.LeavesEnd) (second : other.LeavesEnd) :
    (Parser.orElse parser other).LeavesEnd := by
  intro text
  have isEnd := first text
  have isEnd' := second text
  rw [Parser.orElse]
  generalize parser text = reply at isEnd ⊢
  generalize other text = reply' at isEnd' ⊢
  rcases reply with ⟨⟨_ | _, _⟩ | _, _⟩
  · rcases reply' with ⟨⟨_ | _, _⟩ | _, _⟩
    · exact List.suffix_rfl
    · exact isEnd'
    · exact isEnd'
  · exact isEnd
  · exact isEnd

/-- What may be there. -/
theorem optional (leaves : parser.LeavesEnd) : (Parser.optional parser).LeavesEnd := by
  intro text
  have isEnd := leaves text
  rw [Parser.optional]
  generalize parser text = reply at isEnd ⊢
  rcases reply with ⟨⟨_ | _, _⟩ | _, _⟩
  · exact List.suffix_rfl
  · exact isEnd
  · exact isEnd

/-- What may not follow. -/
theorem notFollowedBy : (Parser.notFollowedBy parser).LeavesEnd := by
  intro text
  rw [Parser.notFollowedBy]
  rcases parser text with ⟨⟨_ | _, _⟩ | _, _⟩ <;> exact List.suffix_rfl

/-- With a description of what was expected. -/
theorem expecting {what : String} (leaves : parser.LeavesEnd) :
    (Parser.expecting what parser).LeavesEnd := by
  intro text
  have isEnd := leaves text
  rw [Parser.expecting]
  generalize parser text = reply at isEnd ⊢
  rcases reply with ⟨_ | _, _⟩ <;> exact isEnd

/-- With commitment. -/
theorem commit (leaves : parser.LeavesEnd) : (Parser.commit parser).LeavesEnd := by
  intro text
  have isEnd := leaves text
  rw [Parser.commit]
  generalize parser text = reply at isEnd ⊢
  rcases reply with ⟨_ | _, _⟩ <;> exact isEnd

/-- Values in a row, at most so many. -/
theorem manyUpTo (leaves : parser.LeavesEnd) (rounds : Nat) :
    (Parser.manyUpTo parser rounds).LeavesEnd := by
  intro text
  induction rounds generalizing text with
  | zero => exact List.suffix_rfl
  | succ rounds ih =>
    have isEnd := leaves text
    simp only [Parser.manyUpTo]
    generalize parser text = reply at isEnd ⊢
    rcases reply with ⟨⟨_ | _, _⟩ | _, rest⟩
    · exact List.suffix_rfl
    · exact isEnd
    · have isEnd' := ih rest
      dsimp only at isEnd ⊢
      generalize Parser.manyUpTo parser rounds rest = reply at isEnd' ⊢
      rcases reply with ⟨_ | _, _⟩ <;> exact isEnd'.trans isEnd

/-- Values in a row. -/
theorem many (leaves : parser.LeavesEnd) : (Parser.many parser).LeavesEnd :=
  fun text => leaves.manyUpTo _ text

/-- Values behind separators. -/
theorem further {separator : Parser Unit} (between : separator.LeavesEnd)
    (leaves : parser.LeavesEnd) : (Parser.further separator parser).LeavesEnd :=
  many (between.bind fun _ => leaves)

/-- At least one value, separated. -/
theorem separated1 {separator : Parser Unit} (between : separator.LeavesEnd)
    (leaves : parser.LeavesEnd) : (Parser.separated1 separator parser).LeavesEnd :=
  leaves.bind fun _ => (further between leaves).bind fun _ => .pure

/-- Any number of values, separated. -/
theorem separated {separator : Parser Unit} (between : separator.LeavesEnd)
    (leaves : parser.LeavesEnd) : (Parser.separated separator parser).LeavesEnd := by
  refine leaves.optional.bind fun result => ?_
  cases result with
  | none => exact .pure
  | some first => exact (further between leaves).bind fun _ => .pure

/-- A character that satisfies a test. -/
theorem satisfy {test : Char → Bool} : (Parser.satisfy test).LeavesEnd := by
  intro text
  cases text with
  | nil => exact List.suffix_rfl
  | cons c rest =>
    rw [Parser.satisfy]
    split
    · exact List.suffix_cons c rest
    · exact List.suffix_rfl

/-- Characters that satisfy a test. -/
theorem run {test : Char → Bool} : (Parser.run test).LeavesEnd :=
  fun _ => List.dropWhile_suffix _

/-- Characters that satisfy a test, at least one. -/
theorem run1 {test : Char → Bool} : (Parser.run1 test).LeavesEnd := by
  intro text
  rw [Parser.run1]
  split
  · exact List.suffix_rfl
  · exact List.dropWhile_suffix _

/-- Given characters. -/
theorem literalBy {agree : Char → Char → Bool} {letters : List Char} :
    (Parser.literalBy agree letters).LeavesEnd := by
  intro text
  rw [Parser.literalBy]
  split
  · exact List.drop_suffix _ _
  · exact List.suffix_rfl

end LeavesEnd

/-- A parser reads values off the front of a text, one behind the other. Whether it can go on is
left open. -/
inductive ReadsInTurn (parser : Parser α) : List Char → List α → List Char → Prop where
  /-- Nothing is read yet. -/
  | none {text : List Char} : ReadsInTurn parser text [] text
  /-- A value is read, and then others. -/
  | more {text middle rest : List Char} {value : α} {values : List α}
    (first : parser.Reads text value middle) (others : ReadsInTurn parser middle values rest) :
    ReadsInTurn parser text (value :: values) rest

/-- **What is left behind values in a row**, or where reading them comes to fail, is not in front of
any value that is read. -/
theorem ReadsInTurn.suffix_manyUpTo (row : ReadsInTurn parser text values rest)
    (leaves : parser.LeavesEnd) (advances : parser.Advances) {rounds : Nat}
    (enough : text.length < rounds) : (manyUpTo parser rounds text).2 <:+ rest := by
  induction row generalizing rounds with
  | none => exact leaves.manyUpTo rounds _
  | @more text middle rest value values first _ ih =>
    obtain ⟨less, rfl⟩ : ∃ less, rounds = less + 1 := ⟨rounds - 1, by omega⟩
    have shorter := advances text value middle first
    have later := ih (show middle.length < less by omega)
    rw [Reads] at first
    simp only [manyUpTo, first]
    generalize manyUpTo parser less middle = reply at later ⊢
    rcases reply with ⟨_ | _, _⟩ <;> exact later

end Parser

namespace Source

open RuleGraph.Parser

/-! ## Tokens -/

/-- Blanks and comments. -/
theorem leavesEnd_blanks : blanks.LeavesEnd := by
  have line : comment.LeavesEnd := by
    intro text
    unfold comment
    split
    · rename_i rest
      split
      · rename_i found
        exact (suffix_of_endOfLine? found).trans (List.suffix_cons _ _)
      · exact List.suffix_cons _ _
    · exact List.suffix_rfl
  exact (LeavesEnd.orElse (.bind .run1 fun _ => .pure) line).many.bind fun _ => .pure

/-- A name. -/
theorem leavesEnd_identifier : identifier.LeavesEnd :=
  LeavesEnd.satisfy.bind fun _ => LeavesEnd.run.bind fun _ => .pure

/-- A word of the language. -/
theorem leavesEnd_keyword (letters : String) : (keyword letters).LeavesEnd :=
  LeavesEnd.literalBy.bind fun _ => .notFollowedBy

/-- A word between blanks. -/
theorem leavesEnd_word (letters : String) :
    (do blanks; keyword letters : Parser Unit).LeavesEnd :=
  leavesEnd_blanks.bind fun _ => leavesEnd_keyword letters

/-- A token. -/
theorem leavesEnd_symbol (letters : String) : (symbol letters).LeavesEnd :=
  leavesEnd_blanks.bind fun _ => .literalBy

/-- A character by its code point. -/
theorem leavesEnd_codePoint : codePoint.LeavesEnd := by
  refine .expecting (LeavesEnd.satisfy.bind fun _ => LeavesEnd.run1.bind fun digits => ?_)
  have decoded : ∀ n : Nat, LeavesEnd (if n < 0xd800 || (0xdfff < n && n < 0x110000)
      then return Char.ofNat n else fail .tentative : Parser Char) := by
    intro n
    split
    · exact .pure
    · exact .fail
  dsimp only
  split
  · exact LeavesEnd.satisfy.bind fun _ => decoded _
  · exact LeavesEnd.fail.bind fun _ => decoded _

/-- An escaped character. -/
theorem leavesEnd_escape : escape.LeavesEnd := by
  refine LeavesEnd.satisfy.bind fun c => ?_
  split_ifs
  any_goals exact .pure
  exact leavesEnd_codePoint

/-- A text. -/
theorem leavesEnd_textLiteral : textLiteral.LeavesEnd := by
  have body : ∀ steps, (textBody steps).LeavesEnd := by
    intro steps
    induction steps with
    | zero => exact .fail
    | succ steps ih =>
      refine LeavesEnd.satisfy.bind fun c => ?_
      split_ifs
      · exact .pure
      · exact leavesEnd_escape.bind fun _ => ih.bind fun _ => .pure
      · exact ih.bind fun _ => .pure
  have counted : remaining.LeavesEnd := fun _ => List.suffix_rfl
  exact LeavesEnd.satisfy.bind fun _ => counted.bind fun _ => (body _).bind fun _ => .pure

/-- A number. -/
theorem leavesEnd_number : number.LeavesEnd := by
  have exponent : exponentPart.LeavesEnd :=
    LeavesEnd.satisfy.bind fun _ => LeavesEnd.satisfy.optional.bind fun _ =>
      LeavesEnd.run1.bind fun _ => .pure
  have fraction : fractionPart.LeavesEnd :=
    .orElse (LeavesEnd.satisfy.bind fun _ => LeavesEnd.run1.bind fun _ =>
      exponent.optional.bind fun _ => .pure) exponent
  refine .orElse (.bind ?_ fun _ => .pure) (.bind ?_ fun _ => .pure)
  · refine LeavesEnd.satisfy.optional.bind fun _ => LeavesEnd.run1.bind fun _ =>
      fraction.bind fun _ => ?_
    split
    · exact .pure
    · exact .fail
  · refine .bind (.orElse ?_ (LeavesEnd.satisfy.bind fun _ => .pure)) fun value => ?_
    · exact LeavesEnd.satisfy.optional.bind fun _ => LeavesEnd.satisfy.bind fun _ =>
        LeavesEnd.run.bind fun _ => .pure
    · split
      · exact .pure
      · exact .fail

/-- The raw text of a call. -/
theorem leavesEnd_rawArguments : rawArguments.LeavesEnd := by
  intro text
  unfold rawArguments
  split
  · rename_i found
    exact suffix_of_splitCall? found
  · exact List.suffix_rfl

/-! ## Expressions -/

section

variable {expr : Parser Expr} (leaves : expr.LeavesEnd)
include leaves

/-- A call, a feature or a literal word. -/
theorem leavesEnd_callOrFeature : (callOrFeature expr).LeavesEnd := by
  have row : (arguments expr).LeavesEnd :=
    (LeavesEnd.separated (leavesEnd_symbol ",") leaves).bind fun _ =>
      (leavesEnd_symbol ")").bind fun _ => .pure
  refine leavesEnd_identifier.bind fun name => (leavesEnd_symbol "(").optional.bind fun result => ?_
  cases result with
  | none => exact .pure
  | some _ => exact .orElse (row.bind fun _ => .pure) (leavesEnd_rawArguments.bind fun _ => .pure)

/-- A primary expression. -/
theorem leavesEnd_primary : (primary expr).LeavesEnd := by
  have parentheses : (parenthesised expr).LeavesEnd :=
    LeavesEnd.satisfy.bind fun _ => leaves.bind fun _ => (leavesEnd_symbol ")").bind fun _ => .pure
  have brackets : (listLiteral expr).LeavesEnd :=
    LeavesEnd.satisfy.bind fun _ => (LeavesEnd.separated (leavesEnd_symbol ",") leaves).bind
      fun _ => leavesEnd_blanks.bind fun _ => LeavesEnd.satisfy.optional.bind fun _ =>
        (leavesEnd_symbol "]").bind fun _ => .pure
  exact leavesEnd_blanks.bind fun _ => .expecting (.orElse parentheses
    (.orElse (leavesEnd_textLiteral.bind fun _ => .pure)
      (.orElse (leavesEnd_number.bind fun _ => .pure)
        (.orElse brackets (leavesEnd_callOrFeature leaves)))))

/-- A comparison. -/
theorem leavesEnd_equality : (equality expr).LeavesEnd := by
  have sign : equalitySign.LeavesEnd :=
    .optional (leavesEnd_blanks.bind fun _ => .orElse (LeavesEnd.literalBy.bind fun _ => .pure)
      (LeavesEnd.literalBy.bind fun _ => .pure))
  refine (leavesEnd_primary leaves).bind fun left => sign.bind fun negated => ?_
  cases negated with
  | none => exact .pure
  | some negated => exact (leavesEnd_primary leaves).bind fun _ => .pure

/-- Operands of an operator. -/
theorem leavesEnd_leftAssociative (word function : String) :
    (leftAssociative word function expr).LeavesEnd :=
  leaves.bind fun _ => (LeavesEnd.further (leavesEnd_word word) leaves).bind fun _ => .pure

/-- An expression over others. -/
theorem leavesEnd_expressionOver : (expressionOver expr).LeavesEnd := by
  have negated : (unary expr).LeavesEnd :=
    (leavesEnd_word "NOT").many.bind fun _ => (leavesEnd_equality leaves).bind fun _ => .pure
  exact leavesEnd_blanks.bind fun _ =>
    leavesEnd_leftAssociative (leavesEnd_leftAssociative negated "AND" "and") "OR" "or"

end

/-- An expression. -/
theorem leavesEnd_expression : expression.LeavesEnd := by
  have within : ∀ depth, (expressionWithin depth).LeavesEnd := by
    intro depth
    induction depth with
    | zero => exact .fail
    | succ depth ih => exact leavesEnd_expressionOver ih
  exact fun text => within _ text

/-! ## Programs -/

/-- A definition. -/
theorem leavesEnd_definition : definition.LeavesEnd := by
  have last : endOfDefinition.LeavesEnd := (leavesEnd_symbol ";").commit.expecting
  have calls : statementCalls.commit.LeavesEnd :=
    (LeavesEnd.separated1 (leavesEnd_symbol ",") leavesEnd_expression).expecting.commit
  refine .orElse ?_ (.orElse ?_ ?_)
  · exact (leavesEnd_keyword _).bind fun _ =>
      (leavesEnd_blanks.bind fun _ => leavesEnd_identifier).commit.expecting.bind fun _ =>
        (leavesEnd_symbol _).commit.expecting.bind fun _ => leavesEnd_expression.commit.bind
          fun _ => last.bind fun _ => .pure
  · exact (leavesEnd_keyword _).bind fun _ => leavesEnd_expression.commit.bind fun _ =>
      (leavesEnd_word _).commit.expecting.bind fun _ => calls.bind fun _ =>
        last.bind fun _ => .pure
  · exact (leavesEnd_keyword _).bind fun _ => calls.bind fun _ => last.bind fun _ => .pure

/-- **What is left of a program**, or where reading it comes to fail, is not in front of the end of
a definition that is read. -/
theorem suffix_program {text rest : List Char} {definitions : List Definition}
    (row : ReadsInTurn (do blanks; definition) text definitions rest) :
    (program text).2 <:+ rest := by
  have leaves : (do blanks; definition : Parser Definition).LeavesEnd :=
    leavesEnd_blanks.bind fun _ => leavesEnd_definition
  have later := row.suffix_manyUpTo leaves advances_definition (Nat.lt_succ_self _)
  exact (LeavesEnd.suffix_bind (fun _ => leavesEnd_blanks.bind fun _ => .pure) text).trans later

/-! ## Bytes -/

/-- The bytes of two texts behind one another. -/
theorem byteLength_append (front rest : List Char) :
    byteLength (front ++ rest) = byteLength front + byteLength rest := by
  induction front with
  | nil => simp [byteLength]
  | cons c front ih =>
    simp only [byteLength, List.cons_append, List.foldr_cons] at ih ⊢
    omega

/-- The bytes of a text are those of the string. -/
theorem byteLength_eq (text : List Char) : byteLength text = (String.ofList text).utf8ByteSize := by
  induction text with
  | nil => rfl
  | cons c text ih =>
    have split : String.ofList (c :: text) = String.singleton c ++ String.ofList text := by
      rw [String.singleton_eq_ofList, ← String.ofList_append, List.singleton_append]
    rw [split, String.utf8ByteSize_append, ← ih]
    simp [byteLength]

/-- Between two parts of a text there is a boundary between characters. -/
theorem isValid_byteLength (front rest : List Char) :
    (⟨byteLength front⟩ : String.Pos.Raw).IsValid (String.ofList (front ++ rest)) := by
  refine String.Pos.Raw.isValid_iff_exists_append.2
    ⟨String.ofList front, String.ofList rest, String.ofList_append, ?_⟩
  ext
  exact byteLength_eq front

/-- The offset of an error is that of what is left of the text. -/
theorem exists_append_of_parseChars {text : List Char} {error : ParseError}
    (rejected : parseChars text = .error error) :
    ∃ front, text = front ++ (program text).2 ∧ error.offset = byteLength front := by
  have row : ReadsInTurn (do blanks; definition) text [] text := .none
  obtain ⟨front, whole⟩ := suffix_program row
  have offset : error.offset = byteLength text - byteLength (program text).2 := by
    unfold parseChars at rejected
    split at rejected
    · cases rejected
    all_goals
      rename_i same
      cases rejected
      rw [same]
  refine ⟨front, whole.symm, ?_⟩
  rw [offset]
  nth_rewrite 1 [← whole]
  rw [byteLength_append, Nat.add_sub_cancel]

end Source

open Source

/-- **A parse error points into the source**: its offset is not behind the end of the source, it
lies between two characters, and it is not in front of the end of any definition that was read, one
behind the other, from the beginning. -/
theorem parse_error_inside {source : String} {error : ParseError}
    (rejected : parse source = .error error) :
    error.offset ≤ source.utf8ByteSize ∧ (⟨error.offset⟩ : String.Pos.Raw).IsValid source ∧
      ∀ definitions front rest, source.toList = front ++ rest →
        Parser.ReadsInTurn (do blanks; definition) source.toList definitions rest →
          byteLength front ≤ error.offset := by
  obtain ⟨before, whole, offset⟩ := exists_append_of_parseChars rejected
  have isValid := isValid_byteLength before (program source.toList).2
  rw [← offset, ← whole, String.ofList_toList] at isValid
  refine ⟨isValid.le_utf8ByteSize, isValid, fun definitions front rest cut row => ?_⟩
  obtain ⟨between, same⟩ := suffix_program row
  have later : before = front ++ between := by
    rw [whole, ← same, ← List.append_assoc] at cut
    exact List.append_cancel_right cut
  rw [offset, later, byteLength_append]
  omega

/-- A call that is not closed in the second of two definitions. Parsing stops behind its
parenthesis. -/
theorem parse_error_inside_of_open_call :
    parse "LET A := \"é\"; LET B := f(\"é\", g(x y);" = .error ⟨26, ["expression"]⟩ ∧
      26 ≤ "LET A := \"é\"; LET B := f(\"é\", g(x y);".utf8ByteSize ∧
      (⟨26⟩ : String.Pos.Raw).IsValid "LET A := \"é\"; LET B := f(\"é\", g(x y);" ∧
      Parser.ReadsInTurn (do blanks; definition) "LET A := \"é\"; LET B := f(\"é\", g(x y);".toList
        [.feature "A" (.const (.text "é"))] " LET B := f(\"é\", g(x y);".toList ∧
      byteLength "LET A := \"é\";".toList ≤ 26 := by
  have rejected : parse "LET A := \"é\"; LET B := f(\"é\", g(x y);" =
      .error ⟨26, ["expression"]⟩ := by
    decide +kernel
  have row : Parser.ReadsInTurn (do blanks; definition)
      "LET A := \"é\"; LET B := f(\"é\", g(x y);".toList
      [.feature "A" (.const (.text "é"))] " LET B := f(\"é\", g(x y);".toList := by
    refine .more ?_ .none
    unfold Parser.Reads
    decide +kernel
  obtain ⟨bound, isValid, behind⟩ := parse_error_inside rejected
  exact ⟨rejected, bound, isValid, row, behind _ _ _ (by decide) row⟩

end RuleGraph
