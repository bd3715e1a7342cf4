import RuleGraph.Proofs.Source.Literals
import RuleGraph.Proofs.Source.Local

/-! # Tokens in front of further lines

What a token is read as does not depend on what stands on the lines behind it. Blanks are another
matter: they may go on there.

* **`Source.local_identifier`**, **`Source.local_number`** — names and numbers.
* **`Source.steady_textLiteral`** — texts, unless one is closed on a later line.
* **`Source.Skips.append`** — where blanks end if there are further lines.
-/

namespace RuleGraph.Source

open RuleGraph.Parser

variable {text rest more : List Char}

/-! ## Tokens -/

/-- A name. -/
theorem local_identifier : identifier.Local :=
  .bind (.satisfy (by decide)) fun _ => .bind (.run (by decide)) fun _ => .pure

/-- A word of the language. -/
theorem local_keyword {letters : String}
    (word : ∀ letter ∈ letters.toList, IsPlain fun c => c.toLower = letter.toLower) :
    (keyword letters).Local :=
  .bind (.literalBy word) fun _ => .notFollowedBy (.satisfy (by decide))

/-- An exponent. -/
theorem local_exponentPart : exponentPart.Local :=
  .bind (.satisfy (by decide)) fun _ => .bind (.optional (.satisfy (by decide))) fun _ =>
    .bind (.run1 (by decide)) fun _ => .pure

/-- A floating-point number. -/
theorem local_floatLiteral : floatLiteral.Local := by
  have fraction : fractionPart.Local :=
    .orElse (.bind (.char (by decide)) fun _ => .bind (.run1 (by decide)) fun _ =>
      .bind (.optional local_exponentPart) fun _ => .pure) local_exponentPart
  refine .bind (.optional (.char (by decide))) fun sign => .bind (.run1 (by decide)) fun whole =>
    .bind fraction fun fraction => ?_
  split
  · exact .pure
  · exact .fail

/-- An integer. -/
theorem local_intLiteral : intLiteral.Local := by
  refine .bind (.orElse ?_ (.bind (.char (by decide)) fun _ => .pure)) fun value => ?_
  · exact .bind (.optional (.satisfy (by decide))) fun _ => .bind (.satisfy (by decide)) fun _ =>
      .bind (.run (by decide)) fun _ => .pure
  · split
    · exact .pure
    · exact .fail

/-- A number. -/
theorem local_number : number.Local :=
  .orElse (.bind local_floatLiteral fun _ => .pure) (.bind local_intLiteral fun _ => .pure)

/-! ## Texts -/

/-- A code point holds neither quotes nor backslashes. -/
theorem closing?_of_codePoint {c : Char} (reads : codePoint.Reads text c rest) :
    closing? text = closing? rest := by
  obtain ⟨first, behind, opening, later⟩ := reads_bind_iff.1 (reads_expecting_iff.1 reads)
  obtain ⟨digits, middle, hex, closing⟩ := reads_bind_iff.1 later
  obtain ⟨rfl, isBrace⟩ := reads_satisfy_iff.1 opening
  obtain ⟨rfl, areDigits⟩ := hex.eq_append_of_run1
  have plain : ∀ d ∈ digits, d ≠ '"' ∧ d ≠ '\\' := by
    intro d member
    have digit := areDigits d member
    exact ⟨by rintro rfl; exact absurd digit (by decide),
      by rintro rfl; exact absurd digit (by decide)⟩
  have brace : middle = '\x7d' :: rest := by
    dsimp only at closing
    split_ifs at closing
    all_goals
      obtain ⟨last, left, reads, same⟩ := reads_bind_iff.1 closing
      first
      | cases reads
      | cases same
    obtain ⟨rfl, isBrace⟩ := reads_satisfy_iff.1 reads
    rw [of_decide_eq_true isBrace]
  have opened := @closing?_append (digits ++ middle) [first] fun d member => by
    rw [List.mem_singleton.1 member, of_decide_eq_true isBrace]
    decide
  have closed := @closing?_append rest ['\x7d'] (by decide)
  rw [show first :: (digits ++ middle) = [first] ++ (digits ++ middle) from rfl, opened,
    closing?_append plain, brace, show '\x7d' :: rest = ['\x7d'] ++ rest from rfl, closed]

/-- An escaped character is passed over with its backslash. -/
theorem closing?_of_escape {c : Char} (reads : escape.Reads text c rest) :
    closing? ('\\' :: text) = closing? rest := by
  cases text with
  | nil => cases reads
  | cons d text =>
    rw [closing?]
    obtain ⟨d', behind, first, later⟩ := reads_bind_iff.1 reads
    cases first
    split_ifs at later
    all_goals first
      | exact closing?_of_codePoint later
      | obtain ⟨-, rfl⟩ := reads_pure_iff.1 later
        rfl

/-- What is left behind a text is left behind its closing quote. -/
theorem closing?_of_textBody {steps : Nat} {chars : List Char}
    (reads : (textBody steps).Reads text chars rest) : closing? text = some rest := by
  induction steps generalizing text chars with
  | zero => cases reads
  | succ steps ih =>
    obtain ⟨c, middle, first, later⟩ := reads_bind_iff.1 reads
    obtain ⟨rfl, -⟩ := reads_satisfy_iff.1 first
    split_ifs at later with quote backslash
    · obtain ⟨-, rfl⟩ := reads_pure_iff.1 later
      subst quote
      rfl
    · obtain ⟨decoded, behind, escaped, others⟩ := reads_bind_iff.1 later
      obtain ⟨chars', last, others, same⟩ := reads_bind_iff.1 others
      obtain ⟨-, rfl⟩ := reads_pure_iff.1 same
      rw [backslash, closing?_of_escape escaped, ih others]
    · obtain ⟨chars', last, others, same⟩ := reads_bind_iff.1 later
      obtain ⟨-, rfl⟩ := reads_pure_iff.1 same
      rw [closing?, ih others]
      · exact quote
      · exact fun _ _ same => absurd same backslash

/-- A code point. -/
theorem local_codePoint : codePoint.Local := by
  refine .expecting (.bind (.char (by decide)) fun _ => .bind (.run1 (by decide)) fun digits => ?_)
  dsimp only
  split_ifs
  · exact .bind (.char (by decide)) fun _ => .pure
  · exact .bind (.char (by decide)) fun _ => .fail
  · exact .bind .fail fun _ => .pure
  · exact .bind .fail fun _ => .fail

/-- What an escaped character stands for depends on its first character and what follows that. -/
theorem exists_escape_eq (c : Char) :
    ∃ parser : Parser Char, parser.Local ∧ ∀ text, escape (c :: text) = parser text := by
  refine ⟨if c = 'n' then return '\n' else if c = 't' then return '\t'
    else if c = 'r' then return '\r' else if c = '0' then return '\x00'
    else if c = 'u' then codePoint else return c, ?_, fun _ => rfl⟩
  split_ifs
  all_goals first
    | exact .pure
    | exact local_codePoint

/-- **A text that is closed** is read or not, whatever follows. -/
theorem textBody_append {steps steps' : Nat} (closed : closing? text = some rest)
    (enough : text.length < steps) (enough' : text.length < steps') :
    textBody steps' (text ++ '\n' :: more) =
      ((textBody steps text).1, (textBody steps text).2 ++ '\n' :: more) := by
  induction steps generalizing text steps' with
  | zero => exact absurd enough (Nat.not_lt_zero _)
  | succ steps ih =>
    obtain ⟨less, rfl⟩ : ∃ less, steps' = less + 1 := ⟨steps' - 1, by omega⟩
    -- What follows a character is read alike if it is closed as well.
    have behind : ∀ {text'} (c : Char), closing? text' = some rest → text'.length < text.length →
        (do return c :: (← textBody less) : Parser (List Char)) (text' ++ '\n' :: more) =
          (((do return c :: (← textBody steps) : Parser (List Char)) text').1,
            ((do return c :: (← textBody steps) : Parser (List Char)) text').2 ++
              '\n' :: more) := by
      intro text' c closed' shorter
      have enough'' : text'.length < less := by omega
      have same := ih closed' (by omega) enough''
      show Parser.bind (textBody less) _ _ = ((Parser.bind (textBody steps) _ _).1,
        (Parser.bind (textBody steps) _ _).2 ++ '\n' :: more)
      rw [Parser.bind, Parser.bind, same]
      rcases textBody steps text' with ⟨_ | _, _⟩ <;> rfl
    cases text with
    | nil => cases closed
    | cons c text =>
      by_cases quote : c = '"'
      · subst quote
        rfl
      by_cases backslash : c = '\\'
      · subst backslash
        cases text with
        | nil => cases closed
        | cons d text =>
          obtain ⟨parser, isLocal, same⟩ := exists_escape_eq d
          have whole : ∀ steps text, textBody (steps + 1) ('\\' :: d :: text) =
              Parser.bind parser (fun c => do return c :: (← textBody steps)) text := by
            intro steps text
            show Parser.bind escape _ (d :: text) = _
            rw [Parser.bind, Parser.bind, same]
          rw [List.cons_append, List.cons_append, whole, whole, Parser.bind, Parser.bind,
            isLocal.same]
          cases reads : parser text with
          | mk result left =>
            cases result with
            | error => rfl
            | ok decoded =>
              have escaped : escape.Reads (d :: text) decoded left := (same text).trans reads
              have shorter := (yields_escape _ _ _ escaped).2.length_le
              refine behind decoded ?_ (Nat.lt_succ_of_le shorter)
              rw [← closing?_of_escape escaped, closed]
      · have whole : ∀ steps text, textBody (steps + 1) (c :: text) =
            (do return c :: (← textBody steps) : Parser (List Char)) text := by
          intro steps text
          show (if c = '"' then _ else _ : Parser (List Char)) text = _
          rw [if_neg quote, if_neg backslash]
        rw [closing?] at closed
        · rw [List.cons_append, whole, whole]
          exact behind c closed (Nat.lt_succ_self _)
        · exact quote
        · exact fun _ _ same => absurd same backslash

/-- A code point never fails finally. -/
theorem drifts_codePoint : codePoint.Drifts (fun _ => True) text := by
  refine .expecting (Drifts.satisfy.bind fun _ _ _ _ => Drifts.run1.bind fun digits _ _ _ => ?_)
  have fails : ∀ {α : Type} {text}, (fail .tentative : Parser α).Drifts (fun _ => True) text :=
    .inl ⟨[], _, rfl⟩
  dsimp only
  split_ifs
  · exact Drifts.satisfy.bind fun _ _ _ _ => .pure trivial
  · exact Drifts.satisfy.bind fun _ _ _ _ => fails
  · exact fails.bind fun _ _ _ _ => .pure trivial
  · exact fails.bind fun _ _ _ _ => fails

/-- A text never fails finally. -/
theorem drifts_textBody (steps : Nat) : (textBody steps).Drifts (fun _ => True) text := by
  induction steps generalizing text with
  | zero => exact .inl ⟨[], text, rfl⟩
  | succ steps ih =>
    refine Drifts.satisfy.bind fun c _ _ _ => ?_
    have escaped : ∀ {text}, escape.Drifts (fun _ => True) text := by
      refine Drifts.satisfy.bind fun c _ _ _ => ?_
      split_ifs
      all_goals first
        | exact .pure trivial
        | exact drifts_codePoint
    split_ifs
    · exact .pure trivial
    · exact escaped.bind fun _ _ _ _ => ih.bind fun _ _ _ _ => .pure trivial
    · exact ih.bind fun _ _ _ _ => .pure trivial

/-- **A text is read or not, whatever follows**, unless it is not closed and what follows may close
it. -/
theorem steady_textLiteral (closed : LeavesTextOpen text → '"' ∉ more) :
    textLiteral.Steady more text := by
  have other : '"' ∉ text.head? → textLiteral.Steady more text := by
    intro other
    refine .of_declines (declines_textLiteral other) (declines_textLiteral ?_)
    cases text with
    | nil => rintro ⟨⟩
    | cons c text => exact other
  cases text with
  | nil => exact other (by rintro ⟨⟩)
  | cons c text =>
    by_cases quote : c = '"'
    swap
    · exact other (by rintro ⟨⟩; exact quote rfl)
    subst quote
    have whole : ∀ text, textLiteral ('"' :: text) =
        (do return String.ofList (← textBody (text.length + 1)) : Parser String) text :=
      fun _ => rfl
    have closes : ∀ value rest, textLiteral.Reads ('"' :: text) value rest →
        closing? text = some rest := by
      intro value rest reads
      rw [Reads, whole] at reads
      obtain ⟨chars, left, inner, same⟩ := reads_bind_iff.1 reads
      obtain ⟨-, rfl⟩ := reads_pure_iff.1 same
      exact closing?_of_textBody inner
    cases found : closing? text with
    | none =>
      have unclosed := closing?_append_eq_none found
        (show '"' ∉ '\n' :: more from fun member => (List.mem_cons.1 member).elim (by decide)
          (closed ⟨text, .refl, found⟩))
      refine ⟨fun value rest reads => ?_, fun _ => ?_⟩
      · rw [closes value rest reads] at found
        cases found
      · have declines : (do return String.ofList (← textBody ((text ++ '\n' :: more).length + 1)) :
            Parser String).Declines (text ++ '\n' :: more) := by
          refine Declines.bind _ ((drifts_textBody _).resolve_right ?_)
          rintro ⟨chars, rest, reads, -⟩
          rw [closing?_of_textBody reads] at unclosed
          cases unclosed
        obtain ⟨expected, rest, failed⟩ := declines
        exact ⟨expected, rest, (whole _).trans failed⟩
    | some rest =>
      have same : textLiteral ('"' :: text ++ '\n' :: more) =
          ((textLiteral ('"' :: text)).1, (textLiteral ('"' :: text)).2 ++ '\n' :: more) := by
        have enough : text.length < (text ++ '\n' :: more).length + 1 := by
          rw [List.length_append]
          omega
        have body := @textBody_append _ _ more _ _ found (Nat.lt_succ_self _) enough
        rw [List.cons_append, whole, whole]
        show Parser.bind _ _ _ = ((Parser.bind _ _ _).1, (Parser.bind _ _ _).2 ++ '\n' :: more)
        rw [Parser.bind, Parser.bind, body]
        rcases textBody (text.length + 1) text with ⟨_ | _, _⟩ <;> rfl
      refine ⟨fun value rest reads => ⟨.single (.text (closes value rest reads)), ?_⟩, ?_⟩
      · rw [Reads, same, reads]
      · rintro ⟨expected, rest, failed⟩
        exact ⟨expected, rest ++ '\n' :: more, by rw [same, failed]⟩

/-! ## Blanks -/

/-- A line that ends ends in the same place if there are further lines. -/
theorem endOfLine?_append_more (line : endOfLine? text = some rest) :
    endOfLine? (text ++ '\n' :: more) = some (rest ++ '\n' :: more) := by
  fun_induction endOfLine? text with
  | case1 =>
    cases line
    rfl
  | case2 =>
    cases line
    rfl
  | case3 =>
    cases line
    rfl
  | case4 => cases line
  | case5 c text notFeed notBoth notReturn ih =>
    rw [List.cons_append, endOfLine?]
    · exact ih line
    · exact notFeed
    · exact fun _ same => absurd same notReturn
    · exact notReturn

/-- A line that does not end may end if there are further lines, behind a carriage return. -/
theorem endOfLine?_append_none (line : endOfLine? text = none) :
    endOfLine? (text ++ '\n' :: more) = none ∨
      endOfLine? (text ++ '\n' :: more) = some ('\r' :: '\n' :: more) := by
  fun_induction endOfLine? text with
  | case1 | case2 | case3 => cases line
  | case4 rest other =>
    cases rest with
    | nil => exact .inr rfl
    | cons c rest =>
      refine .inl ?_
      rw [List.cons_append, List.cons_append, endOfLine?]
      rintro later ⟨⟩
      exact other _ rfl
  | case5 c text notFeed _ notReturn ih =>
    rw [List.cons_append, endOfLine?]
    · exact ih line
    · exact notFeed
    · exact fun _ same => absurd same notReturn
    · exact notReturn

/-- Nothing is left of a text, or a comment that does not end. -/
def AtEnd (text : List Char) : Prop :=
  text = [] ∨ ∃ line, text = '#' :: line ∧ endOfLine? line = none

/-- **Where blanks end if there are further lines**: where they end without them, or else at the end
of the text, so that they go on with those lines. -/
theorem Skips.append (skips : Skips text rest) (more : List Char) :
    Skips (text ++ '\n' :: more) (rest ++ '\n' :: more) ∨
      AtEnd rest ∧ ∀ rest', Skips more rest' → Skips (text ++ '\n' :: more) rest' := by
  induction skips with
  | @stop text token other =>
    cases text with
    | nil => exact .inr ⟨.inl rfl, fun rest' others => .blank (by decide) others⟩
    | cons c text =>
      by_cases sign : c = '#'
      · subst sign
        have unended : endOfLine? text = none := by
          cases line : endOfLine? text with
          | none => rfl
          | some rest =>
            obtain ⟨expected, left, failed⟩ := other
            rw [Source.comment, line] at failed
            cases failed
        rcases @endOfLine?_append_none text more unended with unended' | ended
        · refine .inl (.stop (by rintro c ⟨⟩; decide) ⟨[], text ++ '\n' :: more, ?_⟩)
          rw [List.cons_append, Source.comment, unended']
          rfl
        · exact .inr ⟨.inr ⟨text, rfl, unended⟩, fun rest' others =>
            .comment ended (.blank (by decide) (.blank (by decide) others))⟩
      · refine .inl (.stop (by rintro d ⟨⟩; exact token c rfl) (declines_comment ?_))
        rintro ⟨⟩
        exact sign rfl
  | blank isBlank _ ih =>
    exact ih.imp (.blank isBlank)
      (And.imp_right fun others rest' skips => .blank isBlank (others rest' skips))
  | comment line _ ih =>
    exact ih.imp (.comment (endOfLine?_append_more line)) (And.imp_right fun others rest' skips =>
      .comment (endOfLine?_append_more line) (others rest' skips))

end RuleGraph.Source
