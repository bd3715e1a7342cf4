import RuleGraph.Proofs.Source.Reads
import RuleGraph.Source.Token
import Mathlib.Data.List.TakeWhile

/-! # Blanks are skipped

Blanks and comments may stand in front of every token. What is left of a text behind them depends on
the text alone.

* **`Source.Skips`** — what is left of a text behind its blanks; `reads_blanks_iff`.
* **`Source.IsGap`** — blanks and comments between tokens; `reads_blanks`.
* **`Source.blanks_bind_eq`** — a parser behind blanks does what it does on what they leave.
-/

namespace RuleGraph.Source

open RuleGraph.Parser

/-- What is said about each character of a list is decided along the list, and not by going through
all the characters there are. -/
instance (priority := 2000) decidableForallLetter (p : Char → Prop) [DecidablePred p]
    (letters : List Char) : Decidable (∀ c ∈ letters, p c) :=
  List.decidableBAll p letters

variable {gap text tail rest : List Char}

/-! ## What blanks leave -/

/-- From the end of a line on an end of the text is left. -/
theorem suffix_of_endOfLine? (found : endOfLine? text = some rest) : rest <:+ text := by
  fun_induction endOfLine? text with
  | case1 | case2 | case3 =>
    cases found
    exact List.suffix_refl _
  | case4 => cases found
  | case5 c text _ _ _ ih => exact (ih found).trans (List.suffix_cons c text)

/-- What does not begin with a number sign is no comment. -/
theorem declines_comment (other : '#' ∉ text.head?) : comment.Declines text := by
  refine ⟨[], text, ?_⟩
  unfold comment
  split
  · exact absurd rfl other
  · rfl

/-- What is left of a text behind its blanks and comments. -/
inductive Skips : List Char → List Char → Prop where
  /-- There are none. -/
  | stop {text : List Char} (token : ∀ c ∈ text.head?, Text.isBlank c = false)
    (other : comment.Declines text) : Skips text text
  /-- A blank first. -/
  | blank {c : Char} {text rest : List Char} (isBlank : Text.isBlank c = true)
    (others : Skips text rest) : Skips (c :: text) rest
  /-- A comment first. -/
  | comment {text middle rest : List Char} (line : endOfLine? text = some middle)
    (others : Skips middle rest) : Skips ('#' :: text) rest

/-- Something is left of every text. -/
theorem exists_skips (text : List Char) : ∃ rest, Skips text rest := by
  induction length : text.length using Nat.strong_induction_on generalizing text with
  | _ length ih =>
    subst length
    cases text with
    | nil => exact ⟨[], .stop (by rintro c ⟨⟩) (declines_comment (by rintro ⟨⟩))⟩
    | cons c text =>
      by_cases isBlank : Text.isBlank c = true
      · obtain ⟨rest, others⟩ := ih _ (Nat.lt_succ_self _) text rfl
        exact ⟨rest, .blank isBlank others⟩
      have token : ∀ d ∈ (c :: text).head?, Text.isBlank d = false := by
        rintro d ⟨⟩
        exact Bool.eq_false_iff.2 isBlank
      by_cases sign : c = '#'
      · subst sign
        cases line : endOfLine? text with
        | none => exact ⟨_, .stop token ⟨[], text, by rw [comment, line]; rfl⟩⟩
        | some middle =>
          have shorter := (suffix_of_endOfLine? line).length_le
          obtain ⟨rest, others⟩ := ih _ (Nat.lt_succ_of_le shorter) middle rfl
          exact ⟨rest, .comment line others⟩
      · exact ⟨_, .stop token (declines_comment (by rintro ⟨⟩; exact sign rfl))⟩

/-- Nothing more is skipped behind the blanks. -/
theorem Skips.again (skips : Skips text rest) : Skips rest rest := by
  induction skips with
  | stop token other => exact .stop token other
  | blank _ _ ih => exact ih
  | comment _ _ ih => exact ih

/-- Blanks at the front may be left out. -/
theorem Skips.dropWhile (skips : Skips text rest) : Skips (text.dropWhile Text.isBlank) rest := by
  induction skips with
  | @stop text token other =>
    cases text with
    | nil => exact .stop token other
    | cons c text =>
      rw [List.dropWhile_cons_of_neg (by simp [token c rfl])]
      exact .stop token other
  | blank isBlank _ ih =>
    rw [List.dropWhile_cons_of_pos isBlank]
    exact ih
  | comment line others =>
    rw [List.dropWhile_cons_of_neg (by decide)]
    exact .comment line others

/-- An end of the text is left. -/
theorem Skips.suffix (skips : Skips text rest) : rest <:+ text := by
  induction skips with
  | stop => exact List.suffix_refl _
  | blank _ _ ih => exact ih.trans (List.suffix_cons _ _)
  | comment line _ ih => exact (ih.trans (suffix_of_endOfLine? line)).trans (List.suffix_cons _ _)

/-- Fewer characters are left behind a blank at the front. -/
theorem length_dropWhile_lt {c : Char} (isBlank : Text.isBlank c = true) :
    ((c :: gap).dropWhile Text.isBlank).length < (c :: gap).length := by
  rw [List.dropWhile_cons_of_pos isBlank]
  exact Nat.lt_succ_of_le (List.dropWhile_sublist _).length_le

/-- **Blanks and comments are read**, up to the next token. -/
theorem Skips.reads (skips : Skips text rest) : blanks.Reads text () rest := by
  -- Rounds take blanks or a comment each; induction on the length of what they have left.
  suffices all : ∃ rounds, ReadsAll (Parser.orElse (do let _ ← run1 Text.isBlank) Source.comment)
      text rounds rest by
    obtain ⟨rounds, all⟩ := all
    exact Reads.bind all.many .pure
  induction length : text.length using Nat.strong_induction_on generalizing text with
  | _ length ih =>
    subst length
    cases skips with
    | stop token other => exact ⟨[], .none (.orElse_declines ((declines_run1 token).bind _) other)⟩
    | @blank c text _ isBlank others =>
      have shorter := @length_dropWhile_lt text c isBlank
      obtain ⟨rounds, more⟩ := ih _ shorter (Skips.blank isBlank others).dropWhile rfl
      have taken : (run1 Text.isBlank).Reads (c :: text) ((c :: text).takeWhile Text.isBlank)
          ((c :: text).dropWhile Text.isBlank) := by
        rw [Reads, run1, List.takeWhile_cons_of_pos isBlank]
        rfl
      exact ⟨() :: rounds, .more (Reads.orElse _ (taken.bind .pure)) shorter more⟩
    | @comment text middle _ line others =>
      have shorter := Nat.lt_succ_of_le (suffix_of_endOfLine? line).length_le
      obtain ⟨rounds, more⟩ := ih _ shorter others rfl
      refine ⟨() :: rounds, .more (Declines.orElse (.bind _ (declines_run1 ?_)) ?_) shorter more⟩
      · rintro c ⟨⟩
        decide
      · rw [Reads, Source.comment, line]

/-- What is left behind blanks is what they skip to. -/
theorem reads_blanks_iff : blanks.Reads text () rest ↔ Skips text rest := by
  refine ⟨fun reads => ?_, Skips.reads⟩
  obtain ⟨rest', skips⟩ := exists_skips text
  have same := reads.symm.trans skips.reads
  cases same
  exact skips

/-- Blanks skip to one place. -/
theorem Skips.unique {rest' : List Char} (skips : Skips text rest) (skips' : Skips text rest') :
    rest = rest' := by
  have same := skips.reads.symm.trans skips'.reads
  cases same
  rfl

/-- **A parser behind blanks** does what it does on what they leave. -/
theorem blanks_bind_eq {α : Type} (skips : Skips text rest) (parser : Parser α) :
    (do blanks; parser : Parser α) text = parser rest := by
  have reads := skips.reads
  show Parser.bind blanks (fun _ => parser) text = _
  rw [Parser.bind, reads]

/-! ## Gaps between tokens -/

/-- Blanks and comments, which may stand between tokens. A comment ends with the line. -/
inductive IsGap : List Char → Prop where
  /-- Nothing. -/
  | nil : IsGap []
  /-- A blank first. -/
  | blank {c : Char} {gap : List Char} (isBlank : Text.isBlank c = true) (others : IsGap gap) :
    IsGap (c :: gap)
  /-- A comment first. -/
  | comment {body gap : List Char} (line : ∀ c ∈ body, c ≠ '\r' ∧ c ≠ '\n')
    (others : IsGap gap) : IsGap ('#' :: (body ++ '\n' :: gap))

/-- A line feed is blank. -/
theorem isGap_lineFeed : IsGap ['\n'] := .blank (by decide) .nil

/-- A space is blank. -/
theorem isGap_space : IsGap [' '] := .blank (by decide) .nil

/-- A text does not begin with a blank or a comment. -/
def StartsToken (text : List Char) : Prop :=
  ∀ c ∈ text.head?, Text.isBlank c = false ∧ c ≠ '#'

/-- The rest of a line is skipped. -/
theorem endOfLine?_append {body : List Char} (line : ∀ c ∈ body, c ≠ '\r' ∧ c ≠ '\n') :
    endOfLine? (body ++ '\n' :: rest) = some ('\n' :: rest) := by
  induction body with
  | nil => rfl
  | cons c body ih =>
    obtain ⟨notReturn, notFeed⟩ := line c List.mem_cons_self
    have later := ih fun c member => line c (List.mem_cons_of_mem _ member)
    rw [List.cons_append, endOfLine?]
    · exact later
    · exact notFeed
    · exact fun _ same => absurd same notReturn
    · exact notReturn

/-- A gap is skipped up to the next token. -/
theorem IsGap.skips (isGap : IsGap gap) (starts : StartsToken tail) : Skips (gap ++ tail) tail := by
  induction isGap with
  | nil =>
    exact .stop (fun c here => (starts c here).1)
      (declines_comment fun here => (starts _ here).2 rfl)
  | blank isBlank _ ih => exact .blank isBlank ih
  | comment line _ ih =>
    rw [List.cons_append, List.append_assoc]
    exact .comment (endOfLine?_append line) (.blank (by decide) ih)

/-- **Blanks and comments are read**, up to the next token. -/
theorem reads_blanks (isGap : IsGap gap) (starts : StartsToken tail) :
    blanks.Reads (gap ++ tail) () tail :=
  (isGap.skips starts).reads

/-- Without blanks none are read. -/
theorem reads_blanks_nil (starts : StartsToken text) : blanks.Reads text () text :=
  reads_blanks .nil starts

/-- Blanks are read up to the end of the text. -/
theorem reads_blanks_end (isGap : IsGap gap) : blanks.Reads gap () [] := by
  have reads := reads_blanks isGap (show StartsToken [] by rintro c ⟨⟩)
  rwa [List.append_nil] at reads

/-- A token is read behind blanks. -/
theorem reads_symbol (letters : String) (isGap : IsGap gap)
    (starts : StartsToken (letters.toList ++ rest)) :
    (symbol letters).Reads (gap ++ (letters.toList ++ rest)) () rest :=
  Reads.bind (reads_blanks isGap starts) (reads_literal _)

/-- Another token is declined. -/
theorem declines_symbol {letters : String} (isGap : IsGap gap) (starts : StartsToken tail)
    (other : ∀ c ∈ letters.toList.head?, c ∉ tail.head?) (nonempty : letters.toList ≠ []) :
    (symbol letters).Declines (gap ++ tail) := by
  refine Reads.bind_declines (reads_blanks isGap starts) ?_
  obtain ⟨first, rest, same⟩ := List.exists_cons_of_ne_nil nonempty
  rw [same] at other ⊢
  exact declines_literal (other first rfl)

end RuleGraph.Source
