import RuleGraph.Proofs.Source.Scan

/-! # Further lines

What a parser reads off a text need not depend on what stands on the lines behind it.

* **`Parser.Local`** — further lines do not change what a parser does.
* **`Parser.Keeps`** — nor what it reads off a given text.
* **`Parser.Steady`** — nor that it declines it.
-/

namespace RuleGraph.Parser

open RuleGraph.Source

variable {α β : Type} {parser other : Parser α} {text more rest : List Char} {value : α}

/-- Further lines do not change what a parser does, and what it reads is passed over. -/
structure Local (parser : Parser α) : Prop where
  /-- Further lines make no difference. -/
  same : ∀ text more,
    parser (text ++ '\n' :: more) = ((parser text).1, (parser text).2 ++ '\n' :: more)
  /-- What is read is passed over. -/
  scans : ∀ text value rest, parser.Reads text value rest → Scans text rest

/-- Further lines do not change what a parser reads off a text, and it passes over that. -/
def Keeps (more : List Char) (parser : Parser α) (text : List Char) : Prop :=
  ∀ value rest, parser.Reads text value rest →
    Scans text rest ∧ parser.Reads (text ++ '\n' :: more) value (rest ++ '\n' :: more)

/-- Further lines do not change what a parser reads off a text, or that it declines it. -/
structure Steady (more : List Char) (parser : Parser α) (text : List Char) : Prop where
  /-- It reads what it reads without them. -/
  keeps : parser.Keeps more text
  /-- It declines where it declines without them. -/
  declines : parser.Declines text → parser.Declines (text ++ '\n' :: more)

/-- Characters that begin neither a text nor a comment and end no line. -/
def IsPlain (test : Char → Bool) : Prop :=
  ∀ c ∈ ['\n', '"', '#'], test c = false

instance (test : Char → Bool) : Decidable (IsPlain test) :=
  List.decidableBAll _ _

namespace IsPlain

variable {test : Char → Bool} (plain : IsPlain test)
include plain

/-- They end no line. -/
theorem lineFeed : test '\n' = false := plain '\n' (by decide)

/-- They begin neither a text nor a comment. -/
theorem not_begins {c : Char} (satisfies : test c = true) : c ≠ '"' ∧ c ≠ '#' := by
  have other : ∀ d ∈ ['\n', '"', '#'], c ≠ d := by
    rintro d member rfl
    exact Bool.noConfusion (satisfies.symm.trans (plain c member))
  exact ⟨other _ (by decide), other _ (by decide)⟩

end IsPlain

namespace Local

/-- A parser that further lines do not change does the same wherever it stands. -/
theorem steady (isLocal : parser.Local) : parser.Steady more text := by
  refine ⟨fun value rest reads => ⟨isLocal.scans _ _ _ reads, ?_⟩, ?_⟩
  · rw [Reads, isLocal.same, reads]
  · rintro ⟨expected, rest, failed⟩
    exact ⟨expected, rest ++ '\n' :: more, by rw [isLocal.same, failed]⟩

/-- A known value. -/
theorem pure : Local (Pure.pure value : Parser α) := by
  refine ⟨fun _ _ => rfl, fun text value' rest reads => ?_⟩
  obtain ⟨-, rfl⟩ := reads_pure_iff.1 reads
  exact .refl

/-- No value at all. -/
theorem fail {failure : Failure} : Local (fail failure : Parser α) :=
  ⟨fun _ _ => rfl, fun _ _ _ reads => by cases reads⟩

/-- First one thing and then another. -/
theorem bind {next : α → Parser β} (first : parser.Local) (second : ∀ value, (next value).Local) :
    Local (parser >>= next) := by
  refine ⟨fun text more => ?_, fun text result rest reads => ?_⟩
  · show Parser.bind parser next _ =
      ((Parser.bind parser next text).1, (Parser.bind parser next text).2 ++ '\n' :: more)
    rw [Parser.bind, Parser.bind, first.same]
    rcases parser text with ⟨_ | value, rest⟩
    · rfl
    · exact (second value).same rest more
  · obtain ⟨value, middle, reads, later⟩ := reads_bind_iff.1 reads
    exact (first.scans _ _ _ reads).trans ((second value).scans _ _ _ later)

/-- Alternatives. -/
theorem orElse (first : parser.Local) (second : other.Local) :
    Local (Parser.orElse parser other) := by
  refine ⟨fun text more => ?_, fun text value rest reads => ?_⟩
  · rw [Parser.orElse, Parser.orElse, first.same, second.same]
    rcases parser text with ⟨⟨_ | _, expected⟩ | value, rest⟩
    · rcases other text with ⟨⟨_ | _, expected⟩ | value, rest⟩ <;> rfl
    · rfl
    · rfl
  · rcases reads_orElse_iff.1 reads with reads | ⟨-, reads⟩
    · exact first.scans _ _ _ reads
    · exact second.scans _ _ _ reads

/-- What may be there. -/
theorem optional (isLocal : parser.Local) : Local (Parser.optional parser) := by
  refine ⟨fun text more => ?_, fun text result rest reads => ?_⟩
  · rw [Parser.optional, Parser.optional, isLocal.same]
    rcases parser text with ⟨⟨_ | _, expected⟩ | value, rest⟩ <;> rfl
  · rcases reads_optional_iff.1 reads with ⟨value, -, reads⟩ | ⟨-, rfl, -⟩
    · exact isLocal.scans _ _ _ reads
    · exact .refl

/-- What may not follow. -/
theorem notFollowedBy (isLocal : parser.Local) : Local (Parser.notFollowedBy parser) := by
  refine ⟨fun text more => ?_, fun text result rest reads => ?_⟩
  · rw [Parser.notFollowedBy, Parser.notFollowedBy, isLocal.same]
    rcases parser text with ⟨⟨_ | _, expected⟩ | value, rest⟩ <;> rfl
  · rw [Reads, Parser.notFollowedBy] at reads
    split at reads <;> cases reads
    exact .refl

/-- With a description of what was expected. -/
theorem expecting {what : String} (isLocal : parser.Local) :
    Local (Parser.expecting what parser) := by
  refine ⟨fun text more => ?_, fun text value rest reads =>
    isLocal.scans _ _ _ (reads_expecting_iff.1 reads)⟩
  rw [Parser.expecting, Parser.expecting, isLocal.same]
  rcases parser text with ⟨failure | value, rest⟩ <;> rfl

/-- A plain character. -/
theorem satisfy {test : Char → Bool} (plain : IsPlain test) : Local (Parser.satisfy test) := by
  refine ⟨fun text more => ?_, fun text c rest reads => ?_⟩
  · cases text with
    | nil => simp [Parser.satisfy, plain.lineFeed]
    | cons c rest =>
      rw [List.cons_append, Parser.satisfy, Parser.satisfy]
      split <;> rfl
  · cases text with
    | nil => cases reads
    | cons d text =>
      rw [Reads, Parser.satisfy] at reads
      split at reads
      · rename_i satisfies
        cases reads
        exact .single (.char (plain.not_begins satisfies).1 (plain.not_begins satisfies).2)
      · cases reads

/-- A given character. -/
theorem char {c : Char} (plain : c ∉ ['\n', '"', '#']) : Local (Parser.char c) :=
  satisfy fun _ member => decide_eq_false fun same => plain (same ▸ member)

/-- The characters in front of the first that does not satisfy a test. -/
theorem takeWhile_append_lineFeed {test : Char → Bool} (other : test '\n' = false)
    (text more : List Char) :
    (text ++ '\n' :: more).takeWhile test = text.takeWhile test ∧
      (text ++ '\n' :: more).dropWhile test = text.dropWhile test ++ '\n' :: more := by
  induction text with
  | nil => simp [other]
  | cons c text ih =>
    obtain ⟨taken, dropped⟩ := ih
    rw [List.cons_append, List.takeWhile_cons, List.takeWhile_cons, List.dropWhile_cons,
      List.dropWhile_cons]
    split
    · exact ⟨congrArg _ taken, dropped⟩
    · exact ⟨rfl, rfl⟩

/-- Plain characters are passed over. -/
theorem scans_dropWhile {test : Char → Bool} (plain : IsPlain test) (text : List Char) :
    Scans text (text.dropWhile test) := by
  have scans := @Scans.append (text.dropWhile test) (text.takeWhile test) fun c member =>
    plain.not_begins (List.mem_takeWhile_imp member)
  rwa [List.takeWhile_append_dropWhile] at scans

/-- Plain characters. -/
theorem run {test : Char → Bool} (plain : IsPlain test) : Local (Parser.run test) := by
  refine ⟨fun text more => ?_, ?_⟩
  · obtain ⟨taken, dropped⟩ := takeWhile_append_lineFeed plain.lineFeed text more
    rw [Parser.run, Parser.run, taken, dropped]
  · rintro text front rest ⟨⟩
    exact scans_dropWhile plain text

/-- Plain characters, at least one. -/
theorem run1 {test : Char → Bool} (plain : IsPlain test) : Local (Parser.run1 test) := by
  refine ⟨fun text more => ?_, fun text front rest reads => ?_⟩
  · obtain ⟨taken, dropped⟩ := takeWhile_append_lineFeed plain.lineFeed text more
    rw [Parser.run1, Parser.run1, taken, dropped]
    split <;> rfl
  · rw [Reads, Parser.run1] at reads
    split at reads <;> cases reads
    exact scans_dropWhile plain text

/-- Given characters, all of them plain. -/
theorem literalBy {agree : Char → Char → Bool} {letters : List Char}
    (plain : ∀ letter ∈ letters, IsPlain (agree · letter)) :
    Local (Parser.literalBy agree letters) := by
  refine ⟨fun text more => ?_, fun text value rest reads => ?_⟩
  · by_cases long : letters.length ≤ text.length
    · have taken : (text ++ '\n' :: more).take letters.length = text.take letters.length :=
        List.take_append_of_le_length long
      have dropped : (text ++ '\n' :: more).drop letters.length =
          text.drop letters.length ++ '\n' :: more := List.drop_append_of_le_length long
      rw [Parser.literalBy, Parser.literalBy, taken, dropped]
      split <;> rfl
    · -- The line feed stands in front of a letter.
      rw [Nat.not_le] at long
      have short : (text.take letters.length).length ≠ letters.length := by
        rw [List.length_take]
        omega
      have feed : (((text ++ '\n' :: more).take letters.length).zip letters).all
          (fun pair => agree pair.1 pair.2) = false := by
        rw [← Bool.not_eq_true, List.all_eq_true]
        intro all
        have pair : ('\n', letters[text.length]) ∈
            ((text ++ '\n' :: more).take letters.length).zip letters := by
          rw [List.mem_iff_getElem]
          refine ⟨text.length, by simp; omega, ?_⟩
          simp
        have agrees := all _ pair
        rw [(plain _ (List.getElem_mem long)).lineFeed] at agrees
        exact Bool.noConfusion agrees
      rw [Parser.literalBy, Parser.literalBy, feed, decide_eq_false short, Bool.and_false,
        Bool.false_and, if_neg Bool.false_ne_true, if_neg Bool.false_ne_true]
  · rcases agrees_or_declines_literalBy agree letters text with
      ⟨front, rest', rfl, agrees⟩ | declines
    · cases (reads_literalBy agrees).symm.trans reads
      refine Scans.append fun c member => ?_
      obtain ⟨index, bound, rfl⟩ := List.mem_iff_getElem.1 member
      have bound' : index < letters.length := agrees.length_eq ▸ bound
      exact (plain _ (List.getElem_mem bound')).not_begins (agrees.get bound bound')
    · exact absurd declines reads.not_declines

/-- Given characters. -/
theorem literal {letters : List Char} (plain : ∀ c ∈ letters, c ∉ ['\n', '"', '#']) :
    Local (Parser.literal letters) :=
  literalBy fun letter member _ listed =>
    decide_eq_false fun same => plain letter member (same ▸ listed)

end Local

namespace Keeps

/-- First one thing and then another. -/
theorem bind {next : α → Parser β} (first : parser.Keeps more text)
    (second : ∀ value rest, parser.Reads text value rest → Scans text rest →
      (next value).Keeps more rest) :
    Keeps more (parser >>= next) text := by
  intro result rest reads
  obtain ⟨value, middle, reads, later⟩ := reads_bind_iff.1 reads
  obtain ⟨scans, reads'⟩ := first _ _ reads
  obtain ⟨scans', later'⟩ := second value middle reads scans _ _ later
  exact ⟨scans.trans scans', reads'.bind later'⟩

/-- With a description of what was expected. -/
theorem expecting {what : String} (keeps : parser.Keeps more text) :
    (Parser.expecting what parser).Keeps more text := fun value rest reads =>
  (keeps value rest (reads_expecting_iff.1 reads)).imp_right (Reads.expecting what)

/-- With commitment. -/
theorem commit (keeps : parser.Keeps more text) :
    (Parser.commit parser).Keeps more text := fun value rest reads =>
  (keeps value rest (reads_commit_iff.1 reads)).imp_right Reads.commit

end Keeps

namespace Steady

/-- First one thing and then another. -/
theorem bind {next : α → Parser β} (first : parser.Steady more text)
    (second : ∀ value rest, parser.Reads text value rest → Scans text rest →
      (next value).Steady more rest) :
    Steady more (parser >>= next) text := by
  refine ⟨first.keeps.bind fun value rest reads scans => (second value rest reads scans).keeps,
    fun declines => ?_⟩
  rcases declines_bind_iff.1 declines with declines | ⟨value, middle, reads, later⟩
  · exact (first.declines declines).bind next
  · obtain ⟨scans, reads'⟩ := first.keeps _ _ reads
    exact reads'.bind_declines ((second value middle reads scans).declines later)

/-- Alternatives. -/
theorem orElse (first : parser.Steady more text)
    (second : parser.Declines text → other.Steady more text) :
    (Parser.orElse parser other).Steady more text := by
  refine ⟨fun value rest reads => ?_, fun declines => ?_⟩
  · rcases reads_orElse_iff.1 reads with reads | ⟨declines, reads⟩
    · exact ⟨(first.keeps _ _ reads).1, (first.keeps _ _ reads).2.orElse _⟩
    · have reads' := (second declines).keeps _ _ reads
      exact ⟨reads'.1, (first.declines declines).orElse reads'.2⟩
  · obtain ⟨declines, declines'⟩ := declines_orElse_iff.1 declines
    exact (first.declines declines).orElse_declines ((second declines).declines declines')

/-- What may be there. -/
theorem optional (steady : parser.Steady more text) :
    (Parser.optional parser).Steady more text := by
  refine ⟨fun result rest reads => ?_, fun declines => absurd declines not_declines_optional⟩
  rcases reads_optional_iff.1 reads with ⟨value, rfl, inner⟩ | ⟨rfl, rfl, declines⟩
  · exact ⟨(steady.keeps _ _ inner).1, (steady.keeps _ _ inner).2.optional⟩
  · exact ⟨.refl, (steady.declines declines).optional⟩

/-- With a description of what was expected. -/
theorem expecting {what : String} (steady : parser.Steady more text) :
    (Parser.expecting what parser).Steady more text := by
  exact ⟨steady.keeps.expecting,
    fun declines => (steady.declines (declines_expecting_iff.1 declines)).expecting what⟩

/-- What is declined with further lines and without them. -/
theorem of_declines (declines : parser.Declines text)
    (declines' : parser.Declines (text ++ '\n' :: more)) : parser.Steady more text :=
  ⟨fun _ _ reads => absurd declines reads.not_declines, fun _ => declines'⟩

end Steady

end RuleGraph.Parser
