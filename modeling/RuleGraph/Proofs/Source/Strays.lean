import RuleGraph.Proofs.Source.Drifting
import RuleGraph.Proofs.Source.Local

/-! # Parsers that run into further lines

Where a text ends, a parser may go on with the lines behind it. It either does what it does without
them, or it comes to a place there where no bracket is closed, and without them it leaves a text that
no bracket closes either.

* **`Parser.Strays`** — a parser does the same with further lines, or runs into them.
* **`Parser.Separates`** — what separators of values have to do with that.
* **`Parser.Strays.followed`**, **`Parser.Strays.separated`** — values in a row.
* **`Parser.Steady.of_strays`** — behind what nothing is read that has run into further lines.
-/

namespace RuleGraph.Parser

open RuleGraph.Source

variable {α β : Type} {parser : Parser α} {separator : Parser Unit}
  {text more rest middle : List Char} {dead dead' : List Char → Prop} {value : α}

/-- With further lines a parser does what it does without them, or it runs into them. What it then
has left without them is dead. -/
structure Strays (more : List Char) (dead : List Char → Prop) (parser : Parser α)
    (text : List Char) : Prop where
  /-- It reads the same, or runs into the further lines. -/
  reads : ∀ value rest, parser.Reads text value rest → Scans text rest ∧
    (parser.Reads (text ++ '\n' :: more) value (rest ++ '\n' :: more) ∨
      dead rest ∧ ∃ value' rest', parser.Reads (text ++ '\n' :: more) value' rest' ∧ Adrift rest')
  /-- It declines, or runs into the further lines. -/
  declines : parser.Declines text → parser.Drifts Adrift (text ++ '\n' :: more)

/-- What is read between values, and what that has to do with further lines. -/
structure Separates (more : List Char) (dead dead' : List Char → Prop) (separator : Parser Unit)
    (parser : Parser α) : Prop where
  /-- A round takes a character. -/
  advances : (Parser.bind separator fun _ => parser).Advances
  /-- Separators have nothing to do with further lines. -/
  steady : ∀ text, separator.Steady more text
  /-- What is dead behind a value is dead behind a row of them. -/
  wider : ∀ rest, dead rest → dead' rest
  /-- No separator stands behind a dead value. -/
  stops : ∀ rest, dead rest → separator.Declines rest
  /-- A separator is dead if a value is read behind it with further lines only. -/
  next : ∀ rest middle, separator.Reads rest () middle →
    ¬parser.Declines (middle ++ '\n' :: more) → dead' rest
  /-- A value behind a separator in the further lines leads there again. -/
  drifts : ∀ rest, Adrift rest → (Parser.bind separator fun _ => parser).Drifts Adrift rest

/-- A parser that does the same with further lines does not run into them. -/
theorem Steady.strays (steady : parser.Steady more text) : parser.Strays more dead text :=
  ⟨fun value rest reads => (steady.keeps value rest reads).imp_right .inl,
    fun declines => .inl (steady.declines declines)⟩

/-- What follows it may. -/
theorem Steady.bind_strays {next : α → Parser β} (first : parser.Steady more text)
    (second : ∀ value rest, parser.Reads text value rest → Scans text rest →
      (next value).Strays more dead rest) :
    Strays more dead (parser >>= next) text := by
  refine ⟨fun result rest reads => ?_, fun declines => ?_⟩
  · obtain ⟨value, middle, reads, later⟩ := reads_bind_iff.1 reads
    obtain ⟨scans, same⟩ := first.keeps value middle reads
    obtain ⟨scans', kept⟩ := (second value middle reads scans).reads result rest later
    refine ⟨scans.trans scans', kept.imp same.bind ?_⟩
    rintro ⟨isDead, result', rest', later', adrift⟩
    exact ⟨isDead, result', rest', same.bind later', adrift⟩
  · rcases declines_bind_iff.1 declines with declines | ⟨value, middle, reads, later⟩
    · exact .inl ((first.declines declines).bind next)
    · obtain ⟨scans, same⟩ := first.keeps value middle reads
      exact .behind same ((second value middle reads scans).declines later)

/-- Values in a row are read as they are without further lines. -/
theorem Steady.many (advances : parser.Advances) (steady : ∀ text, parser.Steady more text) :
    (many parser).Steady more text := by
  refine ⟨fun values rest reads => ?_, fun declines => absurd declines not_declines_many⟩
  suffices all : Scans text rest ∧
      ReadsAll parser (text ++ '\n' :: more) values (rest ++ '\n' :: more) from
    all.imp_right ReadsAll.many
  have all := reads.readsAll advances
  clear reads
  induction all with
  | none declines => exact ⟨.refl, .none ((steady _).declines declines)⟩
  | more first _ _ ih =>
    obtain ⟨scans, first'⟩ := (steady _).keeps _ _ first
    exact ⟨scans.trans ih.1, .more first' (advances _ _ _ first') ih.2⟩

/-- What follows a parser that reads the same or nothing. -/
theorem Strays.bind {next : α → Parser β} (first : parser.Strays more (fun _ => False) text)
    (second : ∀ value rest, parser.Reads text value rest → Scans text rest →
      (next value).Strays more dead rest)
    (drifts : ∀ value rest, Adrift rest → (next value).Drifts Adrift rest) :
    Strays more dead (parser >>= next) text := by
  have keeps : parser.Keeps more text := fun value rest reads =>
    (first.reads value rest reads).imp_right (Or.resolve_right · fun never => never.1)
  refine ⟨fun result rest reads => ?_, fun declines => ?_⟩
  · obtain ⟨value, middle, reads, later⟩ := reads_bind_iff.1 reads
    obtain ⟨scans, same⟩ := keeps value middle reads
    obtain ⟨scans', kept⟩ := (second value middle reads scans).reads result rest later
    refine ⟨scans.trans scans', kept.imp same.bind ?_⟩
    rintro ⟨isDead, result', rest', later', adrift⟩
    exact ⟨isDead, result', rest', same.bind later', adrift⟩
  · rcases declines_bind_iff.1 declines with declines | ⟨value, middle, reads, later⟩
    · exact (first.declines declines).bind fun value rest _ adrift => drifts value rest adrift
    · obtain ⟨scans, same⟩ := keeps value middle reads
      exact .behind same ((second value middle reads scans).declines later)

/-- With a description of what was expected. -/
theorem Strays.expecting {what : String} (strays : parser.Strays more dead text) :
    (Parser.expecting what parser).Strays more dead text := by
  refine ⟨fun value rest reads => ?_, fun declines =>
    (strays.declines (declines_expecting_iff.1 declines)).expecting⟩
  refine (strays.reads value rest (reads_expecting_iff.1 reads)).imp_right
    (Or.imp (Reads.expecting what) ?_)
  rintro ⟨isDead, value', rest', reads', adrift⟩
  exact ⟨isDead, value', rest', reads'.expecting what, adrift⟩

/-- With commitment. -/
theorem Strays.commit (strays : parser.Strays more dead text) :
    (Parser.commit parser).Strays more dead text := by
  refine ⟨fun value rest reads => ?_, fun declines => absurd declines not_declines_commit⟩
  refine (strays.reads value rest (reads_commit_iff.1 reads)).imp_right (Or.imp Reads.commit ?_)
  rintro ⟨isDead, value', rest', reads', adrift⟩
  exact ⟨isDead, value', rest', reads'.commit, adrift⟩

namespace Separates

variable (row : Separates more dead dead' separator parser)
include row

/-- Behind a dead value there are no others. -/
theorem further_of_dead (isDead : dead rest) : (further separator parser).Reads rest [] rest :=
  (ReadsAll.none ((row.stops rest isDead).bind _)).many

/-- In the further lines other values lead there again. -/
theorem further_of_adrift (adrift : Adrift rest) : ∃ values rest',
    ReadsAll (Parser.bind separator fun _ => parser) rest values rest' ∧ Adrift rest' :=
  Drifts.readsAll row.advances row.drifts adrift

/-- **Values behind separators.** -/
theorem further (each : ∀ middle, Scans text middle → parser.Strays more dead middle) :
    (Parser.further separator parser).Strays more dead' text := by
  refine ⟨fun values rest reads => ?_, fun declines => absurd declines not_declines_many⟩
  suffices all : Scans text rest ∧
      (ReadsAll (Parser.bind separator fun _ => parser) (text ++ '\n' :: more) values
          (rest ++ '\n' :: more) ∨
        dead' rest ∧ ∃ values' rest', ReadsAll (Parser.bind separator fun _ => parser)
          (text ++ '\n' :: more) values' rest' ∧ Adrift rest') by
    refine all.imp_right (Or.imp ReadsAll.many ?_)
    rintro ⟨isDead, values', rest', all, adrift⟩
    exact ⟨isDead, values', rest', all.many, adrift⟩
  have all := reads.readsAll row.advances
  clear reads
  -- A round that runs into further lines is the last one without them.
  have astray : ∀ {text value' middle'},
      (Parser.bind separator fun _ => parser).Reads (text ++ '\n' :: more) value' middle' →
      Adrift middle' → ∃ values' rest', ReadsAll (Parser.bind separator fun _ => parser)
        (text ++ '\n' :: more) values' rest' ∧ Adrift rest' := by
    intro text value' middle' round adrift
    obtain ⟨values', rest', others, adrift'⟩ := row.further_of_adrift adrift
    exact ⟨_, rest', .more round (row.advances _ _ _ round) others, adrift'⟩
  induction all with
  | @none text declines =>
    refine ⟨.refl, ?_⟩
    rcases declines_bind_iff.1 declines with declines | ⟨_, middle, separation, declines⟩
    · exact .inl (.none (((row.steady text).declines declines).bind _))
    obtain ⟨scans, separation'⟩ := (row.steady text).keeps _ _ separation
    rcases (each middle scans).declines declines with declines' | ⟨value', middle', reads', adrift⟩
    · exact .inl (.none (separation'.bind_declines declines'))
    · exact .inr ⟨row.next text middle separation reads'.not_declines,
        astray (separation'.bind reads') adrift⟩
  | @more text middle rest value values first _ others ih =>
    obtain ⟨⟨⟩, between, separation, reads⟩ := reads_bind_iff.1 first
    obtain ⟨scans, separation'⟩ := (row.steady text).keeps _ _ separation
    obtain ⟨scans', kept⟩ := (each between scans).reads value middle reads
    rcases kept with same | ⟨isDead, value', middle', reads', adrift⟩
    · obtain ⟨scans'', later⟩ := ih fun middle' scans'' =>
        each middle' ((scans.trans scans').trans scans'')
      refine ⟨(scans.trans scans').trans scans'', ?_⟩
      have first' : (Parser.bind separator fun _ => parser).Reads (text ++ '\n' :: more) value
          (middle ++ '\n' :: more) := Reads.bind separation' same
      have shorter := row.advances _ _ _ first'
      rcases later with others' | ⟨isDead, values', rest', others', adrift⟩
      · exact .inl (.more first' shorter others')
      · exact .inr ⟨isDead, _, rest', .more first' shorter others', adrift⟩
    · cases others with
      | none => exact ⟨scans.trans scans', .inr ⟨row.wider _ isDead,
          astray (separation'.bind reads') adrift⟩⟩
      | more round =>
        exact absurd ((row.stops _ isDead).bind _) round.not_declines

/-- **A first value and others behind separators.** -/
theorem followed (first : parser.Strays more dead text)
    (each : ∀ middle, Scans text middle → parser.Strays more dead middle)
    (combine : α → List α → β) :
    (do
      let value ← parser
      let values ← Parser.further separator parser
      return combine value values : Parser β).Strays more dead' text := by
  refine ⟨fun result rest reads => ?_, fun declines => ?_⟩
  · obtain ⟨value, middle, onFirst, later⟩ := reads_bind_iff.1 reads
    obtain ⟨values, rest', onOthers, last⟩ := reads_bind_iff.1 later
    obtain ⟨rfl, rfl⟩ := reads_pure_iff.1 last
    obtain ⟨scans, same | ⟨isDead, value', middle', reads', adrift⟩⟩ :=
      first.reads value middle onFirst
    · obtain ⟨scans', kept⟩ := (row.further fun middle' scans' =>
        each middle' (scans.trans scans')).reads values rest onOthers
      refine ⟨scans.trans scans', kept.imp (fun later => same.bind (later.bind .pure)) ?_⟩
      rintro ⟨isDead, values', rest', later, adrift⟩
      exact ⟨isDead, _, rest', same.bind (later.bind .pure), adrift⟩
    · cases onOthers.symm.trans (row.further_of_dead isDead)
      obtain ⟨values', rest', others, adrift'⟩ := row.further_of_adrift adrift
      exact ⟨scans, .inr ⟨row.wider _ isDead, _, rest',
        reads'.bind (others.many.bind .pure), adrift'⟩⟩
  · rcases declines_bind_iff.1 declines with declines | ⟨_, _, -, declines⟩
    · rcases first.declines declines with declines | ⟨value', middle', reads', adrift⟩
      · exact .inl (declines.bind _)
      · obtain ⟨values', rest', others, adrift'⟩ := row.further_of_adrift adrift
        exact .inr ⟨_, rest', reads'.bind (others.many.bind .pure), adrift'⟩
    · exact absurd declines (not_declines_bind not_declines_many fun _ _ => not_declines_pure)

/-- **Any number of values.** If there are none without the further lines, but some with them, the
text is dead. -/
theorem separated (first : parser.Strays more dead text)
    (each : ∀ middle, Scans text middle → parser.Strays more dead middle)
    (none : ¬parser.Declines (text ++ '\n' :: more) → dead' text) :
    (Parser.separated separator parser).Strays more dead' text := by
  refine ⟨fun values rest reads => ?_, fun declines => absurd declines not_declines_separated⟩
  rcases reads_separated_iff.1 reads with ⟨declines, rfl, rfl⟩ | reads
  · refine ⟨.refl, ?_⟩
    rcases first.declines declines with declines' | ⟨value', middle', reads', adrift⟩
    · exact .inl (reads_separated_iff.2 (.inl ⟨declines', rfl, rfl⟩))
    · obtain ⟨values', rest', others, adrift'⟩ := row.further_of_adrift adrift
      exact .inr ⟨none reads'.not_declines, value' :: values', rest',
        reads_separated_iff.2 (.inr (reads'.bind (others.many.bind .pure))), adrift'⟩
  · obtain ⟨scans, kept⟩ := (row.followed first each List.cons).reads values rest reads
    refine ⟨scans, kept.imp (fun same => reads_separated_iff.2 (.inr same)) ?_⟩
    rintro ⟨isDead, values', rest', reads', adrift⟩
    exact ⟨isDead, values', rest', reads_separated_iff.2 (.inr reads'), adrift⟩

end Separates

/-- **Behind what is dead nothing is read**, so that what runs into further lines is not read with
them either. -/
theorem Steady.of_strays {next : α → Parser β} (first : parser.Strays more dead text)
    (same : ∀ value rest, parser.Reads text value rest → Scans text rest →
      (next value).Steady more rest)
    (stops : ∀ value rest, dead rest → (next value).Declines rest)
    (closed : ∀ value rest, Adrift rest → (next value).Declines rest) :
    Steady more (parser >>= next) text := by
  refine ⟨fun result rest reads => ?_, fun declines => ?_⟩
  · obtain ⟨value, middle, reads, later⟩ := reads_bind_iff.1 reads
    obtain ⟨scans, reads' | ⟨isDead, -⟩⟩ := first.reads value middle reads
    · exact ((same value middle reads scans).keeps result rest later).imp scans.trans reads'.bind
    · exact absurd (stops value middle isDead) later.not_declines
  · rcases declines_bind_iff.1 declines with declines | ⟨value, middle, reads, later⟩
    · rcases first.declines declines with declines | ⟨value', middle', reads', adrift⟩
      · exact declines.bind next
      · exact reads'.bind_declines (closed value' middle' adrift)
    · obtain ⟨scans, reads' | ⟨isDead, value', middle', reads', adrift⟩⟩ :=
        first.reads value middle reads
      · exact reads'.bind_declines ((same value middle reads scans).declines later)
      · exact reads'.bind_declines (closed value' middle' adrift)

/-- What is read behind something that is not dead is read with further lines. -/
theorem Keeps.of_strays {next : α → Parser β} (first : parser.Strays more dead text)
    (same : ∀ value rest, parser.Reads text value rest → Scans text rest →
      (next value).Keeps more rest)
    (stops : ∀ value rest, dead rest → ∀ result rest', ¬(next value).Reads rest result rest') :
    Keeps more (parser >>= next) text := by
  intro result rest reads
  obtain ⟨value, middle, reads, later⟩ := reads_bind_iff.1 reads
  obtain ⟨scans, reads' | ⟨isDead, -⟩⟩ := first.reads value middle reads
  · exact (same value middle reads scans result rest later).imp scans.trans reads'.bind
  · exact absurd later (stops value middle isDead result rest)

end RuleGraph.Parser
