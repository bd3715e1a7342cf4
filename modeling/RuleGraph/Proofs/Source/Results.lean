import RuleGraph.Proofs.Source.Reads
import Mathlib.Data.List.TakeWhile

/-! # What parsers yield

Whatever text a parser reads, its value is of a kind and what it leaves is an end of the text. The
kind of a whole follows from the kinds of its parts.

* **`Parser.reads_bind_iff`**, **`Parser.reads_orElse_iff`**, **`Parser.reads_optional_iff`** — what
  was read by a sequence, by one of two alternatives and by an optional part.
* **`Parser.Yields`** — all values of a parser are of a kind.
* **`Parser.Yields.bind`**, **`Parser.Yields.many`**, **`Parser.Yields.separated`** — sequences and
  repetition.
-/

namespace RuleGraph.Parser

variable {α β : Type} {parser other : Parser α} {text middle rest : List Char} {value : α}

/-! ## Looking back -/

/-- What a sequence has read. -/
theorem reads_bind_iff {next : α → Parser β} {result : β} :
    Reads (parser >>= next) text result rest ↔
      ∃ value middle, parser.Reads text value middle ∧ (next value).Reads middle result rest := by
  constructor
  · intro reads
    rw [Reads, show (parser >>= next) text = Parser.bind parser next text from rfl,
      Parser.bind] at reads
    split at reads
    · rename_i value middle first
      exact ⟨value, middle, first, reads⟩
    · cases reads
  · rintro ⟨value, middle, first, second⟩
    exact first.bind second

/-- A known value is what it is, and nothing was read for it. -/
theorem reads_pure_iff {value' : α} :
    Reads (pure value) text value' rest ↔ value' = value ∧ rest = text := by
  rw [Reads, show (pure value : Parser α) text = (.ok value, text) from rfl, Prod.mk.injEq,
    Except.ok.injEq, eq_comm, @eq_comm _ text]

/-- Where a parser reads, it does not decline. -/
theorem Reads.not_declines (reads : parser.Reads text value rest) : ¬parser.Declines text := by
  rintro ⟨expected, left, failed⟩
  rw [reads] at failed
  cases failed

/-- What one of two alternatives has read. -/
theorem reads_orElse_iff : (orElse parser other).Reads text value rest ↔
    parser.Reads text value rest ∨ parser.Declines text ∧ other.Reads text value rest := by
  constructor
  · intro reads
    rw [Reads, orElse] at reads
    split at reads
    · rename_i expected left declined
      split at reads
      · cases reads
      · exact .inr ⟨⟨expected, left, declined⟩, reads⟩
    · exact .inl reads
  · rintro (reads | ⟨declines, reads⟩)
    · exact reads.orElse _
    · exact declines.orElse reads

/-- Where the first of two alternatives declines it is the second that reads. -/
theorem Declines.reads_orElse_iff (declines : parser.Declines text) :
    (Parser.orElse parser other).Reads text value rest ↔ other.Reads text value rest := by
  refine ⟨fun reads => ?_, declines.orElse⟩
  rcases Parser.reads_orElse_iff.1 reads with reads | ⟨-, reads⟩
  · exact absurd declines reads.not_declines
  · exact reads

/-- What an optional part has read. -/
theorem reads_optional_iff {result : Option α} : (optional parser).Reads text result rest ↔
    (∃ value, result = some value ∧ parser.Reads text value rest) ∨
      result = none ∧ rest = text ∧ parser.Declines text := by
  constructor
  · intro reads
    rw [Reads, optional] at reads
    split at reads
    · rename_i value left read
      cases reads
      exact .inl ⟨value, rfl, read⟩
    · rename_i expected left declined
      cases reads
      exact .inr ⟨rfl, rfl, expected, left, declined⟩
    · cases reads
  · rintro (⟨value, rfl, reads⟩ | ⟨rfl, rfl, declines⟩)
    · exact reads.optional
    · exact declines.optional

/-- Separated values are none or at least one. -/
theorem reads_separated_iff {separator : Parser Unit} {values : List α} :
    (separated separator parser).Reads text values rest ↔
      parser.Declines text ∧ values = [] ∧ rest = text ∨
        (separated1 separator parser).Reads text values rest := by
  constructor
  · intro reads
    obtain ⟨result, middle, first, later⟩ := reads_bind_iff.1 reads
    rcases reads_optional_iff.1 first with ⟨value, rfl, onFirst⟩ | ⟨rfl, rfl, declines⟩
    · exact .inr (onFirst.bind later)
    · exact .inl ⟨declines, reads_pure_iff.1 later⟩
  · rintro (⟨declines, rfl, rfl⟩ | reads)
    · exact declines.optional.bind .pure
    · obtain ⟨value, middle, first, later⟩ := reads_bind_iff.1 reads
      exact first.optional.bind later

/-- A description of what was expected has nothing to do with what was read. -/
theorem reads_expecting_iff {what : String} :
    (expecting what parser).Reads text value rest ↔ parser.Reads text value rest := by
  refine ⟨fun reads => ?_, Reads.expecting what⟩
  rw [Reads, expecting] at reads
  split at reads
  · cases reads
  · exact reads

/-- Nor has commitment. -/
theorem reads_commit_iff :
    (commit parser).Reads text value rest ↔ parser.Reads text value rest := by
  refine ⟨fun reads => ?_, Reads.commit⟩
  rw [Reads, commit] at reads
  split at reads
  · cases reads
  · exact reads

/-- A sequence declines where its first part does, or where what follows that does. -/
theorem declines_bind_iff {next : α → Parser β} : Declines (parser >>= next) text ↔
    parser.Declines text ∨
      ∃ value middle, parser.Reads text value middle ∧ (next value).Declines middle := by
  constructor
  · rintro ⟨expected, rest, failed⟩
    rw [show (parser >>= next) text = Parser.bind parser next text from rfl, Parser.bind] at failed
    split at failed
    · rename_i value middle first
      exact .inr ⟨value, middle, first, expected, rest, failed⟩
    · rename_i failure left first
      cases failed
      exact .inl ⟨expected, rest, first⟩
  · rintro (first | ⟨value, middle, first, second⟩)
    · exact first.bind next
    · exact first.bind_declines second

/-- What declines nowhere declines nowhere in a sequence. -/
theorem not_declines_bind {next : α → Parser β} (first : ¬parser.Declines text)
    (second : ∀ value rest, ¬(next value).Declines rest) : ¬Declines (parser >>= next) text :=
  fun declines => (declines_bind_iff.1 declines).elim first fun ⟨value, rest, _, declines⟩ =>
    second value rest declines

/-- A known value is not declined. -/
theorem not_declines_pure : ¬Declines (pure value) text := by
  rintro ⟨expected, rest, failed⟩
  cases failed

/-- Two alternatives decline where both do. -/
theorem declines_orElse_iff :
    (orElse parser other).Declines text ↔ parser.Declines text ∧ other.Declines text := by
  constructor
  · rintro ⟨expected, rest, failed⟩
    rw [orElse] at failed
    split at failed
    · rename_i expected' left first
      split at failed
      · rename_i expected'' left' second
        exact ⟨⟨expected', left, first⟩, expected'', left', second⟩
      · rename_i final
        exact absurd failed (final _ _)
    · rename_i final
      exact absurd failed (final _ _)
  · exact fun both => both.1.orElse_declines both.2

/-- A description of what was expected has nothing to do with declining. -/
theorem declines_expecting_iff {what : String} :
    (expecting what parser).Declines text ↔ parser.Declines text := by
  refine ⟨?_, Declines.expecting what⟩
  rintro ⟨expected, rest, failed⟩
  rw [expecting] at failed
  split at failed
  · rename_i failure left first
    obtain ⟨isFinal, expected'⟩ := failure
    cases failed
    exact ⟨expected', rest, first⟩
  · rename_i other
    exact absurd failed (other _ _)

/-- What may be there is never declined. -/
theorem not_declines_optional : ¬(optional parser).Declines text := by
  rintro ⟨expected, rest, failed⟩
  rw [optional] at failed
  split at failed
  · cases failed
  · cases failed
  · rename_i notTentative first
    cases failed
    exact notTentative _ rfl

/-- Behind a commitment nothing is declined. -/
theorem not_declines_commit : ¬(commit parser).Declines text := by
  rintro ⟨expected, rest, failed⟩
  rw [commit] at failed
  split at failed
  · cases failed
  · rename_i other
    exact other _ _ failed

/-- Values in a row are never declined. -/
theorem not_declines_many : ¬(many parser).Declines text := by
  rintro ⟨expected, rest, failed⟩
  rw [many] at failed
  generalize text.length + 1 = rounds at failed
  induction rounds generalizing text rest with
  | zero => cases failed
  | succ rounds ih =>
    simp only [manyUpTo] at failed
    split at failed
    · rename_i value middle first
      split at failed
      · cases failed
      · rename_i failure left later
        cases failed
        exact ih _ later
    · cases failed
    · rename_i notTentative _
      cases failed
      exact notTentative _ rfl

/-- Nor are separated values. -/
theorem not_declines_separated {separator : Parser Unit} :
    ¬(separated separator parser).Declines text := by
  refine not_declines_bind not_declines_optional fun first _ => ?_
  cases first with
  | none => exact not_declines_pure
  | some first => exact not_declines_bind not_declines_many fun _ _ => not_declines_pure

/-- What was read in a row holds of any relation that holds of nothing and is kept by one more. -/
theorem Reads.of_many (holds : List Char → List α → List Char → Prop) {values : List α}
    (none : ∀ text, holds text [] text)
    (more : ∀ {text middle rest value values}, parser.Reads text value middle →
      holds middle values rest → holds text (value :: values) rest)
    (reads : (many parser).Reads text values rest) : holds text values rest := by
  rw [Reads, many] at reads
  generalize text.length + 1 = rounds at reads
  induction rounds generalizing text values with
  | zero =>
    cases reads
    exact none rest
  | succ rounds ih =>
    simp only [manyUpTo] at reads
    split at reads
    · rename_i value middle first
      split at reads
      · rename_i values' rest' others
        cases reads
        exact more first (ih others)
      · cases reads
    · cases reads
      exact none rest
    · cases reads

/-- What was taken for satisfying a test. -/
theorem reads_satisfy_iff {test : Char → Bool} {c : Char} :
    (satisfy test).Reads text c rest ↔ text = c :: rest ∧ test c = true := by
  constructor
  · intro reads
    cases text with
    | nil => cases reads
    | cons d text =>
      rw [Reads, satisfy] at reads
      split at reads
      · rename_i satisfies
        cases reads
        exact ⟨rfl, satisfies⟩
      · cases reads
  · rintro ⟨rfl, satisfies⟩
    exact reads_satisfy satisfies

/-- What was taken as given characters. -/
theorem reads_literal_iff {letters : List Char} :
    (literal letters).Reads text () rest ↔ text = letters ++ rest := by
  refine ⟨fun reads => ?_, fun same => same ▸ reads_literal letters⟩
  rcases agrees_or_declines_literalBy (fun a b => a = b) letters text with
    ⟨front, rest', rfl, agrees⟩ | declines
  · cases (reads_literalBy agrees).symm.trans reads
    have same : List.Forall₂ Eq front letters := agrees.imp fun _ _ => of_decide_eq_true
    rw [List.forall₂_eq_eq_eq] at same
    rw [same]
  · exact absurd declines reads.not_declines

/-- What was taken as a run of characters that satisfy a test. -/
theorem Reads.eq_append_of_run1 {test : Char → Bool} {front : List Char}
    (reads : (run1 test).Reads text front rest) :
    text = front ++ rest ∧ ∀ c ∈ front, test c = true := by
  rw [Reads, run1] at reads
  split at reads <;> cases reads
  exact ⟨List.takeWhile_append_dropWhile.symm, fun c => List.mem_takeWhile_imp⟩

/-! ## What a parser may come to -/

/-- A parser declines a text, or leaves one of a kind when it reads it: it does not fail finally. -/
def Drifts (kind : List Char → Prop) (parser : Parser α) (text : List Char) : Prop :=
  parser.Declines text ∨ ∃ value rest, parser.Reads text value rest ∧ kind rest

namespace Drifts

variable {kind kind' : List Char → Prop}

/-- A known value. -/
theorem pure (isKind : kind text) : Drifts kind (Pure.pure value) text :=
  .inr ⟨value, text, .pure, isKind⟩

/-- First one thing and then another. -/
theorem bind {next : α → Parser β} (first : parser.Drifts kind text)
    (second : ∀ value rest, parser.Reads text value rest → kind rest →
      (next value).Drifts kind' rest) :
    Drifts kind' (parser >>= next) text := by
  rcases first with declines | ⟨value, middle, reads, isKind⟩
  · exact .inl (declines.bind next)
  · rcases second value middle reads isKind with declines | ⟨result, rest, later, isKind'⟩
    · exact .inl (reads.bind_declines declines)
    · exact .inr ⟨result, rest, reads.bind later, isKind'⟩

/-- What is known to be read first. -/
theorem behind {next : α → Parser β} (first : parser.Reads text value middle)
    (second : (next value).Drifts kind middle) : Drifts kind (parser >>= next) text :=
  second.imp first.bind_declines fun ⟨result, rest, later, isKind⟩ =>
    ⟨result, rest, first.bind later, isKind⟩

/-- With a description of what was expected. -/
theorem expecting {what : String} (drifts : parser.Drifts kind text) :
    (Parser.expecting what parser).Drifts kind text :=
  drifts.imp (Declines.expecting what) fun ⟨value, rest, reads, isKind⟩ =>
    ⟨value, rest, reads.expecting what, isKind⟩

/-- A character that satisfies a test. -/
theorem satisfy {test : Char → Bool} : (Parser.satisfy test).Drifts (fun _ => True) text := by
  cases text with
  | nil => exact .inl ⟨[], [], rfl⟩
  | cons c rest =>
    by_cases satisfies : test c = true
    · exact .inr ⟨c, rest, reads_satisfy satisfies, trivial⟩
    · exact .inl (declines_satisfy (by rintro d ⟨⟩; exact Bool.eq_false_iff.2 satisfies))

/-- Characters that satisfy a test, at least one. -/
theorem run1 {test : Char → Bool} : (Parser.run1 test).Drifts (fun _ => True) text := by
  by_cases none : (text.takeWhile test).isEmpty = true
  · exact .inl ⟨[], text, by rw [Parser.run1, if_pos none]; rfl⟩
  · exact .inr ⟨_, _, by rw [Reads, Parser.run1, if_neg none], trivial⟩

end Drifts

/-! ## Kinds of values -/

/-- Whatever a parser reads, the value is of a kind, and an end of the text is left. -/
def Yields (kind : α → Prop) (parser : Parser α) : Prop :=
  ∀ text value rest, parser.Reads text value rest → kind value ∧ rest <:+ text

namespace Yields

variable {kind kind' : α → Prop} {kindOf : β → Prop}

/-- Values of a kind are of any wider one. -/
theorem mono (wider : ∀ value, kind value → kind' value) (yields : parser.Yields kind) :
    parser.Yields kind' := by
  intro text value rest reads
  obtain ⟨isKind, isEnd⟩ := yields text value rest reads
  exact ⟨wider value isKind, isEnd⟩

/-- A known value. -/
theorem pure (isKind : kind value) : Yields kind (Pure.pure value) := by
  intro text value' rest reads
  obtain ⟨rfl, rfl⟩ := reads_pure_iff.1 reads
  exact ⟨isKind, List.suffix_refl _⟩

/-- Of which nothing has to be known. -/
theorem known : Yields (fun _ => True) (Pure.pure value) := pure trivial

/-- No value at all. -/
theorem fail {failure : Failure} : Yields kind (fail failure) := by
  intro text value rest reads
  cases reads

/-- First one thing and then another. -/
theorem bind {next : α → Parser β} (first : parser.Yields kind)
    (second : ∀ value, kind value → (next value).Yields kindOf) :
    Yields kindOf (parser >>= next) := by
  intro text result rest reads
  obtain ⟨value, middle, reads, later⟩ := reads_bind_iff.1 reads
  obtain ⟨isKind, isEnd⟩ := first text value middle reads
  obtain ⟨isKindOf, isEnd'⟩ := second value isKind middle result rest later
  exact ⟨isKindOf, isEnd'.trans isEnd⟩

/-- Alternatives. -/
theorem orElse (first : parser.Yields kind) (second : other.Yields kind) :
    (Parser.orElse parser other).Yields kind := by
  intro text value rest reads
  rcases reads_orElse_iff.1 reads with reads | ⟨-, reads⟩
  · exact first text value rest reads
  · exact second text value rest reads

/-- What may be there. -/
theorem optional (yields : parser.Yields kind) :
    (Parser.optional parser).Yields fun result => ∀ value ∈ result, kind value := by
  intro text result rest reads
  rcases reads_optional_iff.1 reads with ⟨value, rfl, inner⟩ | ⟨rfl, rfl, -⟩
  · obtain ⟨isKind, isEnd⟩ := yields text value rest inner
    exact ⟨fun _ same => Option.some_inj.1 same ▸ isKind, isEnd⟩
  · exact ⟨fun _ same => absurd same (Option.not_mem_none _), List.suffix_refl _⟩

/-- What may not follow. -/
theorem notFollowedBy : (Parser.notFollowedBy parser).Yields fun _ => True := by
  intro text value rest reads
  rw [Reads, Parser.notFollowedBy] at reads
  split at reads <;> cases reads
  exact ⟨trivial, List.suffix_refl _⟩

/-- With a description of what was expected. -/
theorem expecting {what : String} (yields : parser.Yields kind) :
    (Parser.expecting what parser).Yields kind :=
  fun text value rest reads => yields text value rest (reads_expecting_iff.1 reads)

/-- With commitment. -/
theorem commit (yields : parser.Yields kind) : (Parser.commit parser).Yields kind :=
  fun text value rest reads => yields text value rest (reads_commit_iff.1 reads)

/-- Values in a row. -/
theorem many (yields : parser.Yields kind) :
    (Parser.many parser).Yields fun values => ∀ value ∈ values, kind value := by
  intro text values rest reads
  refine reads.of_many (fun text values rest => (∀ value ∈ values, kind value) ∧ rest <:+ text)
    (fun text => ⟨by simp, List.suffix_refl _⟩) ?_
  rintro text middle rest value values first ⟨all, isEnd⟩
  obtain ⟨isKind, isEnd'⟩ := yields text value middle first
  exact ⟨List.forall_mem_cons.2 ⟨isKind, all⟩, isEnd.trans isEnd'⟩

/-- Values behind separators. -/
theorem further {separator : Parser Unit} (between : separator.Yields fun _ => True)
    (yields : parser.Yields kind) :
    (Parser.further separator parser).Yields fun values => ∀ value ∈ values, kind value :=
  many (between.bind fun _ _ => yields)

/-- At least one value, separated. -/
theorem separated1 {separator : Parser Unit} (between : separator.Yields fun _ => True)
    (yields : parser.Yields kind) : (Parser.separated1 separator parser).Yields fun values =>
      values ≠ [] ∧ ∀ value ∈ values, kind value :=
  yields.bind fun _ isKind => (further between yields).bind fun _ all =>
    .pure ⟨List.cons_ne_nil _ _, List.forall_mem_cons.2 ⟨isKind, all⟩⟩

/-- Any number of values, separated. -/
theorem separated {separator : Parser Unit} (between : separator.Yields fun _ => True)
    (yields : parser.Yields kind) :
    (Parser.separated separator parser).Yields fun values => ∀ value ∈ values, kind value := by
  refine yields.optional.bind fun result isKind => ?_
  cases result with
  | none => exact .pure (by simp)
  | some first =>
    exact (further between yields).bind fun _ all =>
      .pure (List.forall_mem_cons.2 ⟨isKind first rfl, all⟩)

/-! ## Characters -/

/-- A character that satisfies a test. -/
theorem satisfy {test : Char → Bool} : (Parser.satisfy test).Yields fun c => test c = true := by
  intro text c rest reads
  cases text with
  | nil => cases reads
  | cons d text =>
    rw [Reads, Parser.satisfy] at reads
    split at reads
    · rename_i satisfies
      cases reads
      exact ⟨satisfies, List.suffix_cons _ _⟩
    · cases reads

/-- Characters that satisfy a test. -/
theorem run {test : Char → Bool} :
    (Parser.run test).Yields fun front => ∀ c ∈ front, test c = true := by
  rintro text front rest ⟨⟩
  exact ⟨fun c => List.mem_takeWhile_imp, List.dropWhile_suffix _⟩

/-- Characters that satisfy a test, at least one. -/
theorem run1 {test : Char → Bool} :
    (Parser.run1 test).Yields fun front => front ≠ [] ∧ ∀ c ∈ front, test c = true := by
  intro text front rest reads
  rw [Reads, Parser.run1] at reads
  split at reads
  · cases reads
  · rename_i nonempty
    cases reads
    exact ⟨⟨by simpa using nonempty, fun c => List.mem_takeWhile_imp⟩, List.dropWhile_suffix _⟩

/-- Given characters. -/
theorem literalBy {agree : Char → Char → Bool} {letters : List Char} :
    (Parser.literalBy agree letters).Yields fun _ => True := by
  intro text value rest reads
  rw [Reads, Parser.literalBy] at reads
  split at reads <;> cases reads
  exact ⟨trivial, List.drop_suffix _ _⟩

end Yields

/-! ## Advancing -/

/-- A parser takes a character at least. -/
def Advances (parser : Parser α) : Prop :=
  ∀ text value rest, parser.Reads text value rest → rest.length < text.length

/-- What is read behind something that takes a character takes one. -/
theorem Advances.bind {next : α → Parser β} {kind : β → Prop} (first : parser.Advances)
    (second : ∀ value, (next value).Yields kind) : Advances (parser >>= next) := by
  intro text result rest reads
  obtain ⟨value, middle, reads, later⟩ := reads_bind_iff.1 reads
  exact (second value middle result rest later).2.length_le.trans_lt (first text value middle reads)

/-- What takes a character takes one behind something else. -/
theorem Yields.bind_advances {next : α → Parser β} {kind : α → Prop} (first : parser.Yields kind)
    (second : ∀ value, (next value).Advances) : Advances (parser >>= next) := by
  intro text result rest reads
  obtain ⟨value, middle, reads, later⟩ := reads_bind_iff.1 reads
  exact (second value middle result rest later).trans_le (first text value middle reads).2.length_le

/-- Of two alternatives that take a character each, one is taken. -/
theorem Advances.orElse (first : parser.Advances) (second : other.Advances) :
    (Parser.orElse parser other).Advances := by
  intro text value rest reads
  rcases reads_orElse_iff.1 reads with reads | ⟨-, reads⟩
  · exact first text value rest reads
  · exact second text value rest reads

/-- A character that satisfies a test is one. -/
theorem advances_satisfy {test : Char → Bool} : (satisfy test).Advances := by
  intro text c rest reads
  obtain ⟨rfl, -⟩ := reads_satisfy_iff.1 reads
  exact Nat.lt_succ_self _

/-- Given characters, if there are any. -/
theorem advances_literalBy {agree : Char → Char → Bool} {letters : List Char}
    (nonempty : letters ≠ []) : (literalBy agree letters).Advances := by
  intro text value rest reads
  have positive := List.length_pos_of_ne_nil nonempty
  rcases agrees_or_declines_literalBy agree letters text with
    ⟨front, rest', rfl, agrees⟩ | declines
  · cases (reads_literalBy agrees).symm.trans reads
    rw [List.length_append, agrees.length_eq]
    omega
  · exact absurd declines reads.not_declines

/-- What was read in a row was read one by one, and then something was declined. -/
theorem Reads.readsAll (advances : parser.Advances) {values : List α}
    (reads : (many parser).Reads text values rest) : ReadsAll parser text values rest := by
  rw [Reads, many] at reads
  generalize enough : text.length + 1 = rounds at reads
  replace enough : text.length < rounds := by omega
  induction rounds generalizing text values with
  | zero => exact absurd enough (Nat.not_lt_zero _)
  | succ rounds ih =>
    simp only [manyUpTo] at reads
    split at reads
    · rename_i value middle first
      have shorter := advances text value middle first
      split at reads
      · rename_i values' rest' others
        cases reads
        exact .more first shorter (ih others (by omega))
      · cases reads
    · rename_i expected left declined
      cases reads
      exact .none ⟨expected, left, declined⟩
    · cases reads

/-- What a parser that takes a character may come to in a row. The row is never declined. -/
theorem Drifts.readsAll {kind : List Char → Prop} (advances : parser.Advances)
    (rounds : ∀ text, kind text → parser.Drifts kind text) (isKind : kind text) :
    ∃ values rest, ReadsAll parser text values rest ∧ kind rest := by
  induction length : text.length using Nat.strong_induction_on generalizing text with
  | _ length ih =>
    subst length
    rcases rounds text isKind with declines | ⟨value, middle, reads, isKind'⟩
    · exact ⟨[], text, .none declines, isKind⟩
    · have shorter := advances text value middle reads
      obtain ⟨values, rest, all, isKind''⟩ := ih _ shorter isKind' rfl
      exact ⟨value :: values, rest, .more reads shorter all, isKind''⟩

end RuleGraph.Parser
