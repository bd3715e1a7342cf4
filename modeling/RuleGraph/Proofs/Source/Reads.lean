import RuleGraph.Source.Parser
import Mathlib.Data.List.Forall2

/-! # What parsers read

A parser reads a value off the front of a text, or declines the text so that alternatives may be
tried. Parsers of parts make up the parser of a whole.

* **`Parser.Reads`**, **`Parser.Declines`** — a parser reads a value, or declines.
* **`Parser.Reads.bind`**, **`Parser.Reads.orElse`**, **`Parser.Reads.optional`** — sequences,
  alternatives and optional parts.
* **`Parser.ReadsAll.many`** — repetition.
* **`Parser.reads_run`**, **`Parser.reads_literal`** — characters.
-/

namespace RuleGraph.Parser

variable {α β : Type} {parser other : Parser α} {text middle rest : List Char} {value : α}

/-- A parser reads a value off the front of a text. -/
def Reads (parser : Parser α) (text : List Char) (value : α) (rest : List Char) : Prop :=
  parser text = (.ok value, rest)

/-- A parser fails in such a way that alternatives may be tried. -/
def Declines (parser : Parser α) (text : List Char) : Prop :=
  ∃ expected rest, parser text = (.error ⟨false, expected⟩, rest)

/-! ## Sequences -/

/-- Nothing has to be read for a value that is known. -/
theorem Reads.pure : Reads (Pure.pure value) text value text := rfl

/-- First one thing is read and then another. -/
theorem Reads.bind {next : α → Parser β} {result : β} (first : parser.Reads text value middle)
    (second : (next value).Reads middle result rest) :
    Reads (parser >>= next) text result rest := by
  show Parser.bind parser next text = _
  rw [Parser.bind, first]
  exact second

/-- The first thing is declined. -/
theorem Declines.bind (next : α → Parser β) (first : parser.Declines text) :
    Declines (parser >>= next) text := by
  obtain ⟨expected, rest, failed⟩ := first
  refine ⟨expected, rest, ?_⟩
  show Parser.bind parser next text = _
  rw [Parser.bind, failed]

/-- What follows the first thing is declined. -/
theorem Reads.bind_declines {next : α → Parser β} (first : parser.Reads text value middle)
    (second : (next value).Declines middle) : Declines (parser >>= next) text := by
  obtain ⟨expected, rest, failed⟩ := second
  refine ⟨expected, rest, ?_⟩
  show Parser.bind parser next text = _
  rw [Parser.bind, first]
  exact failed

/-! ## Alternatives -/

/-- The first alternative reads. -/
theorem Reads.orElse (other : Parser α) (reads : parser.Reads text value rest) :
    (orElse parser other).Reads text value rest := by
  rw [Reads, Parser.orElse, reads]

/-- The first alternative declines and the second one reads. -/
theorem Declines.orElse (declines : parser.Declines text) (reads : other.Reads text value rest) :
    (Parser.orElse parser other).Reads text value rest := by
  obtain ⟨expected, left, failed⟩ := declines
  rw [Reads, Parser.orElse, failed, reads]

/-- Both alternatives decline. -/
theorem Declines.orElse_declines (declines : parser.Declines text)
    (declines' : other.Declines text) : (Parser.orElse parser other).Declines text := by
  obtain ⟨expected, left, failed⟩ := declines
  obtain ⟨expected', left', failed'⟩ := declines'
  refine ⟨expected', text, ?_⟩
  rw [Parser.orElse, failed, failed']

/-- What may be there is there. -/
theorem Reads.optional (reads : parser.Reads text value rest) :
    (optional parser).Reads text (some value) rest := by
  rw [Reads, Parser.optional, reads]

/-- What may be there is not there. -/
theorem Declines.optional (declines : parser.Declines text) :
    (Parser.optional parser).Reads text none text := by
  obtain ⟨expected, left, failed⟩ := declines
  rw [Reads, Parser.optional, failed]

/-- What may not follow does not follow. -/
theorem Declines.notFollowedBy (declines : parser.Declines text) :
    (Parser.notFollowedBy parser).Reads text () text := by
  obtain ⟨expected, left, failed⟩ := declines
  rw [Reads, Parser.notFollowedBy, failed]

/-- What may not follow does follow. -/
theorem Reads.notFollowedBy (reads : parser.Reads text value rest) :
    (notFollowedBy parser).Declines text := by
  refine ⟨[], text, ?_⟩
  rw [Parser.notFollowedBy, reads]
  rfl

/-- Success has nothing to do with commitment. -/
theorem Reads.commit (reads : parser.Reads text value rest) :
    (commit parser).Reads text value rest := by
  rw [Reads, Parser.commit, reads]

/-- Success has nothing to do with what was expected. -/
theorem Reads.expecting (what : String) (reads : parser.Reads text value rest) :
    (expecting what parser).Reads text value rest := by
  rw [Reads, Parser.expecting, reads]

/-- A description does not make a failure final. -/
theorem Declines.expecting (what : String) (declines : parser.Declines text) :
    (Parser.expecting what parser).Declines text := by
  obtain ⟨expected, left, failed⟩ := declines
  refine ⟨expected ++ [what], left, ?_⟩
  rw [Parser.expecting, failed]

/-! ## Repetition -/

/-- A parser reads values in a row, each off the front of what the one before has left, and declines
what is left in the end. -/
inductive ReadsAll (parser : Parser α) : List Char → List α → List Char → Prop where
  /-- The text is declined. -/
  | none {text : List Char} (declines : parser.Declines text) : ReadsAll parser text [] text
  /-- A value is read, and then others. -/
  | more {text middle rest : List Char} {value : α} {values : List α}
    (first : parser.Reads text value middle) (shorter : middle.length < text.length)
    (others : ReadsAll parser middle values rest) :
    ReadsAll parser text (value :: values) rest

/-- What is left behind values in a row is declined. -/
theorem ReadsAll.declines {values : List α} (all : ReadsAll parser text values rest) :
    parser.Declines rest := by
  induction all with
  | none declines => exact declines
  | more _ _ _ ih => exact ih

/-- Values in a row are read in as many rounds as there are characters, or more. -/
theorem ReadsAll.manyUpTo {values : List α} (all : ReadsAll parser text values rest) {rounds : Nat}
    (enough : text.length < rounds) : (manyUpTo parser rounds).Reads text values rest := by
  induction all generalizing rounds with
  | none declines =>
    obtain ⟨more, rfl⟩ : ∃ more, rounds = more + 1 := ⟨rounds - 1, by omega⟩
    obtain ⟨expected, left, failed⟩ := declines
    simp only [Reads, Parser.manyUpTo, failed]
  | more first shorter _ ih =>
    obtain ⟨more, rfl⟩ : ∃ more, rounds = more + 1 := ⟨rounds - 1, by omega⟩
    have later := ih (show _ < more by omega)
    rw [Reads] at first later
    simp only [Reads, Parser.manyUpTo, first, later]

/-- **Values in a row are read.** -/
theorem ReadsAll.many {values : List α} (all : ReadsAll parser text values rest) :
    (many parser).Reads text values rest :=
  all.manyUpTo (Nat.lt_succ_self _)

/-! ## Characters -/

/-- A character that satisfies a test is taken. -/
theorem reads_satisfy {test : Char → Bool} {c : Char} (satisfies : test c = true) :
    (satisfy test).Reads (c :: rest) c rest := by
  rw [Reads, satisfy, if_pos satisfies]

/-- Any other character is declined, and so is the end of the text. -/
theorem declines_satisfy {test : Char → Bool} (other : ∀ c ∈ text.head?, test c = false) :
    (satisfy test).Declines text := by
  cases text with
  | nil => exact ⟨[], [], rfl⟩
  | cons c rest =>
    refine ⟨[], c :: rest, ?_⟩
    rw [satisfy, other c rfl, if_neg Bool.false_ne_true]
    rfl

/-- A given character is taken. -/
theorem reads_char (c : Char) : (char c).Reads (c :: rest) c rest :=
  reads_satisfy (decide_eq_true rfl)

/-- Any other character than a given one is declined. -/
theorem declines_char {c : Char} (other : c ∉ text.head?) : (char c).Declines text :=
  declines_satisfy fun _ here => decide_eq_false fun same => other (same ▸ here)

/-- The characters up to the first one that does not satisfy a test. -/
theorem takeWhile_append {test : Char → Bool} {front : List Char}
    (satisfy : ∀ c ∈ front, test c = true) (stops : ∀ c ∈ rest.head?, test c = false) :
    (front ++ rest).takeWhile test = front ∧ (front ++ rest).dropWhile test = rest := by
  have stopped : rest.takeWhile test = [] ∧ rest.dropWhile test = rest := by
    cases rest with
    | nil => exact ⟨rfl, rfl⟩
    | cons c rest =>
      have other := stops c rfl
      exact ⟨List.takeWhile_cons_of_neg (by simp [other]),
        List.dropWhile_cons_of_neg (by simp [other])⟩
  rw [List.takeWhile_append_of_pos satisfy, List.dropWhile_append_of_pos satisfy, stopped.1,
    stopped.2, List.append_nil]
  exact ⟨rfl, rfl⟩

/-- The characters that satisfy a test are taken. -/
theorem reads_run {test : Char → Bool} {front : List Char} (satisfy : ∀ c ∈ front, test c = true)
    (stops : ∀ c ∈ rest.head?, test c = false) : (run test).Reads (front ++ rest) front rest := by
  obtain ⟨taken, dropped⟩ := takeWhile_append satisfy stops
  rw [Reads, run, taken, dropped]

/-- The characters that satisfy a test are taken, if there is one. -/
theorem reads_run1 {test : Char → Bool} {front : List Char} (nonempty : front ≠ [])
    (satisfy : ∀ c ∈ front, test c = true) (stops : ∀ c ∈ rest.head?, test c = false) :
    (run1 test).Reads (front ++ rest) front rest := by
  obtain ⟨taken, dropped⟩ := takeWhile_append satisfy stops
  rw [Reads, run1, taken, dropped, if_neg (by simpa using nonempty)]

/-- If no character satisfies a test at the front, the text is declined. -/
theorem declines_run1 {test : Char → Bool} (stops : ∀ c ∈ text.head?, test c = false) :
    (run1 test).Declines text := by
  have nothing : text.takeWhile test = [] :=
    (@takeWhile_append text test [] (fun _ none => absurd none List.not_mem_nil) stops).1
  refine ⟨[], text, ?_⟩
  rw [run1, nothing]
  rfl

/-- Characters that agree with the given ones are taken. -/
theorem reads_literalBy {agree : Char → Char → Bool} {front letters : List Char}
    (all : List.Forall₂ (fun c letter => agree c letter = true) front letters) :
    (literalBy agree letters).Reads (front ++ rest) () rest := by
  have same := all.length_eq
  have each : (front.zip letters).all (fun pair => agree pair.1 pair.2) = true := by
    rw [List.all_eq_true]
    exact fun pair member => (List.forall₂_iff_zip.1 all).2 member
  rw [Reads, literalBy, ← same, List.take_left, List.drop_left, each]
  simp

/-- Either a text begins with characters that agree with the given ones, or it is declined. -/
theorem agrees_or_declines_literalBy (agree : Char → Char → Bool) (letters text : List Char) :
    (∃ front rest, text = front ++ rest ∧
      List.Forall₂ (fun c letter => agree c letter = true) front letters) ∨
    (literalBy agree letters).Declines text := by
  by_cases agrees : (text.take letters.length).length = letters.length ∧
      ((text.take letters.length).zip letters).all (fun pair => agree pair.1 pair.2) = true
  · refine .inl ⟨_, _, (List.take_append_drop letters.length text).symm, ?_⟩
    exact List.forall₂_iff_zip.2 ⟨agrees.1, fun pair => List.all_eq_true.1 agrees.2 _ pair⟩
  · refine .inr ⟨[], text, ?_⟩
    rw [literalBy, if_neg]
    · rfl
    · rwa [Bool.and_eq_true, decide_eq_true_eq]

/-- The given characters are taken. -/
theorem reads_literal (letters : List Char) : (literal letters).Reads (letters ++ rest) () rest :=
  reads_literalBy (List.forall₂_same.2 fun _ _ => decide_eq_true rfl)

/-- A text that does not begin like the given characters is declined. -/
theorem declines_literal {c : Char} {letters : List Char} (other : c ∉ text.head?) :
    (literal (c :: letters)).Declines text := by
  refine ⟨[], text, ?_⟩
  rw [literal, literalBy]
  cases text with
  | nil => rfl
  | cons first rest =>
    have apart : first ≠ c := fun same => other (same ▸ rfl)
    simp [apart]
    rfl

end RuleGraph.Parser
