import RuleGraph.Proofs.Source.Parsed
import Mathlib.Logic.Relation

/-! # Where reading leads

Reading passes over a text in steps: over a text between quotes, over a comment, over the raw text of
a call, and over any other character. Where it comes to a quote that has no closing one, the rest of
the text is open, and what follows it may close it.

* **`Source.closing?`** — what is left behind the quote that closes a text.
* **`Source.Scan`**, **`Source.Scans`** — a step of reading, and several of them.
* **`Source.LeavesTextOpen`** — reading may lead to a quote that is not closed.
-/

namespace RuleGraph.Source

open RuleGraph.Parser

/-- What is left of a text behind its first quote that is not escaped. -/
def closing? : List Char → Option (List Char)
  | [] => none
  | '"' :: rest => some rest
  | '\\' :: _ :: rest => closing? rest
  | _ :: rest => closing? rest

/-- A step of reading. -/
inductive Scan : List Char → List Char → Prop where
  /-- Over a character that begins neither a text nor a comment. -/
  | char {c : Char} {rest : List Char} (notQuote : c ≠ '"') (notSign : c ≠ '#') :
    Scan (c :: rest) rest
  /-- Over a comment, to the end of its line. -/
  | comment {text rest : List Char} (line : endOfLine? text = some rest) : Scan ('#' :: text) rest
  /-- Over a text between quotes. -/
  | text {text rest : List Char} (closed : closing? text = some rest) : Scan ('"' :: text) rest
  /-- Over the raw text of a call whose arguments are no expressions. -/
  | call {text raw rest : List Char} (other : (arguments expression).Declines text)
    (closed : splitCall? (.code 0) text = some (raw, rest)) : Scan ('(' :: text) rest

/-- Several steps of reading. -/
def Scans : List Char → List Char → Prop :=
  Relation.ReflTransGen Scan

/-- Reading may lead to a quote that is not closed. -/
def LeavesTextOpen (text : List Char) : Prop :=
  ∃ rest, Scans text ('"' :: rest) ∧ closing? rest = none

variable {text rest middle front : List Char} {c : Char}

/-! ## Steps -/

namespace Scans

/-- No step. -/
theorem refl : Scans text text := Relation.ReflTransGen.refl

/-- Some steps and then others. -/
theorem trans (first : Scans text middle) (second : Scans middle rest) : Scans text rest :=
  Relation.ReflTransGen.trans first second

/-- A step and then others. -/
theorem head (step : Scan text middle) (others : Scans middle rest) : Scans text rest :=
  Relation.ReflTransGen.head step others

/-- One step. -/
theorem single (step : Scan text rest) : Scans text rest :=
  Relation.ReflTransGen.single step

/-- Reading passes over characters that begin neither texts nor comments. -/
theorem append (plain : ∀ c ∈ front, c ≠ '"' ∧ c ≠ '#') : Scans (front ++ rest) rest := by
  induction front with
  | nil => exact refl
  | cons c front ih =>
    obtain ⟨first, others⟩ := List.forall_mem_cons.1 plain
    exact (ih others).head (.char first.1 first.2)

end Scans

/-- Behind a quote that closes a text an end of it is left. -/
theorem suffix_of_closing? (closed : closing? text = some rest) : rest <:+ text := by
  fun_induction closing? text with
  | case1 => cases closed
  | case2 =>
    cases closed
    exact List.suffix_cons _ _
  | case3 _ _ ih => exact ((ih closed).trans (List.suffix_cons _ _)).trans (List.suffix_cons _ _)
  | case4 _ _ _ _ ih => exact (ih closed).trans (List.suffix_cons _ _)

/-- Reading leads to ends of the text. -/
theorem Scans.suffix (scans : Scans text rest) : rest <:+ text := by
  induction scans with
  | refl => exact List.suffix_refl _
  | tail _ step ih =>
    refine List.IsSuffix.trans ?_ ih
    cases step with
    | char => exact List.suffix_cons _ _
    | comment line => exact (suffix_of_endOfLine? line).trans (List.suffix_cons _ _)
    | text closed => exact (suffix_of_closing? closed).trans (List.suffix_cons _ _)
    | call _ closed => exact (suffix_of_splitCall? closed).trans (List.suffix_cons _ _)

/-- Behind characters that are neither quotes nor backslashes a text is closed where it is. -/
theorem closing?_append (plain : ∀ c ∈ front, c ≠ '"' ∧ c ≠ '\\') :
    closing? (front ++ rest) = closing? rest := by
  induction front with
  | nil => rfl
  | cons c front ih =>
    obtain ⟨⟨notQuote, notBackslash⟩, others⟩ := List.forall_mem_cons.1 plain
    rw [List.cons_append, closing?]
    · exact ih others
    · exact notQuote
    · exact fun _ _ same => absurd same notBackslash

/-- Without quotes a text is not closed. -/
theorem closing?_eq_none (other : '"' ∉ text) : closing? text = none := by
  fun_induction closing? text with
  | case1 => rfl
  | case2 => exact absurd List.mem_cons_self other
  | case3 _ _ ih =>
    exact ih fun member => other (List.mem_cons_of_mem _ (List.mem_cons_of_mem _ member))
  | case4 _ _ _ _ ih => exact ih fun member => other (List.mem_cons_of_mem _ member)

/-- A text that is not closed is closed by a quote behind it only. -/
theorem closing?_append_eq_none {more : List Char} (unclosed : closing? text = none)
    (other : '"' ∉ more) : closing? (text ++ more) = none := by
  fun_induction closing? text with
  | case1 => exact closing?_eq_none other
  | case2 => cases unclosed
  | case3 _ _ ih => exact ih unclosed
  | case4 c text notQuote notEscape ih =>
    by_cases backslash : c = '\\'
    · subst backslash
      cases text with
      | nil => exact closing?_eq_none fun member =>
          (List.mem_cons.1 member).elim (by decide) other
      | cons d text => exact absurd rfl (notEscape d text rfl)
    · rw [List.cons_append, closing?]
      · exact ih unclosed
      · exact notQuote
      · exact fun _ _ same => absurd same backslash

/-- What is open where reading leads is open from the start. -/
theorem Scans.leavesTextOpen (scans : Scans text rest) (opened : LeavesTextOpen rest) :
    LeavesTextOpen text := by
  obtain ⟨later, scans', unclosed⟩ := opened
  exact ⟨later, scans.trans scans', unclosed⟩

/-- No blank begins a text or a comment. -/
theorem Skips.scans (skips : Skips text rest) : Scans text rest := by
  induction skips with
  | stop => exact .refl
  | blank isBlank _ ih =>
    refine ih.head (.char ?_ ?_)
    · rintro rfl
      exact absurd isBlank (by decide)
    · rintro rfl
      exact absurd isBlank (by decide)
  | comment line _ ih => exact ih.head (.comment line)

/-- A text without quotes leaves none open. -/
theorem LeavesTextOpen.mem (opened : LeavesTextOpen text) : '"' ∈ text := by
  obtain ⟨rest, scans, -⟩ := opened
  exact scans.suffix.subset List.mem_cons_self

end RuleGraph.Source
