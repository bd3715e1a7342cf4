/-! # Parsers with positions and commitment

A parser reads a value off the front of a text or fails, and either way says what is left of the
text. A failure is *tentative*, so that alternatives may be tried, or *final*. A failing sequence
leaves the text where it stood; `orElse`, `optional`, `many` and `separated` go back to their own
start, or that of the failing round, when a failure is tentative.

* **`Parser`**, **`Failure`** — parsers and their failures.
* **`Parser.orElse`**, **`Parser.many`**, **`Parser.separated`** — alternatives and repetition.
* **`Parser.commit`**, **`Parser.expecting`** — final failures, and what was expected.
-/

namespace RuleGraph

/-- Why a parser gave up. -/
structure Failure where
  /-- Whether no alternative may be tried any more. -/
  isFinal : Bool
  /-- What was expected, from the innermost description to the outermost. -/
  expected : List String
  deriving DecidableEq, Inhabited

/-- A tentative failure without a description. -/
def Failure.tentative : Failure := ⟨false, []⟩

/-- A parser takes a text to a value or a failure, and to what is left of the text. -/
def Parser (α : Type) : Type := List Char → Except Failure α × List Char

namespace Parser

variable {α β : Type}

/-- Succeed without reading. -/
def succeed (value : α) : Parser α := fun text => (.ok value, text)

/-- Fail without reading. -/
def fail (failure : Failure) : Parser α := fun text => (.error failure, text)

/-- Continue on what the first parser left. -/
def bind (first : Parser α) (next : α → Parser β) : Parser β := fun text =>
  match first text with
  | (.ok value, rest) => next value rest
  | (.error failure, rest) => (.error failure, rest)

instance : Monad Parser where
  pure := succeed
  bind := bind

/-- The number of characters that are left. -/
def remaining : Parser Nat := fun text => (.ok text.length, text)

/-- Take a character that satisfies a test. -/
def satisfy (test : Char → Bool) : Parser Char := fun text =>
  match text with
  | [] => (.error .tentative, [])
  | c :: rest => if test c then (.ok c, rest) else (.error .tentative, c :: rest)

/-- Take any character. -/
def anyChar : Parser Char := satisfy fun _ => true

/-- Take a given character. -/
def char (expected : Char) : Parser Char := satisfy fun c => c = expected

/-- Take the characters at the front that satisfy a test. -/
def run (test : Char → Bool) : Parser (List Char) := fun text =>
  (.ok (text.takeWhile test), text.dropWhile test)

/-- Take the characters at the front that satisfy a test, at least one. -/
def run1 (test : Char → Bool) : Parser (List Char) := fun text =>
  if (text.takeWhile test).isEmpty then (.error .tentative, text)
  else (.ok (text.takeWhile test), text.dropWhile test)

/-- Take characters that agree one by one with the given ones; nothing is taken unless all do. -/
def literalBy (agree : Char → Char → Bool) (letters : List Char) : Parser Unit := fun text =>
  let front := text.take letters.length
  if front.length = letters.length && (front.zip letters).all fun pair => agree pair.1 pair.2 then
    (.ok (), text.drop letters.length)
  else (.error .tentative, text)

/-- Take the given characters. -/
def literal (letters : List Char) : Parser Unit :=
  literalBy (fun a b => a = b) letters

/-- Try the second parser where the first fails tentatively. -/
def orElse (first second : Parser α) : Parser α := fun text =>
  match first text with
  | (.error ⟨false, _⟩, _) =>
    match second text with
    | (.error ⟨false, expected⟩, _) => (.error ⟨false, expected⟩, text)
    | reply => reply
  | reply => reply

/-- Succeed with nothing where the parser fails tentatively. -/
def optional (parser : Parser α) : Parser (Option α) := fun text =>
  match parser text with
  | (.ok value, rest) => (.ok (some value), rest)
  | (.error ⟨false, _⟩, _) => (.ok none, text)
  | (.error failure, rest) => (.error failure, rest)

/-- Succeed, without reading, exactly where the parser fails tentatively. -/
def notFollowedBy (parser : Parser α) : Parser Unit := fun text =>
  match parser text with
  | (.ok _, _) => (.error .tentative, text)
  | (.error ⟨false, _⟩, _) => (.ok (), text)
  | (.error failure, _) => (.error failure, text)

/-- Turn every failure into a final one. -/
def commit (parser : Parser α) : Parser α := fun text =>
  match parser text with
  | (.error failure, rest) => (.error { failure with isFinal := true }, rest)
  | reply => reply

/-- Add a description of what was expected to a failure. -/
def expecting (what : String) (parser : Parser α) : Parser α := fun text =>
  match parser text with
  | (.error failure, rest) =>
    (.error { failure with expected := failure.expected ++ [what] }, rest)
  | reply => reply

/-- At most `rounds` values in a row. -/
def manyUpTo (parser : Parser α) : Nat → Parser (List α)
  | 0 => fun text => (.ok [], text)
  | rounds + 1 => fun text =>
    match parser text with
    | (.ok value, rest) =>
      match manyUpTo parser rounds rest with
      | (.ok values, rest) => (.ok (value :: values), rest)
      | (.error failure, rest) => (.error failure, rest)
    | (.error ⟨false, _⟩, _) => (.ok [], text)
    | (.error failure, rest) => (.error failure, rest)

/-- Values in a row, as many as there are. Every round takes a character, so the length of the text
bounds their number. -/
def many (parser : Parser α) : Parser (List α) := fun text =>
  manyUpTo parser (text.length + 1) text

/-- Values each behind a separator. A round whose value fails gives its separator back. -/
def further (separator : Parser Unit) (parser : Parser α) : Parser (List α) :=
  many (bind separator fun _ => parser)

/-- At least one value, separated. -/
def separated1 (separator : Parser Unit) (parser : Parser α) : Parser (List α) := do
  let first ← parser
  let rest ← further separator parser
  return first :: rest

/-- Any number of values, separated. -/
def separated (separator : Parser Unit) (parser : Parser α) : Parser (List α) := do
  match ← optional parser with
  | none => return []
  | some first =>
    let rest ← further separator parser
    return first :: rest

end Parser

end RuleGraph
