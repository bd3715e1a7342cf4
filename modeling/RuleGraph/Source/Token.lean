import RuleGraph.Source.Parser
import RuleGraph.Binary64.Decimal
import RuleGraph.Text.Blank
import RuleGraph.Value

/-! # Tokens of rule source

* **`blanks`** — white space and comments, which may stand between any two tokens.
* **`identifier`**, **`keyword`** — names, and words of the language in any letter case.
* **`textLiteral`**, **`number`** — literals.
* **`rawArguments`** — the text of a call up to the parenthesis that closes it.
-/

namespace RuleGraph.Source

open RuleGraph.Parser RuleGraph.Numeral

/-- What remains of a text from the end of its first line on. A line ends with a line feed, alone
or behind a carriage return; a carriage return elsewhere is an error. -/
def endOfLine? : List Char → Option (List Char)
  | [] => some []
  | '\n' :: rest => some ('\n' :: rest)
  | '\r' :: '\n' :: rest => some ('\r' :: '\n' :: rest)
  | '\r' :: _ => none
  | _ :: rest => endOfLine? rest

/-- A comment: a number sign and everything up to the end of the line. -/
def comment : Parser Unit := fun text =>
  match text with
  | '#' :: rest =>
    match endOfLine? rest with
    | some left => (.ok (), left)
    | none => (.error .tentative, rest)
  | text => (.error .tentative, text)

/-- White space and comments. -/
def blanks : Parser Unit := do
  let _ ← many (orElse (do let _ ← run1 Text.isBlank) comment)

/-- A character that may stand in a name. -/
def isNameChar (c : Char) : Bool :=
  c.isAlphanum || c = '_'

/-- A character that may begin a name. -/
def isNameStart (c : Char) : Bool :=
  c.isAlpha || c = '_'

/-- The name of a feature or function; a function's name may hold points. -/
def identifier : Parser String := do
  let first ← satisfy isNameStart
  let rest ← run fun c => isNameChar c || c = '.'
  return String.ofList (first :: rest)

/-- A word of the language in any letter case, not followed by a character of a name. -/
def keyword (letters : String) : Parser Unit := do
  literalBy (fun a b => a.toLower = b.toLower) letters.toList
  notFollowedBy (satisfy isNameChar)

/-- A token made of the given characters, with blanks before it. -/
def symbol (letters : String) : Parser Unit := do
  blanks
  literal letters.toList

/-- The code point of one to six hexadecimal digits in braces. -/
def codePoint : Parser Char := expecting "unicode escape" do
  let _ ← char '\x7b'
  let text ← run1 fun c => (hexValue? c).isSome
  let _ ← if text.length ≤ 6 then char '\x7d' else fail .tentative
  let n := ofHexDigits text
  if n < 0xd800 || (0xdfff < n && n < 0x110000) then return Char.ofNat n else fail .tentative

/-- The character that an escape stands for, behind its backslash. A character without a meaning of
its own stands for itself. -/
def escape : Parser Char := do
  let c ← anyChar
  if c = 'n' then return '\n'
  else if c = 't' then return '\t'
  else if c = 'r' then return '\r'
  else if c = '0' then return '\x00'
  else if c = 'u' then codePoint
  else return c

/-- The characters of a text up to its closing quote, at most `steps` of them. -/
def textBody : Nat → Parser (List Char)
  | 0 => fail .tentative
  | steps + 1 => do
    let c ← anyChar
    if c = '"' then return []
    else if c = '\\' then
      let decoded ← escape
      return decoded :: (← textBody steps)
    else return c :: (← textBody steps)

/-- A text between double quotes. -/
def textLiteral : Parser String := do
  let _ ← char '"'
  let length ← remaining
  return String.ofList (← textBody (length + 1))

/-- The exponent of a floating-point literal: a letter `e`, an optional sign and digits. -/
def exponentPart : Parser (List Char) := do
  let mark ← satisfy fun c => c = 'e' || c = 'E'
  let sign ← optional (satisfy fun c => c = '+' || c = '-')
  let digits ← run1 isDigit
  return mark :: (sign.toList ++ digits)

/-- The part of a floating-point literal behind its whole digits: a fraction with an optional
exponent, or an exponent. -/
def fractionPart : Parser (List Char) :=
  orElse
    (do
      let _ ← char '.'
      let digits ← run1 isDigit
      let exponent ← optional exponentPart
      return '.' :: (digits ++ exponent.getD []))
    exponentPart

/-- A floating-point literal: an optional minus sign, digits, and a fraction or an exponent. -/
def floatLiteral : Parser Binary64 := do
  let sign ← optional (char '-')
  let whole ← run1 isDigit
  let fraction ← fractionPart
  match Binary64.ofUnsignedText? sign.isSome (whole ++ fraction) with
  | some value => return value
  | none => fail .tentative

/-- An integer literal in the range of 64-bit words: a zero, or an optional sign and digits that
begin with another digit than zero. -/
def intLiteral : Parser Int64 := do
  let value ← orElse
    (do
      let sign ← optional (satisfy fun c => c = '+' || c = '-')
      let first ← satisfy fun c => isDigit c && c ≠ '0'
      let rest ← run isDigit
      let magnitude : Int := ofDigits (first :: rest)
      return if sign = some '-' then -magnitude else magnitude)
    (do
      let _ ← char '0'
      return 0)
  if Int64.minValue.toInt ≤ value && value ≤ Int64.maxValue.toInt then return Int64.ofInt value
  else fail .tentative

/-- A number. -/
def number : Parser Value :=
  orElse (do return .float (← floatLiteral)) (do return .int (← intLiteral))

/-- Where the scan of a call's raw text stands. -/
inductive ScanState where
  /-- Outside texts, inside so many parentheses. -/
  | code (depth : Nat)
  /-- Inside a text, inside so many parentheses. -/
  | inText (depth : Nat)
  /-- Inside a text and behind a backslash. -/
  | escaped (depth : Nat)

/-- The text before the parenthesis that closes an open call, and the text behind it. Parentheses
in between are balanced, and those inside texts do not count. -/
def splitCall? : ScanState → List Char → Option (List Char × List Char)
  | _, [] => none
  | .escaped depth, c :: rest =>
    (splitCall? (.inText depth) rest).map fun split => (c :: split.1, split.2)
  | .inText depth, c :: rest =>
    let next : ScanState :=
      if c = '\\' then .escaped depth else if c = '"' then .code depth else .inText depth
    (splitCall? next rest).map fun split => (c :: split.1, split.2)
  | .code depth, c :: rest =>
    if c = ')' && depth = 0 then some ([], rest)
    else
      let next : ScanState :=
        if c = '"' then .inText depth
        else if c = '(' then .code (depth + 1)
        else if c = ')' then .code (depth - 1)
        else .code depth
      (splitCall? next rest).map fun split => (c :: split.1, split.2)

/-- The raw text of a call behind its opening parenthesis, up to the parenthesis that closes it. A
call that is never closed is a final failure. -/
def rawArguments : Parser (List Char) := fun text =>
  match splitCall? (.code 0) text with
  | some (raw, rest) => (.ok raw, rest)
  | none => (.error ⟨true, []⟩, text)

end RuleGraph.Source
