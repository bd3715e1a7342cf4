import RuleGraph.Text.Numeral
import RuleGraph.Text.Printable

/-! # Quoted text

The written form of a text between double quotes. A quote, a backslash, a line feed, a carriage
return, a tab and a NUL have two-character escapes; other characters without a visible form, or
which attach to the one before, are written by code point as `\u` and hexadecimal digits in braces.

* **`escapeChar`** — the written form of one character.
* **`quote`** — the written form of a text.
-/

namespace RuleGraph.Text

/-- A character written by its code point. -/
def codePointEscape (c : Char) : List Char :=
  ['\\', 'u', '\x7b'] ++ Numeral.hexDigits c.toNat ++ ['\x7d']

/-- One character as it stands between quotes. -/
def escapeChar (c : Char) : List Char :=
  if c = '"' then ['\\', '"']
  else if c = '\\' then ['\\', '\\']
  else if c = '\n' then ['\\', 'n']
  else if c = '\r' then ['\\', 'r']
  else if c = '\t' then ['\\', 't']
  else if c = '\x00' then ['\\', '0']
  else if isExtending c || !isPrintable c then codePointEscape c
  else [c]

/-- A text between double quotes, as a list of characters. -/
def quoteChars (text : List Char) : List Char :=
  '"' :: (text.flatMap escapeChar ++ ['"'])

/-- A text between double quotes. -/
def quote (text : String) : String :=
  String.ofList (quoteChars text.toList)

end RuleGraph.Text
