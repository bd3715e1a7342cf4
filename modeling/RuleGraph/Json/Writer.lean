import RuleGraph.Json
import RuleGraph.Binary64.Decimal

/-! # Writing JSON

The compact text of a JSON value, without any white space.

* **`Json.write`** — the text of a value.
-/

namespace RuleGraph.Json

/-- A control character by its code point in four hexadecimal digits. -/
def controlEscape (c : Char) : List Char :=
  let text := Numeral.hexDigits c.toNat
  ['\\', 'u'] ++ List.replicate (4 - text.length) '0' ++ text

/-- One character as it stands in a JSON text. -/
def escapeChar (c : Char) : List Char :=
  if c = '"' then ['\\', '"']
  else if c = '\\' then ['\\', '\\']
  else if c = '\n' then ['\\', 'n']
  else if c = '\r' then ['\\', 'r']
  else if c = '\t' then ['\\', 't']
  else if c = '\x08' then ['\\', 'b']
  else if c = '\x0c' then ['\\', 'f']
  else if c.toNat < 0x20 then controlEscape c
  else [c]

/-- A text between quotes. -/
def writeText (text : String) : String :=
  String.ofList ('"' :: (text.toList.flatMap escapeChar ++ ['"']))

/-- A number; what is not finite has no JSON form and is written as `null`. -/
def writeFloat (value : Binary64) : String :=
  if value.isNaN || value.isInfinite then "null" else value.write .json

mutual

/-- The compact text of a value. -/
def write : Json → String
  | .null => "null"
  | .bool value => if value then "true" else "false"
  | .int value => Numeral.intText value
  | .float value => writeFloat value
  | .text value => writeText value
  | .list items => "[" ++ ",".intercalate (writeItems items) ++ "]"
  | .object members => "\x7b" ++ ",".intercalate (writeMembers members) ++ "\x7d"

/-- The texts of the items of an array. -/
def writeItems : List Json → List String
  | [] => []
  | item :: rest => write item :: writeItems rest

/-- The texts of the members of an object. -/
def writeMembers : List (String × Json) → List String
  | [] => []
  | (name, value) :: rest => (writeText name ++ ":" ++ write value) :: writeMembers rest

end

end RuleGraph.Json
