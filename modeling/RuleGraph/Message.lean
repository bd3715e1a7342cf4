import RuleGraph.Value.Text

/-! # Messages

Formats with places for values. Every pair of braces in a format is a place, from the left.

* **`fillPlaces`** — the places filled with values in order.
* **`formatMessage`** — the same on texts.
-/

namespace RuleGraph

/-- Fill the places of a format with values in order. Places without a value stay as they are, and
values without a place are appended, each behind a space. What is filled in is never read again. -/
def fillPlaces : List Char → List Value → List Char
  | [], values => values.flatMap fun value => ' ' :: value.plain.toList
  | '\x7b' :: '\x7d' :: rest, value :: values => value.plain.toList ++ fillPlaces rest values
  | '\x7b' :: '\x7d' :: rest, [] => '\x7b' :: '\x7d' :: fillPlaces rest []
  | c :: rest, values => c :: fillPlaces rest values

/-- The message of a format and the values for its places. -/
def formatMessage (format : String) (values : List Value) : String :=
  String.ofList (fillPlaces format.toList values)

end RuleGraph
