import RuleGraph.Value
import RuleGraph.Binary64.Decimal
import RuleGraph.Json
import RuleGraph.Text.Quoted

/-! # Text and JSON forms of values

* **`Value.write`** — a value as it stands in rule source; entities have a form of their own.
* **`Value.plain`** — a value as it stands inside a message.
* **`Value.toJson`** — a value as a JSON document.
-/

namespace RuleGraph

/-- Texts joined by a comma and a space. -/
def commaSeparated (texts : List String) : String :=
  ", ".intercalate texts

/-- An integer in decimal digits. -/
def intText (n : Int64) : String :=
  Numeral.intText n.toInt

/-- An entity with its type and key as quoted texts. -/
def Entity.write (entity : Entity) : String :=
  "entity(" ++ Text.quote entity.type ++ ", " ++ Text.quote entity.key ++ ")"

/-- A tracking key: type, key and time. -/
def TrackingKey.write (key : TrackingKey) : String :=
  key.entity.type ++ "/" ++ key.entity.key ++ "@" ++ intText key.clock

namespace Value

mutual

/-- The text of a value in rule source. -/
def write : Value → String
  | .null => "null"
  | .bool value => if value then "true" else "false"
  | .int value => intText value
  | .float value => value.write .source
  | .text value => Text.quote value
  | .list items => "[" ++ commaSeparated (writeAll items) ++ "]"
  | .entity value => value.write

/-- The texts of several values. -/
def writeAll : List Value → List String
  | [] => []
  | item :: rest => write item :: writeAll rest

end

/-- The text of a value inside a message: texts and the keys of entities stand without quotes. -/
def plain : Value → String
  | .text value => value
  | .entity value => value.key
  | value => value.write

mutual

/-- A value as JSON. An entity becomes an object, and a number that is not finite becomes null. -/
def toJson : Value → Json
  | .null => .null
  | .bool value => .bool value
  | .int value => .int value.toInt
  | .float value => if value.isNaN || value.isInfinite then .null else .float value
  | .text value => .text value
  | .list items => .list (toJsonAll items)
  | .entity value => Json.ofMembers [("type", .text value.type), ("key", .text value.key)]

/-- Several values as JSON. -/
def toJsonAll : List Value → List Json
  | [] => []
  | item :: rest => toJson item :: toJsonAll rest

end

end Value

end RuleGraph
