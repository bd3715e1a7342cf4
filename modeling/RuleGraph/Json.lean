import RuleGraph.Binary64
import RuleGraph.Dictionary

/-! # JSON values

The values of JSON documents. Integers and floating-point numbers are told apart, and the members
of an object are kept in ascending order of their names.

* **`Json`** — the values.
* **`Json.field?`** — a member of an object.
-/

namespace RuleGraph

/-- A JSON value. -/
inductive Json where
  /-- The value `null`. -/
  | null
  /-- A truth value. -/
  | bool (value : Bool)
  /-- A number written without fraction and exponent, in the range of 64-bit words. -/
  | int (value : Int)
  /-- Any other number. -/
  | float (value : Binary64)
  /-- A text. -/
  | text (value : String)
  /-- An array. -/
  | list (items : List Json)
  /-- An object, its members sorted by name. -/
  | object (members : List (String × Json))
  deriving Inhabited

namespace Json

/-- The object with the given members, later ones replacing earlier ones of the same name. -/
def ofMembers (members : List (String × Json)) : Json :=
  .object (Dictionary.ofList members)

/-- The member of an object that has the given name. -/
def field? (value : Json) (name : String) : Option Json :=
  match value with
  | .object members => Dictionary.find? members name
  | _ => none

/-- An optional text, `null` where there is none. -/
def ofOption : Option String → Json
  | none => .null
  | some value => .text value

/-- An array of texts. -/
def ofTexts (texts : List String) : Json :=
  .list (texts.map .text)

/-- A natural number. -/
def ofNat (n : Nat) : Json := .int n

end Json

end RuleGraph
