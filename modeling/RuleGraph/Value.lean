import RuleGraph.Binary64

/-! # Values

The values that flow through a rule graph: null, truth values, 64-bit integers, floating-point
numbers, texts, lists, and entities, which are typed keys of domain objects.

* **`Value`** — the values, with decidable identity.
* **`Value.unwrap`** — every entity replaced by its key.
* **`Value.isTruthy`** — how a value counts as a condition.
* **`Value.compare`** — the partial order that rules compare by.
* **`Value.same`** — equality of values, in which floating-point numbers are equal as numbers.
-/

namespace RuleGraph

/-- A typed key of a domain object. -/
structure Entity where
  /-- The type of the object. -/
  type : String
  /-- The key among the objects of its type. -/
  key : String
  deriving DecidableEq, Inhabited

/-- The identifier under which an entity is tracked: the entity and the time of the event. -/
structure TrackingKey where
  /-- The entity. -/
  entity : Entity
  /-- The event time in milliseconds. -/
  clock : Int64
  deriving DecidableEq

/-- A value. -/
inductive Value where
  /-- The absence of a value. -/
  | null
  /-- A truth value. -/
  | bool (value : Bool)
  /-- A 64-bit signed integer. -/
  | int (value : Int64)
  /-- A floating-point number. -/
  | float (value : Binary64)
  /-- A text. -/
  | text (value : String)
  /-- An ordered list of values. -/
  | list (items : List Value)
  /-- A domain object. -/
  | entity (value : Entity)
  deriving Inhabited

namespace Value

mutual

/-- Decide whether two values are identical, floating-point numbers bit by bit. -/
def decEq : (a b : Value) → Decidable (a = b)
  | .null, .null => isTrue rfl
  | .bool x, .bool y => decidable_of_iff (x = y) (by simp)
  | .int x, .int y => decidable_of_iff (x = y) (by simp)
  | .float x, .float y => decidable_of_iff (x = y) (by simp)
  | .text x, .text y => decidable_of_iff (x = y) (by simp)
  | .list xs, .list ys =>
    match decEqList xs ys with
    | isTrue h => isTrue (by rw [h])
    | isFalse h => isFalse (by simpa using h)
  | .entity x, .entity y => decidable_of_iff (x = y) (by simp)
  | .null, .bool _ | .null, .int _ | .null, .float _ | .null, .text _ | .null, .list _
  | .null, .entity _ | .bool _, .null | .bool _, .int _ | .bool _, .float _ | .bool _, .text _
  | .bool _, .list _ | .bool _, .entity _ | .int _, .null | .int _, .bool _ | .int _, .float _
  | .int _, .text _ | .int _, .list _ | .int _, .entity _ | .float _, .null | .float _, .bool _
  | .float _, .int _ | .float _, .text _ | .float _, .list _ | .float _, .entity _
  | .text _, .null | .text _, .bool _ | .text _, .int _ | .text _, .float _ | .text _, .list _
  | .text _, .entity _ | .list _, .null | .list _, .bool _ | .list _, .int _ | .list _, .float _
  | .list _, .text _ | .list _, .entity _ | .entity _, .null | .entity _, .bool _
  | .entity _, .int _ | .entity _, .float _ | .entity _, .text _ | .entity _, .list _ =>
    isFalse (by simp)

/-- Decide whether two lists of values are identical. -/
def decEqList : (xs ys : List Value) → Decidable (xs = ys)
  | [], [] => isTrue rfl
  | [], _ :: _ => isFalse (by simp)
  | _ :: _, [] => isFalse (by simp)
  | x :: xs, y :: ys =>
    match decEq x y, decEqList xs ys with
    | isTrue h, isTrue t => isTrue (by rw [h, t])
    | isFalse h, _ => isFalse (by simp [h])
    | _, isFalse t => isFalse (by simp [t])

end

instance : DecidableEq Value := decEq

/-- Whether the value is null. -/
def isNull : Value → Bool
  | .null => true
  | _ => false

mutual

/-- Whether a value is an entity or a list that holds one at any depth. -/
def hasEntity : Value → Bool
  | .entity _ => true
  | .list items => anyHasEntity items
  | _ => false

/-- Whether one of several values is or holds an entity. -/
def anyHasEntity : List Value → Bool
  | [] => false
  | item :: rest => hasEntity item || anyHasEntity rest

end

mutual

/-- The value with every entity, also inside lists, replaced by its key. -/
def unwrap : Value → Value
  | .entity value => .text value.key
  | .list items => .list (unwrapAll items)
  | value => value

/-- Several values, each with its entities replaced by their keys. -/
def unwrapAll : List Value → List Value
  | [] => []
  | item :: rest => unwrap item :: unwrapAll rest

end

/-- How a value counts as a condition: null, false, zero, NaN, the empty text and the empty list
count as false. -/
def isTruthy : Value → Bool
  | .null => false
  | .bool value => value
  | .int value => value ≠ 0
  | .float value => !value.isZero && !value.isNaN
  | .text value => !value.isEmpty
  | .list items => !items.isEmpty
  | .entity _ => true

/-- The text of a text value. -/
def asText? : Value → Option String
  | .text value => some value
  | _ => none

/-- The integer of an integer value. -/
def asInt? : Value → Option Int64
  | .int value => some value
  | _ => none

/-- The order of two texts by code points. -/
def compareText (a b : String) : Ordering :=
  if a < b then .lt else if a = b then .eq else .gt

/-- The order of two values. Integers and floating-point numbers compare as numbers, entities of
one type by their keys, and values of different kinds and lists not at all. -/
def compare : Value → Value → Option Ordering
  | .null, .null => some .eq
  | .int a, .int b => some (Ord.compare a.toInt b.toInt)
  | .float a, .float b => Binary64.compare a b
  | .int a, .float b => Binary64.compare (Binary64.ofInt a.toInt) b
  | .float a, .int b => Binary64.compare a (Binary64.ofInt b.toInt)
  | .bool a, .bool b => some (Ord.compare a b)
  | .text a, .text b => some (compareText a b)
  | .entity a, .entity b => if a.type = b.type then some (compareText a.key b.key) else none
  | _, _ => none

mutual

/-- Equality of values. It differs from identity on floating-point numbers only: the two zeros are
equal and a NaN equals nothing. -/
def same : Value → Value → Bool
  | .null, .null => true
  | .bool a, .bool b => a = b
  | .int a, .int b => a = b
  | .float a, .float b => a.same b
  | .text a, .text b => a = b
  | .list as, .list bs => sameList as bs
  | .entity a, .entity b => a = b
  | _, _ => false

/-- Equality of lists of values, item by item. -/
def sameList : List Value → List Value → Bool
  | [], [] => true
  | a :: as, b :: bs => same a b && sameList as bs
  | _, _ => false

end

end Value

end RuleGraph
