import RuleGraph.Value.Text

/-! # Slots

The nodes of a rule graph: inputs, features, statements, and groups of statements. Expressions in
slots name functions by their qualified names.

* **`SlotExpr`** — expressions over values, slots and functions.
* **`SlotExpr.references`** — the names an expression refers to, in order of first appearance.
* **`SlotExpr.calls`** — the calls in an expression, with their numbers of arguments.
* **`Slot`** — a named node and the names it depends on.
-/

namespace RuleGraph

/-- An expression in a slot. -/
inductive SlotExpr where
  /-- A literal value. -/
  | const (value : Value)
  /-- The value of another slot. -/
  | feature (name : String)
  /-- A list of expressions. -/
  | list (items : List SlotExpr)
  /-- A call of a registered function. -/
  | call (function : String) (args : List SlotExpr)
  deriving Inhabited

namespace SlotExpr

mutual

/-- Decide whether two expressions are identical. -/
def decEq : (a b : SlotExpr) → Decidable (a = b)
  | .const x, .const y => decidable_of_iff (x = y) (by simp)
  | .feature x, .feature y => decidable_of_iff (x = y) (by simp)
  | .list xs, .list ys =>
    match decEqList xs ys with
    | isTrue h => isTrue (by rw [h])
    | isFalse h => isFalse (by simpa using h)
  | .call f xs, .call g ys =>
    match decEqList xs ys with
    | isTrue h => decidable_of_iff (f = g) (by simp [h])
    | isFalse h => isFalse (by simp [h])
  | .const _, .feature _ | .const _, .list _ | .const _, .call _ _ | .feature _, .const _
  | .feature _, .list _ | .feature _, .call _ _ | .list _, .const _ | .list _, .feature _
  | .list _, .call _ _ | .call _ _, .const _ | .call _ _, .feature _ | .call _ _, .list _ =>
    isFalse (by simp)

/-- Decide whether two lists of expressions are identical. -/
def decEqList : (xs ys : List SlotExpr) → Decidable (xs = ys)
  | [], [] => isTrue rfl
  | [], _ :: _ => isFalse (by simp)
  | _ :: _, [] => isFalse (by simp)
  | x :: xs, y :: ys =>
    match decEq x y, decEqList xs ys with
    | isTrue h, isTrue t => isTrue (by rw [h, t])
    | isFalse h, _ => isFalse (by simp [h])
    | _, isFalse t => isFalse (by simp [t])

end

instance : DecidableEq SlotExpr := decEq

mutual

/-- The names of the slots read, in order and with repetitions. -/
def features : SlotExpr → List String
  | .const _ => []
  | .feature name => [name]
  | .list items => featuresOfAll items
  | .call _ args => featuresOfAll args

/-- The names of the slots that several expressions read. -/
def featuresOfAll : List SlotExpr → List String
  | [] => []
  | item :: rest => features item ++ featuresOfAll rest

end

mutual

/-- The calls, outer before inner and left before right, with their numbers of arguments. -/
def calls : SlotExpr → List (String × Nat)
  | .const _ => []
  | .feature _ => []
  | .list items => callsOfAll items
  | .call function args => (function, args.length) :: callsOfAll args

/-- The calls in several expressions. -/
def callsOfAll : List SlotExpr → List (String × Nat)
  | [] => []
  | item :: rest => calls item ++ callsOfAll rest

end

mutual

/-- The source text of an expression. -/
def write : SlotExpr → String
  | .const value => value.write
  | .feature name => name
  | .list items => "[" ++ commaSeparated (writeAll items) ++ "]"
  | .call function args => function ++ "(" ++ commaSeparated (writeAll args) ++ ")"

/-- The source texts of several expressions. -/
def writeAll : List SlotExpr → List String
  | [] => []
  | item :: rest => write item :: writeAll rest

end

end SlotExpr

/-- The members of a list in order of their first appearance, each once. -/
def distinct (names : List String) : List String :=
  names.foldl (fun seen name => if name ∈ seen then seen else seen ++ [name]) []

/-- The names an expression refers to, each once, in order of first appearance. -/
def SlotExpr.references (body : SlotExpr) : List String :=
  distinct body.features

/-- What a slot computes. -/
inductive SlotKind where
  /-- A value that the host supplies. -/
  | input
  /-- The value of an expression. -/
  | feature (body : SlotExpr)
  /-- A statement of a statement feature, under a condition or always. -/
  | statement (feature : String) (condition : Option SlotExpr) (call : SlotExpr)
  /-- A statement feature: all of its statements. -/
  | group
  deriving DecidableEq, Inhabited

/-- A node of a rule graph. -/
structure Slot where
  /-- The name by which other slots refer to it. -/
  name : String
  /-- What it computes. -/
  kind : SlotKind
  /-- The names of the slots it depends on, in order. -/
  deps : List String
  deriving DecidableEq, Inhabited

namespace Slot

/-- A slot that the host supplies. -/
def input (name : String) : Slot := ⟨name, .input, []⟩

/-- A slot for an expression, which depends on what the expression refers to. -/
def feature (name : String) (body : SlotExpr) : Slot :=
  ⟨name, .feature body, body.references⟩

/-- A slot for a statement, which depends on what its condition and then its call refer to. -/
def statement (name feature : String) (condition : Option SlotExpr) (call : SlotExpr) : Slot :=
  let conditionFeatures := (condition.map SlotExpr.features).getD []
  ⟨name, .statement feature condition call, distinct (conditionFeatures ++ call.features)⟩

/-- A slot for a statement feature, which depends on its statements. -/
def group (name : String) (members : List String) : Slot := ⟨name, .group, members⟩

/-- Whether a slot is supplied by the host. -/
def isInput (slot : Slot) : Bool :=
  slot.kind = .input

/-- Whether a slot is a statement feature. -/
def isGroup (slot : Slot) : Bool :=
  slot.kind = .group

/-- Whether a slot is a single statement. -/
def isSingleStatement (slot : Slot) : Bool :=
  match slot.kind with
  | .statement _ _ _ => true
  | _ => false

/-- Whether a slot is a statement or a statement feature. -/
def isStatement (slot : Slot) : Bool :=
  slot.isSingleStatement || slot.isGroup

/-- The expressions of a slot: a feature's, or a statement's condition and call. -/
def expressions (slot : Slot) : List SlotExpr :=
  match slot.kind with
  | .input => []
  | .feature body => [body]
  | .statement _ condition call => condition.toList ++ [call]
  | .group => []

/-- The source text of a slot. A statement feature has none. -/
def write? (slot : Slot) : Option String :=
  match slot.kind with
  | .input => some ("LET " ++ slot.name ++ " := input();")
  | .feature body => some ("LET " ++ slot.name ++ " := " ++ body.write ++ ";")
  | .statement _ (some condition) call =>
    some ("WHEN " ++ condition.write ++ " THEN " ++ call.write ++ ";")
  | .statement _ none call => some ("EXECUTE " ++ call.write ++ ";")
  | .group => none

end Slot

end RuleGraph
