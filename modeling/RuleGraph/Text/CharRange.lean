/-! # Ranges of characters

A class of characters given by the inclusive ranges of code points that make it up.

* **`CharRange.covers`** — membership of a character in a list of ranges.
-/

namespace RuleGraph.Text

/-- An inclusive range of code points, from its first to its last. -/
abbrev CharRange := Nat × Nat

/-- A character lies in a range when its code point is between the two ends. -/
def CharRange.contains (range : CharRange) (c : Char) : Bool :=
  range.1 ≤ c.toNat && c.toNat ≤ range.2

/-- A list of ranges covers a character when one of them contains it. -/
def CharRange.covers (ranges : List CharRange) (c : Char) : Bool :=
  ranges.any fun range => range.contains c

end RuleGraph.Text
