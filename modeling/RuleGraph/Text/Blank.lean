import RuleGraph.Text.CharRange

/-! # Blank characters

The characters of the Unicode property `White_Space`, and texts with the blanks at their ends
removed.

* **`isBlank`** — the property as a test.
* **`trim`** — a text without its leading and trailing blanks.
-/

namespace RuleGraph.Text

/-- The code points of the Unicode property `White_Space`. -/
def blankRanges : List CharRange :=
  [(0x9, 0xd), (0x20, 0x20), (0x85, 0x85), (0xa0, 0xa0), (0x1680, 0x1680), (0x2000, 0x200a),
    (0x2028, 0x2029), (0x202f, 0x202f), (0x205f, 0x205f), (0x3000, 0x3000)]

/-- Whether a character is white space in the sense of Unicode. -/
def isBlank (c : Char) : Bool :=
  CharRange.covers blankRanges c

/-- A list of characters without the blanks at its end. -/
def trimEnd (text : List Char) : List Char :=
  (text.reverse.dropWhile isBlank).reverse

/-- A list of characters without the blanks at either end. -/
def trimChars (text : List Char) : List Char :=
  trimEnd (text.dropWhile isBlank)

/-- A text without the blanks at either end. -/
def trim (text : String) : String :=
  String.ofList (trimChars text.toList)

/-- A text that holds nothing but blanks. -/
def isAllBlank (text : String) : Bool :=
  text.toList.all isBlank

end RuleGraph.Text
