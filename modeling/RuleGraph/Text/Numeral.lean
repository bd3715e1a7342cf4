/-! # Decimal numerals

Natural numbers and integers in decimal and hexadecimal digits.

* **`digits`** — the decimal digits of a number, without leading zeros.
* **`ofDigits`** — the number that a run of decimal digits stands for.
* **`intText`** — an integer with a minus sign in front when it is negative.
-/

namespace RuleGraph.Numeral

/-- The character of a digit below sixteen, letters in lower case. -/
def digitChar (d : Nat) : Char :=
  if d < 10 then Char.ofNat (48 + d) else Char.ofNat (87 + d)

/-- The digits of `n` in front of the digits already found; `steps` bounds how many are cut off,
and a number has no more digits than its own value plus one. -/
def digitsInto (base : Nat) : Nat → Nat → List Char → List Char
  | 0, _, found => found
  | steps + 1, n, found =>
    if n < base then digitChar n :: found
    else digitsInto base steps (n / base) (digitChar (n % base) :: found)

/-- The decimal digits of a number, most significant first. -/
def digits (n : Nat) : List Char :=
  digitsInto 10 (n + 1) n []

/-- The hexadecimal digits of a number, most significant first, in lower case. -/
def hexDigits (n : Nat) : List Char :=
  digitsInto 16 (n + 1) n []

/-- A number in decimal digits. -/
def natText (n : Nat) : String :=
  String.ofList (digits n)

/-- An integer in decimal digits, negative ones behind a minus sign. -/
def intText (n : Int) : String :=
  if n < 0 then "-" ++ natText n.natAbs else natText n.natAbs

/-- Whether a character is a decimal digit of ASCII. -/
def isDigit (c : Char) : Bool :=
  48 ≤ c.toNat && c.toNat ≤ 57

/-- The value of a decimal digit of ASCII. -/
def digitValue (c : Char) : Nat :=
  c.toNat - 48

/-- The number that a run of decimal digits stands for. -/
def ofDigits (text : List Char) : Nat :=
  text.foldl (fun n c => 10 * n + digitValue c) 0

/-- The value of a hexadecimal digit of ASCII in either letter case. -/
def hexValue? (c : Char) : Option Nat :=
  if isDigit c then some (digitValue c)
  else if 97 ≤ c.toNat && c.toNat ≤ 102 then some (c.toNat - 87)
  else if 65 ≤ c.toNat && c.toNat ≤ 70 then some (c.toNat - 55)
  else none

/-- The number that a run of hexadecimal digits stands for; digits of no value count as zero. -/
def ofHexDigits (text : List Char) : Nat :=
  text.foldl (fun n c => 16 * n + (hexValue? c).getD 0) 0

end RuleGraph.Numeral
