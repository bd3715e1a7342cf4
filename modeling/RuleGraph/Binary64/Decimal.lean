import RuleGraph.Binary64
import RuleGraph.Text.Numeral

/-! # Decimal text of floating-point numbers

Reading a decimal numeral as the nearest number, and writing a number with the fewest digits that
read back as it.

* **`Binary64.ofDecimal`** — the number nearest to `significand * 10 ^ exponent`.
* **`Binary64.ofText?`** — numerals with an optional sign, point and exponent, and the words for
  the infinities and NaN.
* **`Binary64.shortest`** — the fewest digits that determine a number, and among those the nearest.
* **`Binary64.write`** — the digits laid out positionally or with an exponent.
-/

namespace RuleGraph.Binary64

open RuleGraph.Numeral

/-- The largest decimal exponent, counted from the leading digit, of any finite number. -/
def greatestDecimalExponent : Int := 310

/-- A decimal exponent, counted from the leading digit, below which every number rounds to zero. -/
def leastDecimalExponent : Int := -330

/-- The number nearest to `significand * 10 ^ exponent` under a sign. Numerals far outside the
range of finite numbers are decided by the size of their exponent. -/
def ofDecimal (negative : Bool) (significand : Nat) (exponent : Int) : Binary64 :=
  let top := exponent + (digits significand).length
  if significand = 0 || top < leastDecimalExponent then zero negative
  else if greatestDecimalExponent < top then infinity negative
  else if 0 ≤ exponent then roundRatio negative (significand * Nat.pow 10 exponent.toNat) 1
  else roundRatio negative significand (Nat.pow 10 (-exponent).toNat)

/-- The sign in front of a numeral, if any, and what follows it. -/
def takeSign : List Char → Bool × List Char
  | '-' :: rest => (true, rest)
  | '+' :: rest => (false, rest)
  | text => (false, text)

/-- The exponent part of a numeral: nothing at all, or a letter `e`, an optional sign and digits. -/
def exponentOf? : List Char → Option Int
  | [] => some 0
  | mark :: rest =>
    if mark = 'e' || mark = 'E' then
      let (negative, text) := takeSign rest
      if text.isEmpty || !text.all isDigit then none
      else some (if negative then -(ofDigits text : Int) else ofDigits text)
    else none

/-- A numeral without its sign: digits, an optional point and digits, an optional exponent. At
least one digit stands before or after the point. -/
def ofUnsignedText? (negative : Bool) (text : List Char) : Option Binary64 :=
  let whole := text.takeWhile isDigit
  let afterWhole := text.dropWhile isDigit
  let (fraction, rest) := match afterWhole with
    | '.' :: more => (more.takeWhile isDigit, more.dropWhile isDigit)
    | more => ([], more)
  if whole.isEmpty && fraction.isEmpty then none
  else (exponentOf? rest).map fun exponent =>
    ofDecimal negative (ofDigits (whole ++ fraction)) (exponent - fraction.length)

/-- A numeral, or one of the words `inf`, `infinity` and `nan` in any letter case, after an
optional sign. -/
def ofText? (text : String) : Option Binary64 :=
  let (negative, body) := takeSign text.toList
  let word := String.ofList (body.map Char.toLower)
  if word = "inf" || word = "infinity" then some (infinity negative)
  else if word = "nan" then some (quietNaN negative)
  else ofUnsignedText? negative body

/-- Which of two equally near decimals is chosen. -/
inductive Tie where
  /-- The larger magnitude. -/
  | up
  /-- The one whose last digit is even. -/
  | even
  deriving DecidableEq

/-- A decimal `coefficient * 10 ^ exponent`. -/
structure Decimal where
  /-- The digits as one number. -/
  coefficient : Nat
  /-- The power of ten of the last digit. -/
  exponent : Int
  deriving DecidableEq

/-- The decimal exponent of the first digit. -/
def Decimal.leadingExponent (d : Decimal) : Int :=
  d.exponent + (digits d.coefficient).length - 1

/-- Four times the ends and the value of the interval of reals that round to a finite number,
over a common denominator: below, value, above and denominator. The lower neighbour of a power of
two is only half as far away as the upper one. -/
def neighbourhood (x : Binary64) : Nat × Nat × Nat × Nat :=
  let m := x.significand
  let narrow := m = exponentWeight && leastScale < x.scale
  let below := 4 * m - if narrow then 1 else 2
  let above := 4 * m + 2
  if 0 ≤ x.scale then
    let factor := Nat.pow 2 x.scale.toNat
    (below * factor, 4 * m * factor, above * factor, 4)
  else (below, 4 * m, above, 4 * Nat.pow 2 (-x.scale).toNat)

/-- A fraction multiplied by a power of ten. -/
def shiftDecimal (num den : Nat) (exponent : Int) : Nat × Nat :=
  if 0 ≤ exponent then (num * Nat.pow 10 exponent.toNat, den)
  else (num, den * Nat.pow 10 (-exponent).toNat)

/-- The exponent `point` with `10 ^ (point - 1) ≤ num / den < 10 ^ point`, found by counting down
from a bound above it. -/
def pointFrom (num den : Nat) : Nat → Int → Int
  | 0, point => point
  | steps + 1, point =>
    let (top, bottom) := shiftDecimal num den (1 - point)
    if bottom ≤ top then point else pointFrom num den steps (point - 1)

/-- The position of the point in front of the first decimal digit of a positive quotient. -/
def pointOf (num den : Nat) : Int :=
  let guess : Int := ((num.log2 : Int) - (den.log2 : Int) + 1) * 30103 / 100000 + 2
  pointFrom num den 5 guess

/-- The decimal with `count` digits that lies in a number's interval and is nearest to the number,
if any does. The two candidates are the neighbours of the number on the grid of such decimals. -/
def withDigits? (x : Binary64) (tie : Tie) (point : Int) (count : Nat) : Option Decimal :=
  let (below, value, above, den) := x.neighbourhood
  -- The ends of the interval round to the number itself exactly if its significand is even.
  let closed := x.significand % 2 = 0
  let (low, unit) := shiftDecimal below den (count - point)
  let (middle, _) := shiftDecimal value den (count - point)
  let (high, _) := shiftDecimal above den (count - point)
  let lower := middle / unit
  let upper := lower + 1
  let fits (candidate : Nat) : Bool :=
    (low < candidate * unit || (closed && low = candidate * unit)) &&
      (candidate * unit < high || (closed && high = candidate * unit))
  let distanceDown := middle - lower * unit
  let distanceUp := upper * unit - middle
  let preferUpper := distanceUp < distanceDown ||
    (distanceUp = distanceDown && (tie = .up || lower % 2 = 1))
  let chosen : Option Nat :=
    if fits lower && fits upper then some (if preferUpper then upper else lower)
    else if fits lower then some lower
    else if fits upper then some upper
    else none
  chosen.map fun coefficient => ⟨coefficient, point - count⟩

/-- The same decimal without zeros at the end of its coefficient, as far as `steps` allow. -/
def Decimal.dropZeros : Nat → Decimal → Decimal
  | 0, d => d
  | steps + 1, d =>
    if d.coefficient % 10 = 0 && d.coefficient ≠ 0 then
      dropZeros steps ⟨d.coefficient / 10, d.exponent + 1⟩
    else d

/-- The decimal with the fewest digits that rounds to a positive finite number, and among those the
nearest to it. Seventeen digits always suffice. -/
def shortest (x : Binary64) (tie : Tie) : Decimal :=
  let (_, value, _, den) := x.neighbourhood
  let point := pointOf value den
  let found := (List.range 17).findSome? fun n => withDigits? x tie point (n + 1)
  (found.getD ⟨0, point⟩).dropZeros 18

/-- How the digits of a number are laid out. -/
structure DecimalStyle where
  /-- The least exponent of the first digit at which a number is written positionally. -/
  leastPositional : Int
  /-- The greatest exponent of the first digit at which a number is written positionally. -/
  greatestPositional : Int
  /-- Whether a positive exponent carries a sign. -/
  plusSign : Bool
  /-- The choice between equally near decimals. -/
  tie : Tie

/-- Numbers in rule source: positional from `0.0001` up to but not including `1e16`. -/
def DecimalStyle.source : DecimalStyle := ⟨-4, 15, false, .up⟩

/-- Numbers in JSON: positional from `0.00001` up to but not including `1e+16`. -/
def DecimalStyle.json : DecimalStyle := ⟨-5, 15, true, .even⟩

/-- Digits with a point after the first `whole` of them, padded by zeros so that a digit stands on
either side of the point. -/
def positional (text : List Char) (whole : Int) : List Char :=
  if whole ≤ 0 then '0' :: '.' :: (List.replicate (-whole).toNat '0' ++ text)
  else
    let before := text.take whole.toNat
    let after := text.drop whole.toNat
    let padding := List.replicate (whole.toNat - text.length) '0'
    before ++ padding ++ '.' :: (if after.isEmpty then ['0'] else after)

/-- Digits with a point after the first one, where more follow, and a power of ten. -/
def scientific (style : DecimalStyle) (text : List Char) (exponent : Int) : List Char :=
  let mantissa := match text with
    | [] => []
    | [digit] => [digit]
    | digit :: more => digit :: '.' :: more
  let sign := if exponent < 0 then ['-'] else if style.plusSign then ['+'] else []
  mantissa ++ 'e' :: (sign ++ digits exponent.natAbs)

/-- The text of a positive finite number. -/
def writePositive (style : DecimalStyle) (x : Binary64) : List Char :=
  let decimal := shortest x style.tie
  let leading := decimal.leadingExponent
  let text := digits decimal.coefficient
  if style.leastPositional ≤ leading && leading ≤ style.greatestPositional then
    positional text (leading + 1)
  else scientific style text leading

/-- The text of a number: a minus sign for a set sign bit, `inf` and `NaN` for what is not finite,
and always a point or an exponent in a finite one. -/
def write (style : DecimalStyle) (x : Binary64) : String :=
  if x.isNaN then "NaN"
  else
    let body := if x.isInfinite then ['i', 'n', 'f']
      else if x.isZero then ['0', '.', '0']
      else writePositive style x
    String.ofList (if x.isNegative then '-' :: body else body)

end RuleGraph.Binary64
