/-! # Binary floating point

Sixty-four-bit floating-point numbers as the words that store them: one sign bit, eleven exponent
bits and fifty-two fraction bits. A finite number is a sign and a magnitude
`significand * 2 ^ scale`; every operation computes on exact integers and rounds once, to the
nearest number and to the even one of two equally near ones.

* **`roundRatio`** — the number nearest to a quotient of natural numbers.
* **`add`**, **`mul`**, **`div`** — exact arithmetic followed by one rounding.
* **`compare`** — the order of numbers, in which nothing compares with a NaN and the two zeros
  are equal.
-/

namespace RuleGraph

/-- A floating-point number, given by its sixty-four bits. -/
structure Binary64 where
  /-- Sign, exponent and fraction, from the most significant bit on. -/
  bits : UInt64
  deriving DecidableEq, Inhabited

namespace Binary64

/-- The weight of the sign bit. -/
def signWeight : Nat := Nat.pow 2 63

/-- The weight of the lowest exponent bit. -/
def exponentWeight : Nat := Nat.pow 2 52

/-- The bits of the infinities without the sign. -/
def infinityMagnitude : Nat := 2047 * exponentWeight

/-- The exponent of the least significant bit of the smallest numbers. -/
def leastScale : Int := -1074

/-- The bits other than the sign. -/
def magnitudeBits (x : Binary64) : Nat :=
  x.bits.toNat % signWeight

/-- Whether the sign bit is set. -/
def isNegative (x : Binary64) : Bool :=
  signWeight ≤ x.bits.toNat

/-- Whether the word stands for no number. -/
def isNaN (x : Binary64) : Bool :=
  infinityMagnitude < x.magnitudeBits

/-- Whether the word stands for one of the two infinities. -/
def isInfinite (x : Binary64) : Bool :=
  x.magnitudeBits = infinityMagnitude

/-- Whether the word stands for one of the two zeros. -/
def isZero (x : Binary64) : Bool :=
  x.magnitudeBits = 0

/-- The number with the given sign and remaining bits. -/
def ofMagnitudeBits (negative : Bool) (magnitude : Nat) : Binary64 :=
  ⟨UInt64.ofNat (magnitude + if negative then signWeight else 0)⟩

/-- The zero of a sign. -/
def zero (negative : Bool) : Binary64 := ofMagnitudeBits negative 0

/-- The infinity of a sign. -/
def infinity (negative : Bool) : Binary64 := ofMagnitudeBits negative infinityMagnitude

/-- The quiet NaN with no payload, under a sign. -/
def quietNaN (negative : Bool) : Binary64 :=
  ofMagnitudeBits negative (infinityMagnitude + Nat.pow 2 51)

/-- The opposite number. -/
def neg (x : Binary64) : Binary64 :=
  ofMagnitudeBits (!x.isNegative) x.magnitudeBits

/-- The integer factor of a finite magnitude `significand * 2 ^ scale`. -/
def significand (x : Binary64) : Nat :=
  if x.magnitudeBits < exponentWeight then x.magnitudeBits
  else exponentWeight + x.magnitudeBits % exponentWeight

/-- The power of two of a finite magnitude `significand * 2 ^ scale`. -/
def scale (x : Binary64) : Int :=
  if x.magnitudeBits < exponentWeight then leastScale
  else (x.magnitudeBits / exponentWeight : Nat) - 1 + leastScale

/-- A quotient rounded to the nearest integer, and to the even one of two equally near ones. -/
def roundDiv (num den : Nat) : Nat :=
  let quotient := num / den
  let twice := 2 * (num % den)
  if den < twice || (den = twice && quotient % 2 = 1) then quotient + 1 else quotient

/-- The quotient `num / (den * 2 ^ scale)` as a numerator and a denominator. -/
def scaled (num den : Nat) (scale : Int) : Nat × Nat :=
  if 0 ≤ scale then (num, den * Nat.pow 2 scale.toNat)
  else (num * Nat.pow 2 (-scale).toNat, den)

/-- The scale at which a positive quotient has a significand of fifty-three bits, or the least
scale for quotients too small for that. -/
def scaleOf (num den : Nat) : Int :=
  let guess : Int := (num.log2 : Int) - (den.log2 : Int) - 52
  let (top, bottom) := scaled num den guess
  let fitted := if top < bottom * exponentWeight then guess - 1 else guess
  max leastScale fitted

/-- The number nearest to the quotient `num / den` under a sign; an overflow gives the infinity. -/
def roundRatio (negative : Bool) (num den : Nat) : Binary64 :=
  if num = 0 then zero negative
  else
    let scale := scaleOf num den
    let (top, bottom) := scaled num den scale
    -- A significand that is rounded up to the next power of two carries into the exponent.
    let magnitude := (scale - leastScale).toNat * exponentWeight + roundDiv top bottom
    ofMagnitudeBits negative (min magnitude infinityMagnitude)

/-- The number nearest to an integer times a power of two. -/
def roundDyadic (n : Int) (scale : Int) : Binary64 :=
  let (num, den) := scaled n.natAbs 1 (-scale)
  roundRatio (n < 0) num den

/-- The number nearest to an integer. -/
def ofInt (n : Int) : Binary64 :=
  roundRatio (n < 0) n.natAbs 1

/-- The significand under the number's sign. -/
def signedSignificand (x : Binary64) : Int :=
  if x.isNegative then -(x.significand : Int) else x.significand

/-- The sum of two finite numbers; a sum of zero is negative only if both terms are. -/
def addFinite (x y : Binary64) : Binary64 :=
  let least := min x.scale y.scale
  let sum := x.signedSignificand * (Nat.pow 2 (x.scale - least).toNat : Int)
    + y.signedSignificand * (Nat.pow 2 (y.scale - least).toNat : Int)
  if sum = 0 then zero (x.isNegative && y.isNegative) else roundDyadic sum least

/-- The sum of two numbers. -/
def add (x y : Binary64) : Binary64 :=
  if x.isNaN || y.isNaN then quietNaN false
  else if x.isInfinite then
    if y.isInfinite && x.isNegative != y.isNegative then quietNaN false else x
  else if y.isInfinite then y
  else addFinite x y

/-- The product of two finite numbers. -/
def mul (x y : Binary64) : Binary64 :=
  let negative := x.isNegative != y.isNegative
  let (num, den) := scaled (x.significand * y.significand) 1 (-(x.scale + y.scale))
  roundRatio negative num den

/-- The quotient of two finite numbers, the second one not zero. -/
def div (x y : Binary64) : Binary64 :=
  let negative := x.isNegative != y.isNegative
  let (num, den) := scaled x.significand y.significand (y.scale - x.scale)
  roundRatio negative num den

/-- A number's place in the order of all numbers; both zeros have place zero. -/
def place (x : Binary64) : Int :=
  if x.isNegative then -(x.magnitudeBits : Int) else x.magnitudeBits

/-- The order of two numbers; a NaN compares with nothing. -/
def compare (x y : Binary64) : Option Ordering :=
  if x.isNaN || y.isNaN then none else some (Ord.compare x.place y.place)

/-- Equality of numbers: the two zeros are equal and a NaN equals nothing. -/
def same (x y : Binary64) : Bool :=
  compare x y = some .eq

end Binary64

end RuleGraph
