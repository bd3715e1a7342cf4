import RuleGraph.Json
import RuleGraph.Binary64.Decimal

/-! # Reading JSON

A strict reader of JSON documents. Containers nest at most one hundred and twenty-seven deep, a
repeated member of an object replaces the earlier one, and a number with a fraction or an exponent,
or out of the range of 64-bit words, is a floating-point number.

* **`Json.value`** — the reader of one value.
* **`Json.skipped`** — passes over one value of any depth without building it.
* **`Json.ofText?`** — the value of a whole document.
-/

namespace RuleGraph.Json

open RuleGraph.Numeral

/-- A reader takes a value off the front of a text, or fails. -/
abbrev Reader := StateT (List Char) Option

/-- How deep containers nest. -/
def depthLimit : Nat := 127

/-- The largest unsigned 64-bit word. -/
def greatestWord : Nat := Nat.pow 2 64 - 1

/-- The white space of JSON. -/
def isSpace (c : Char) : Bool :=
  c = ' ' || c = '\n' || c = '\t' || c = '\r'

/-- Pass over white space. -/
def spaces : Reader Unit :=
  modify (List.dropWhile isSpace)

/-- Take the next character. -/
def anyChar : Reader Char := fun text =>
  match text with
  | [] => none
  | c :: rest => some (c, rest)

/-- Take a given character. -/
def exactly (expected : Char) : Reader Unit := do
  let c ← anyChar
  if c = expected then pure () else failure

/-- Take the given characters one after the other. -/
def word (letters : List Char) : Reader Unit :=
  letters.forM exactly

/-- Whether the next character is a given one, which is then taken. -/
def optionally (expected : Char) : Reader Bool := fun text =>
  match text with
  | [] => some (false, [])
  | c :: rest => if c = expected then some (true, rest) else some (false, c :: rest)

/-- Take the digits at the front of the text. -/
def digitRun : Reader (List Char) := fun text =>
  some (text.takeWhile isDigit, text.dropWhile isDigit)

/-- Four hexadecimal digits. -/
def hexQuad : Reader Nat := do
  let mut n := 0
  for _ in [0, 1, 2, 3] do
    match hexValue? (← anyChar) with
    | some d => n := 16 * n + d
    | none => failure
  return n

/-- The character after `\u`: one code point, or two that form a surrogate pair. -/
def codePoint : Reader Char := do
  let first ← hexQuad
  if 0xdc00 ≤ first && first ≤ 0xdfff then failure
  else if 0xd800 ≤ first && first ≤ 0xdbff then
    exactly '\\'
    exactly 'u'
    let second ← hexQuad
    if 0xdc00 ≤ second && second ≤ 0xdfff then
      return Char.ofNat (0x10000 + (first - 0xd800) * 0x400 + (second - 0xdc00))
    else failure
  else return Char.ofNat first

/-- The character that an escape other than `\u` stands for. -/
def simpleEscape? (c : Char) : Option Char :=
  if c = '"' || c = '\\' || c = '/' then some c
  else if c = 'b' then some '\x08'
  else if c = 'f' then some '\x0c'
  else if c = 'n' then some '\n'
  else if c = 'r' then some '\r'
  else if c = 't' then some '\t'
  else none

/-- The characters up to the closing quote, at most `steps` of them. `afterCode` reads what follows
`\u`. -/
def quotedFrom (afterCode : Reader Char) : Nat → Reader (List Char)
  | 0 => failure
  | steps + 1 => do
    let c ← anyChar
    if c = '"' then return []
    else if c.toNat < 0x20 then failure
    else if c = '\\' then
      let mark ← anyChar
      let decoded ← if mark = 'u' then afterCode else simpleEscape? mark
      return decoded :: (← quotedFrom afterCode steps)
    else return c :: (← quotedFrom afterCode steps)

/-- A text behind its opening quote. -/
def quoted : Reader String := do
  let text ← quotedFrom codePoint ((← get).length + 1)
  return String.ofList text

/-- A text behind its opening quote, whatever its code points. -/
def quotedSkipped : Reader Unit := do
  let _ ← quotedFrom (do let _ ← hexQuad; return ' ') ((← get).length + 1)

/-- Append digits to a significand while it fits a word, and say which digits are left over. -/
def accumulate (significand : Nat) : List Char → Nat × List Char
  | [] => (significand, [])
  | c :: rest =>
    let next := 10 * significand + digitValue c
    if greatestWord < next then (significand, c :: rest) else accumulate next rest

/-- The greatest power of ten that scales a significand in one step. -/
def greatestStep : Nat := 308

/-- A significand divided by a power of ten, in steps that are each rounded. -/
def scaleDown : Nat → Binary64 → Nat → Binary64
  | 0, x, _ => x
  | steps + 1, x, exponent =>
    if exponent ≤ greatestStep then x.div (Binary64.roundRatio false (Nat.pow 10 exponent) 1)
    else if x.isZero then x
    else scaleDown steps (x.div (Binary64.roundRatio false (Nat.pow 10 greatestStep) 1))
      (exponent - greatestStep)

/-- The number `significand * 10 ^ exponent`: the significand is rounded, then scaled by rounded
powers of ten. An overflow is a failure. -/
def scaledFloat (significand : Nat) (exponent : Int) : Option Binary64 :=
  let start := Binary64.ofInt significand
  if 0 ≤ exponent then
    if exponent ≤ greatestStep then
      let product := start.mul (Binary64.roundRatio false (Nat.pow 10 exponent.toNat) 1)
      if product.isInfinite then none else some product
    else if start.isZero then some start
    else none
  else
    let magnitude := (-exponent).toNat
    some (scaleDown 4 start (min magnitude (4 * greatestStep)))

/-- The exponent of a numeral behind its letter `e`. -/
def exponent : Reader Int := do
  let negative ← optionally '-'
  if !negative then
    let _ ← optionally '+'
  let text ← digitRun
  if text.isEmpty then failure
  else return if negative then -(ofDigits text : Int) else ofDigits text

/-- A number behind its sign. Digits that no longer fit a word count as zeros before the point and
are dropped after it. -/
def unsigned (negative : Bool) : Reader Json := do
  let whole ← digitRun
  if whole.isEmpty || (1 < whole.length && whole.head? = some '0') then failure
  let (significand, extra) := accumulate 0 whole
  let hasPoint ← optionally '.'
  let fraction ← if hasPoint then digitRun else pure []
  if hasPoint && fraction.isEmpty then failure
  let (significand, dropped) := accumulate significand fraction
  let places : Int := extra.length - ((fraction.length - dropped.length : Nat) : Int)
  let hasExponent ← do
    if ← optionally 'e' then pure true else optionally 'E'
  let power ← if hasExponent then exponent else pure 0
  if hasPoint || hasExponent || !extra.isEmpty then
    let x ← scaledFloat significand (places + power)
    return .float (if negative then x.neg else x)
  else if negative then
    -- A negative zero is no integer, nor is what lies below the signed words.
    if significand = 0 || Nat.pow 2 63 < significand then
      return .float (Binary64.ofInt significand).neg
    else return .int (-(significand : Int))
  else return .int significand

/-- A number without regard to its size. -/
def unsignedSkipped : Reader Unit := do
  let whole ← digitRun
  if whole.isEmpty || (1 < whole.length && whole.head? = some '0') then failure
  if ← optionally '.' then
    if (← digitRun).isEmpty then failure
  let hasExponent ← do
    if ← optionally 'e' then pure true else optionally 'E'
  if hasExponent then
    let _ ← exponent

/-- What separates the items of a container: a comma, or its end. -/
def moreItems (close : Char) : Reader Bool := do
  spaces
  let c ← anyChar
  if c = ',' then return true
  else if c = close then return false
  else failure

/-- Items separated by commas up to the closing bracket, at most `steps` of them. -/
def itemsFrom {α : Type} (close : Char) (item : Reader α) : Nat → Reader (List α)
  | 0 => failure
  | steps + 1 => do
    let first ← item
    if ← moreItems close then return first :: (← itemsFrom close item steps)
    else return [first]

/-- The items of a container behind its opening bracket. -/
def items {α : Type} (close : Char) (item : Reader α) : Reader (List α) := do
  spaces
  if ← optionally close then return []
  else itemsFrom close item ((← get).length + 1)

/-- The name of a member and the colon behind it. -/
def memberName : Reader String := do
  spaces
  exactly '"'
  let name ← quoted
  spaces
  exactly ':'
  return name

/-- The name of a member that is passed over, and the colon behind it. -/
def memberNameSkipped : Reader Unit := do
  spaces
  exactly '"'
  quotedSkipped
  spaces
  exactly ':'

/-- A value whose items are read by `inner`; without one, a value that is no container. -/
def valueOf (inner : Option (Reader Json)) : Reader Json := do
  spaces
  let c ← anyChar
  if c = 'n' then do word ['u', 'l', 'l']; return .null
  else if c = 't' then do word ['r', 'u', 'e']; return .bool true
  else if c = 'f' then do word ['a', 'l', 's', 'e']; return .bool false
  else if c = '"' then return .text (← quoted)
  else if c = '-' then unsigned true
  else if isDigit c then do modify (c :: ·); unsigned false
  else
    let inner ← inner
    if c = '[' then return .list (← items ']' inner)
    else if c = '\x7b' then
      return ofMembers (← items '\x7d' (do
        let name ← memberName
        return (name, ← inner)))
    else failure

/-- A value that holds at most `depth` levels of containers. -/
def valueWithin : Nat → Reader Json
  | 0 => valueOf none
  | depth + 1 => valueOf (some (valueWithin depth))

/-- A value, its containers nested no deeper than the limit. -/
def value : Reader Json :=
  valueWithin depthLimit

/-- Pass over a value whose items are passed over by `inner`. -/
def skippedOf (inner : Option (Reader Unit)) : Reader Unit := do
  spaces
  let c ← anyChar
  if c = 'n' then word ['u', 'l', 'l']
  else if c = 't' then word ['r', 'u', 'e']
  else if c = 'f' then word ['a', 'l', 's', 'e']
  else if c = '"' then quotedSkipped
  else if c = '-' then unsignedSkipped
  else if isDigit c then do modify (c :: ·); unsignedSkipped
  else
    let inner ← inner
    if c = '[' then
      let _ ← items ']' inner
    else if c = '\x7b' then
      let _ ← items '\x7d' (do memberNameSkipped; inner)
    else failure

/-- Pass over a value that holds at most `depth` levels of containers. -/
def skippedWithin : Nat → Reader Unit
  | 0 => skippedOf none
  | depth + 1 => skippedOf (some (skippedWithin depth))

/-- Pass over a value of any depth. -/
def skipped : Reader Unit := do
  skippedWithin (← get).length

/-- The result of a reader on a whole document, white space around it aside. -/
def readAll {α : Type} (reader : Reader α) (text : List Char) : Option α :=
  match reader text with
  | some (result, rest) => if rest.all isSpace then some result else none
  | none => none

/-- The value of a document. -/
def ofText? (text : String) : Option Json :=
  readAll value text.toList

end RuleGraph.Json
