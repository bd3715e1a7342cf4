import RuleGraph.Blob.Varint
import RuleGraph.Slot

/-! # The payload of a blob

The slots of a graph as bytes: every alternative behind its number, every text and list behind its
length. A reader stands beside every writer.

* **`Payload.write`** — the bytes of a payload.
* **`Payload.read`** — the payload at the front of bytes.
-/

namespace RuleGraph

/-- What is stored about a graph. -/
structure Payload where
  /-- The number of slots, for comparison. -/
  count : Nat
  /-- The hash of the source text, if there was one. -/
  sourceDigest : Option Bytes
  /-- The slots in order. -/
  slots : List Slot
  deriving DecidableEq

namespace Payload

/-- The bytes of a text. -/
def writeText (text : String) : Bytes :=
  let bytes := Bytes.utf8 text
  Varint.write bytes.length ++ bytes

/-- A text. -/
def readText : ByteReader String := do
  let length ← Varint.read
  let bytes ← ByteReader.take length
  Bytes.ofUtf8? bytes

/-- The bytes of a list of texts. -/
def writeTexts (texts : List String) : Bytes :=
  Varint.write texts.length ++ texts.flatMap writeText

/-- A list of items. -/
def readList {α : Type} (item : ByteReader α) : ByteReader (List α) := do
  ByteReader.times item (← Varint.read)

/-- The bytes of a truth value. -/
def writeBool (value : Bool) : Bytes := [if value then 1 else 0]

/-- A truth value. -/
def readBool : ByteReader Bool := do
  let byte ← ByteReader.byte
  if byte = 0 then return false
  else if byte = 1 then return true
  else failure

/-- The bytes of something that may be missing. -/
def writeOption {α : Type} (item : α → Bytes) : Option α → Bytes
  | none => [0]
  | some value => 1 :: item value

/-- Something that may be missing. -/
def readOption {α : Type} (item : ByteReader α) : ByteReader (Option α) := do
  if ← readBool then return some (← item) else return none

mutual

/-- The bytes of a value. -/
def writeValue : Value → Bytes
  | .null => Varint.write 0
  | .bool value => Varint.write 1 ++ writeBool value
  | .int value => Varint.write 2 ++ Varint.writeInt value
  | .float value => Varint.write 3 ++ Bytes.littleEndian 8 value.bits.toNat
  | .text value => Varint.write 4 ++ writeText value
  | .list items => Varint.write 5 ++ Varint.write items.length ++ writeValues items
  | .entity value => Varint.write 6 ++ writeText value.type ++ writeText value.key

/-- The bytes of several values. -/
def writeValues : List Value → Bytes
  | [] => []
  | item :: rest => writeValue item ++ writeValues rest

end

/-- A value whose items are read by `item`. -/
def readValueOver (item : ByteReader Value) : ByteReader Value := do
  let tag ← Varint.readTag
  match tag with
  | 0 => return .null
  | 1 => return .bool (← readBool)
  | 2 => return .int (← Varint.readInt)
  | 3 => return .float ⟨UInt64.ofNat (← ByteReader.fixed 8)⟩
  | 4 => return .text (← readText)
  | 5 => return .list (← readList item)
  | 6 =>
    let type ← readText
    let key ← readText
    return .entity ⟨type, key⟩
  | _ => failure

/-- A value that nests at most so deep. -/
def readValueWithin : Nat → ByteReader Value
  | 0 => failure
  | depth + 1 => readValueOver (readValueWithin depth)

/-- A value. Every level of nesting takes a byte, so the length of the bytes bounds it. -/
def readValue : ByteReader Value := fun bytes =>
  readValueWithin (bytes.length + 1) bytes

mutual

/-- The bytes of an expression. -/
def writeExpr : SlotExpr → Bytes
  | .const value => Varint.write 0 ++ writeValue value
  | .feature name => Varint.write 1 ++ writeText name
  | .list items => Varint.write 2 ++ Varint.write items.length ++ writeExprs items
  | .call function args =>
    Varint.write 3 ++ writeText function ++ Varint.write args.length ++ writeExprs args

/-- The bytes of several expressions. -/
def writeExprs : List SlotExpr → Bytes
  | [] => []
  | item :: rest => writeExpr item ++ writeExprs rest

end

/-- An expression whose parts are read by `item`. -/
def readExprOver (item : ByteReader SlotExpr) : ByteReader SlotExpr := do
  let tag ← Varint.readTag
  match tag with
  | 0 => return .const (← readValue)
  | 1 => return .feature (← readText)
  | 2 => return .list (← readList item)
  | 3 =>
    let function ← readText
    return .call function (← readList item)
  | _ => failure

/-- An expression that nests at most so deep. -/
def readExprWithin : Nat → ByteReader SlotExpr
  | 0 => failure
  | depth + 1 => readExprOver (readExprWithin depth)

/-- An expression. -/
def readExpr : ByteReader SlotExpr := fun bytes =>
  readExprWithin (bytes.length + 1) bytes

/-- The bytes of what a slot computes. -/
def writeKind : SlotKind → Bytes
  | .input => Varint.write 0
  | .feature body => Varint.write 1 ++ writeExpr body
  | .statement feature condition call =>
    Varint.write 2 ++ writeText feature ++ writeOption writeExpr condition ++ writeExpr call
  | .group => Varint.write 3

/-- What a slot computes. -/
def readKind : ByteReader SlotKind := do
  let tag ← Varint.readTag
  match tag with
  | 0 => return .input
  | 1 => return .feature (← readExpr)
  | 2 =>
    let feature ← readText
    let condition ← readOption readExpr
    return .statement feature condition (← readExpr)
  | 3 => return .group
  | _ => failure

/-- The bytes of a slot. -/
def writeSlot (slot : Slot) : Bytes :=
  writeText slot.name ++ writeKind slot.kind ++ writeTexts slot.deps

/-- A slot. -/
def readSlot : ByteReader Slot := do
  let name ← readText
  let kind ← readKind
  return ⟨name, kind, ← readList readText⟩

/-- The bytes of a payload. -/
def write (payload : Payload) : Bytes :=
  Varint.write payload.count ++ writeOption id payload.sourceDigest
    ++ Varint.write payload.slots.length ++ payload.slots.flatMap writeSlot

/-- The payload at the front of bytes. -/
def read : ByteReader Payload := do
  let count ← Varint.read
  let sourceDigest ← readOption (ByteReader.take 32)
  return ⟨count, sourceDigest, ← readList readSlot⟩

end Payload

end RuleGraph
