import RuleGraph.Blob.Bytes

/-! # Numbers of variable length

Unsigned numbers below 251 take one byte. Larger ones take a mark and two, four or eight bytes.
Signed numbers are interleaved with their opposites first, so that small magnitudes stay short.

* **`Varint.write`**, **`Varint.read`** — unsigned numbers.
* **`Varint.writeInt`**, **`Varint.readInt`** — signed numbers.
-/

namespace RuleGraph.Varint

/-- The bytes of a number below `2 ^ 64`. -/
def write (n : Nat) : Bytes :=
  if n < 251 then [UInt8.ofNat n]
  else if n < Nat.pow 2 16 then 251 :: Bytes.littleEndian 2 n
  else if n < Nat.pow 2 32 then 252 :: Bytes.littleEndian 4 n
  else 253 :: Bytes.littleEndian 8 n

/-- A number of at most `most` bytes behind its mark. Longer forms than needed are accepted. -/
def readUpTo (most : Nat) : ByteReader Nat := do
  let first ← ByteReader.byte
  if first.toNat < 251 then return first.toNat
  else if first = 251 then ByteReader.fixed 2
  else if first = 252 then ByteReader.fixed 4
  else if first = 253 && 8 ≤ most then ByteReader.fixed 8
  else failure

/-- A number of up to sixty-four bits. -/
def read : ByteReader Nat := readUpTo 8

/-- A number of up to thirty-two bits, which tells alternatives apart. -/
def readTag : ByteReader Nat := readUpTo 4

/-- The unsigned number for a signed one: even for what is not negative, odd for the rest. -/
def zigzag (n : Int) : Nat :=
  if 0 ≤ n then 2 * n.toNat else 2 * (-n).toNat - 1

/-- The signed number of an unsigned one. -/
def unzigzag (n : Nat) : Int :=
  if n % 2 = 0 then (n / 2 : Nat) else -((n / 2 : Nat) : Int) - 1

/-- The bytes of a signed number. -/
def writeInt (n : Int64) : Bytes := write (zigzag n.toInt)

/-- A signed number. -/
def readInt : ByteReader Int64 := do
  return Int64.ofInt (unzigzag (← read))

end RuleGraph.Varint
