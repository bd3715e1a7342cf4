/-! # Bytes

Lists of bytes, numbers stored in them, and readers that take values off their front.

* **`littleEndian`**, **`ofLittleEndian`** — numbers as bytes, the least significant byte first.
* **`ByteReader`** — readers of values.
* **`utf8`**, **`ofUtf8?`** — texts as bytes.
-/

namespace RuleGraph

/-- A sequence of bytes. -/
abbrev Bytes := List UInt8

namespace Bytes

/-- The last `count` base-256 digits of a number, the least significant first. -/
def littleEndian : Nat → Nat → Bytes
  | 0, _ => []
  | count + 1, n => UInt8.ofNat (n % 256) :: littleEndian count (n / 256)

/-- The number that bytes stand for, the least significant first. -/
def ofLittleEndian : Bytes → Nat
  | [] => 0
  | byte :: rest => byte.toNat + 256 * ofLittleEndian rest

/-- A number has as many bytes as it is given. -/
@[simp] theorem length_littleEndian (count n : Nat) : (littleEndian count n).length = count := by
  induction count generalizing n with
  | zero => rfl
  | succ count ih => simp [littleEndian, ih]

/-- The bytes of a number that fits into them stand for that number. -/
theorem ofLittleEndian_littleEndian (count n : Nat) (fits : n < Nat.pow 256 count) :
    ofLittleEndian (littleEndian count n) = n := by
  induction count generalizing n with
  | zero => simp at fits; simp [littleEndian, ofLittleEndian, fits]
  | succ count ih =>
    have smaller : n / 256 < Nat.pow 256 count := by
      apply Nat.div_lt_of_lt_mul
      rw [Nat.mul_comm]
      exact fits
    have byte : (UInt8.ofNat (n % 256)).toNat = n % 256 := by
      simp [UInt8.toNat_ofNat']
    rw [littleEndian, ofLittleEndian, ih _ smaller, byte]
    omega

/-- A text as bytes. -/
def utf8 (text : String) : Bytes :=
  text.toUTF8.data.toList

/-- The text of bytes, if they are well-formed. -/
def ofUtf8? (bytes : Bytes) : Option String :=
  String.fromUTF8? ⟨bytes.toArray⟩

end Bytes

/-- A reader takes a value off the front of bytes, or fails. -/
abbrev ByteReader := StateT Bytes Option

namespace ByteReader

/-- Take one byte. -/
def byte : ByteReader UInt8 := fun bytes =>
  match bytes with
  | [] => none
  | first :: rest => some (first, rest)

/-- Take a number of bytes. -/
def take (count : Nat) : ByteReader Bytes := fun bytes =>
  if count ≤ bytes.length then some (bytes.take count, bytes.drop count) else none

/-- Take a number stored in so many bytes. -/
def fixed (count : Nat) : ByteReader Nat := do
  return Bytes.ofLittleEndian (← take count)

/-- Take a number of values one after the other. -/
def times {α : Type} (item : ByteReader α) : Nat → ByteReader (List α)
  | 0 => pure []
  | count + 1 => do
    let first ← item
    return first :: (← times item count)

end ByteReader

end RuleGraph
