import RuleGraph.Blob.Payload
import Mathlib.Algebra.Order.Ring.Nat

/-! # What readers take back

A reader belongs to a writer if it takes off the front of bytes just what the writer has put there,
whatever follows. Readers of parts make up the reader of a whole in the order of the parts.

* **`ByteReader.Reads`** — a reader takes a value off the front of bytes.
* **`ByteReader.Reads.bind`** — one reader after the other.
* **`ByteReader.Reads.times`** — a reader again and again.
* **`Varint.read_write`**, **`Varint.readInt_writeInt`** — numbers are taken back.
* **`Payload.readText_writeText`**, **`Payload.readList_write`** — so are texts and lists.
-/

namespace RuleGraph

/-- A reader takes a value off the front of bytes and leaves whatever follows it. -/
def ByteReader.Reads {α : Type} (reader : ByteReader α) (bytes : Bytes) (a : α) : Prop :=
  ∀ rest, reader (bytes ++ rest) = some (a, rest)

namespace ByteReader

variable {α β : Type} {bytes bytes' : Bytes} {a : α} {b : β}

namespace Reads

/-- Nothing has to be read for a value that is known. -/
theorem pure : Reads (Pure.pure a) [] a :=
  fun _ => rfl

/-- One reader after the other takes what two writers have put side by side. -/
theorem bind {first : ByteReader α} {next : α → ByteReader β} (onFirst : first.Reads bytes a)
    (onNext : (next a).Reads bytes' b) : Reads (first >>= next) (bytes ++ bytes') b := by
  intro rest
  show (first (bytes ++ bytes' ++ rest) >>= fun run => next run.1 run.2) = some (b, rest)
  rw [List.append_assoc, onFirst]
  exact onNext rest

/-- What is read is passed on. -/
theorem map {reader : ByteReader α} {f : α → β} (reads : reader.Reads bytes a) :
    Reads (do return f (← reader)) bytes (f a) := by
  have both : Reads (reader >>= fun a => Pure.pure (f a)) (bytes ++ []) (f a) := reads.bind pure
  rwa [List.append_nil] at both

/-- A reader again and again takes the items of a list one by one. -/
theorem times {item : ByteReader α} {write : α → Bytes} {items : List α}
    (each : ∀ a ∈ items, item.Reads (write a) a) :
    Reads (ByteReader.times item items.length) (items.flatMap write) items := by
  induction items with
  | nil => exact pure
  | cons first rest ih =>
    have others := ih fun a member => each a (List.mem_cons_of_mem _ member)
    rw [List.flatMap_cons, List.length_cons, ByteReader.times]
    exact (each first List.mem_cons_self).bind others.map

/-- A value is read from bytes in one way only. -/
theorem unique {reader : ByteReader α} {a' : α} (reads : reader.Reads bytes a)
    (reads' : reader.Reads bytes a') : a = a' := by
  have same := (reads []).symm.trans (reads' [])
  exact congrArg Prod.fst (Option.some.inj same)

end Reads

/-- One byte is taken. -/
theorem byte_reads (first : UInt8) : byte.Reads [first] first :=
  fun _ => rfl

/-- As many bytes as there are are taken. -/
theorem take_reads (bytes : Bytes) : (take bytes.length).Reads bytes bytes := by
  intro rest
  have enough : bytes.length ≤ (bytes ++ rest).length := by simp
  rw [take, if_pos enough, List.take_left, List.drop_left]

/-- A number that fits into so many bytes is taken. -/
theorem fixed_reads {count n : Nat} (fits : n < Nat.pow 256 count) :
    (fixed count).Reads (Bytes.littleEndian count n) n := by
  have taken := take_reads (Bytes.littleEndian count n)
  rw [Bytes.length_littleEndian] at taken
  have number := taken.map (f := Bytes.ofLittleEndian)
  rwa [Bytes.ofLittleEndian_littleEndian count n fits] at number

end ByteReader

/-! ## Numbers -/

namespace Varint

open ByteReader

/-- Below the marks, a number is its own byte. -/
theorem readUpTo_small {most n : Nat} (small : n < 251) : (readUpTo most).Reads (write n) n := by
  have same : (UInt8.ofNat n).toNat = n := by
    rw [UInt8.toNat_ofNat']
    exact Nat.mod_eq_of_lt (by omega)
  have next : Reads (if (UInt8.ofNat n).toNat < 251 then pure (UInt8.ofNat n).toNat
      else if UInt8.ofNat n = 251 then fixed 2
      else if UInt8.ofNat n = 252 then fixed 4
      else if UInt8.ofNat n = 253 && 8 ≤ most then fixed 8
      else failure) [] n := by
    rw [same, if_pos small]
    exact .pure
  rw [write, if_pos small]
  exact (byte_reads _).bind next

/-- **A number of up to sixty-four bits is taken back.** -/
theorem read_write {n : Nat} (fits : n < 2 ^ 64) : read.Reads (write n) n := by
  have marked : ∀ {mark : UInt8} {bytes : Bytes}, (∀ rest, read (mark :: (bytes ++ rest)) =
      some (n, rest)) → read.Reads (mark :: bytes) n := fun h => h
  by_cases small : n < 251
  · exact readUpTo_small small
  · rw [write, if_neg small]
    split
    · rename_i two
      exact marked fun rest => @fixed_reads 2 n two rest
    · split
      · rename_i four
        exact marked fun rest => @fixed_reads 4 n four rest
      · exact marked fun rest => @fixed_reads 8 n fits rest

/-- A signed number is interleaved with its opposites and comes back. -/
theorem unzigzag_zigzag (n : Int) : unzigzag (zigzag n) = n := by
  unfold unzigzag zigzag
  split <;> split <;> omega

/-- Numbers of sixty-four bits with a sign become numbers of sixty-four bits without one. -/
theorem zigzag_lt {n : Int} (above : -2 ^ 63 ≤ n) (below : n < 2 ^ 63) : zigzag n < 2 ^ 64 := by
  unfold zigzag
  split <;> omega

/-- **A signed number is taken back.** -/
theorem readInt_writeInt (n : Int64) : readInt.Reads (writeInt n) n := by
  have number := (read_write (zigzag_lt n.le_toInt n.toInt_lt)).map
    (f := fun m => Int64.ofInt (unzigzag m))
  rwa [unzigzag_zigzag, Int64.ofInt_toInt] at number

end Varint

/-! ## Texts, options and lists -/

namespace Payload

open ByteReader

/-- The bytes of a text stand for the text. -/
theorem ofUtf8?_utf8 (text : String) : Bytes.ofUtf8? (Bytes.utf8 text) = some text := by
  have bytes : (⟨(Bytes.utf8 text).toArray⟩ : ByteArray) = text.toByteArray := rfl
  rw [Bytes.ofUtf8?, bytes, String.fromUTF8?, dif_pos text.isValidUTF8]
  rfl

/-- **A text is taken back.** -/
theorem readText_writeText {text : String} (fits : (Bytes.utf8 text).length < 2 ^ 64) :
    readText.Reads (writeText text) text := by
  have whole : Reads (take (Bytes.utf8 text).length >>= fun bytes => liftM (Bytes.ofUtf8? bytes))
      (Bytes.utf8 text ++ []) text := by
    refine (take_reads (Bytes.utf8 text)).bind fun rest => ?_
    rw [ofUtf8?_utf8]
    rfl
  rw [List.append_nil] at whole
  exact (Varint.read_write fits).bind whole

/-- A truth value is taken back. -/
theorem readBool_writeBool (value : Bool) : readBool.Reads (writeBool value) value := by
  cases value <;> exact fun _ => rfl

/-- Something that may be missing is taken back. -/
theorem readOption_writeOption {α : Type} {item : ByteReader α} {write : α → Bytes}
    {value : Option α} (inside : ∀ a ∈ value, item.Reads (write a) a) :
    (readOption item).Reads (writeOption write value) value := by
  cases value with
  | none => exact fun _ => rfl
  | some a => exact (readBool_writeBool true).bind (inside a rfl).map

/-- **A list is taken back** if its items are. -/
theorem readList_write {α : Type} {item : ByteReader α} {write : α → Bytes} {items : List α}
    (fits : items.length < 2 ^ 64) (each : ∀ a ∈ items, item.Reads (write a) a) :
    (readList item).Reads (Varint.write items.length ++ items.flatMap write) items :=
  (Varint.read_write fits).bind (.times each)

end Payload

end RuleGraph
