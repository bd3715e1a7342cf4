import RuleGraph.Proofs.Blob.Readers
import RuleGraph.Proofs.Routine.Fetches
import RuleGraph.Proofs.Value.Unwrap

/-! # Payloads are taken back

Every reader of a payload takes back what the writer beside it has written, as long as the bytes are
not too many for their number to be written. Values and expressions nest to any depth; what is
written of a part is shorter than what is written of the whole, which is why the readers never run
out of depth.

* **`Payload.readValue_writeValue`**, **`Payload.readExpr_writeExpr`** — values and expressions.
* **`Payload.readSlot_writeSlot`** — slots.
* **`Payload.read_write`** — payloads.
-/

namespace RuleGraph.Payload

open ByteReader

/-! ## Lengths -/

section

variable {α : Type} {write : α → Bytes} {items : List α}

/-- What is written of an item is no longer than what is written of the list. -/
theorem length_le_length_flatMap {item : α} (member : item ∈ items) :
    (write item).length ≤ (items.flatMap write).length := by
  rw [List.length_flatMap]
  exact List.le_sum_of_mem (List.mem_map_of_mem member)

/-- A list has no more items than bytes, if every item has a byte. -/
theorem length_items_le (each : ∀ item ∈ items, 0 < (write item).length) :
    items.length ≤ (items.flatMap write).length := by
  induction items with
  | nil => simp
  | cons first rest ih =>
    have here := each first List.mem_cons_self
    have others := ih fun item member => each item (List.mem_cons_of_mem _ member)
    rw [List.flatMap_cons, List.length_append, List.length_cons]
    omega

end

/-- A number has a byte. -/
theorem length_write_pos (n : Nat) : 0 < (Varint.write n).length := by
  unfold Varint.write
  split
  · simp
  · split
    · simp
    · split <;> simp

/-- The bytes of a text are fewer than those written of it. -/
theorem length_utf8_lt (text : String) : (Bytes.utf8 text).length < (writeText text).length := by
  have := length_write_pos (Bytes.utf8 text).length
  rw [writeText, List.length_append]
  omega

/-- A text has a byte. -/
theorem length_writeText_pos (text : String) : 0 < (writeText text).length :=
  Nat.zero_lt_of_lt (length_utf8_lt text)

/-- **A text is taken back** if not too much is written of it. -/
theorem readText_of_fits {text : String} (fits : (writeText text).length < 2 ^ 64) :
    readText.Reads (writeText text) text :=
  readText_writeText ((length_utf8_lt text).trans fits)

/-- A small number tells which alternative is read next. -/
theorem tag_reads {α : Type} {tag : Nat} {next : Nat → ByteReader α} {bytes : Bytes} {a : α}
    (small : tag < 251) (onNext : (next tag).Reads bytes a) :
    Reads (Varint.readTag >>= next) (Varint.write tag ++ bytes) a :=
  (Varint.readUpTo_small small).bind onNext

/-! ## Values -/

/-- Several values are written one by one. -/
theorem writeValues_eq_flatMap (items : List Value) :
    writeValues items = items.flatMap writeValue := by
  induction items with
  | nil => rfl
  | cons first rest ih => rw [writeValues, ih, List.flatMap_cons]

/-- A value has a byte. -/
theorem length_writeValue_pos (value : Value) : 0 < (writeValue value).length := by
  have tagged : ∀ tag bytes, 0 < (Varint.write tag ++ bytes).length := by
    intro tag bytes
    have := length_write_pos tag
    rw [List.length_append]
    omega
  cases value with
  | null => exact length_write_pos 0
  | bool | int | float | text => exact tagged _ _
  | list | entity =>
    rw [writeValue, List.append_assoc]
    exact tagged _ _

/-- One level of a value is taken back if the items of a list are. -/
theorem readValueOver_writeValue {item : ByteReader Value} {value : Value}
    (fits : (writeValue value).length < 2 ^ 64)
    (inside : ∀ items, value = .list items → ∀ a ∈ items, item.Reads (writeValue a) a) :
    (readValueOver item).Reads (writeValue value) value := by
  rw [readValueOver]
  cases value with
  | null => exact fun _ => rfl
  | bool value => exact tag_reads (by decide) (readBool_writeBool value).map
  | int value => exact tag_reads (by decide) (Varint.readInt_writeInt value).map
  | float value =>
    have number := (@fixed_reads 8 _ value.bits.toNat_lt).map
      (f := fun n => Value.float ⟨UInt64.ofNat n⟩)
    rw [UInt64.ofNat_toNat] at number
    exact tag_reads (by decide) number
  | text value =>
    rw [writeValue, List.length_append] at fits
    exact tag_reads (by decide) (readText_of_fits (by omega)).map
  | list items =>
    rw [writeValue, writeValues_eq_flatMap, List.append_assoc] at fits ⊢
    rw [List.length_append, List.length_append] at fits
    have count := length_items_le fun a (_ : a ∈ items) => length_writeValue_pos a
    exact tag_reads (by decide) (readList_write (by omega) (inside items rfl)).map
  | entity value =>
    rw [writeValue, List.append_assoc] at fits ⊢
    rw [List.length_append, List.length_append] at fits
    have type := @readText_of_fits value.type (by omega)
    have key := @readText_of_fits value.key (by omega)
    exact tag_reads (by decide) (type.bind key.map)

/-- A value is taken back by a reader that goes as deep as there are bytes. -/
theorem readValueWithin_writeValue {value : Value} {depth : Nat}
    (fits : (writeValue value).length < 2 ^ 64) (deep : (writeValue value).length ≤ depth) :
    (readValueWithin depth).Reads (writeValue value) value := by
  induction depth generalizing value with
  | zero =>
    have := length_writeValue_pos value
    omega
  | succ depth ih =>
    refine readValueOver_writeValue fits fun items same a member => ?_
    subst same
    -- An item has fewer bytes than the list, of which the first one is the tag.
    have less := @length_le_length_flatMap _ writeValue _ _ member
    have tag := length_write_pos 5
    rw [writeValue, writeValues_eq_flatMap, List.append_assoc, List.length_append,
      List.length_append] at fits deep
    exact ih (by omega) (by omega)

/-- **A value is taken back.** -/
theorem readValue_writeValue {value : Value} (fits : (writeValue value).length < 2 ^ 64) :
    readValue.Reads (writeValue value) value := by
  intro rest
  have deep : (writeValue value).length ≤ (writeValue value ++ rest).length + 1 := by
    rw [List.length_append]
    omega
  exact readValueWithin_writeValue fits deep rest

/-! ## Expressions -/

/-- Several expressions are written one by one. -/
theorem writeExprs_eq_flatMap (items : List SlotExpr) :
    writeExprs items = items.flatMap writeExpr := by
  induction items with
  | nil => rfl
  | cons first rest ih => rw [writeExprs, ih, List.flatMap_cons]

/-- The expressions that an expression is made of. -/
def partsOf : SlotExpr → List SlotExpr
  | .const _ => []
  | .feature _ => []
  | .list items => items
  | .call _ args => args

/-- What is written of the parts of an expression is shorter than what is written of it. -/
theorem length_parts_lt (body : SlotExpr) :
    ((partsOf body).flatMap writeExpr).length < (writeExpr body).length := by
  have tag := length_write_pos
  cases body with
  | const value =>
    have := tag 0
    rw [writeExpr, List.length_append, partsOf, List.flatMap_nil, List.length_nil]
    omega
  | feature name =>
    have := tag 1
    rw [writeExpr, List.length_append, partsOf, List.flatMap_nil, List.length_nil]
    omega
  | list items =>
    have := tag 2
    rw [writeExpr, writeExprs_eq_flatMap, List.length_append, List.length_append, partsOf]
    omega
  | call function args =>
    have := tag 3
    rw [writeExpr, writeExprs_eq_flatMap, List.length_append, List.length_append,
      List.length_append, partsOf]
    omega

/-- An expression has a byte. -/
theorem length_writeExpr_pos (body : SlotExpr) : 0 < (writeExpr body).length :=
  Nat.zero_lt_of_lt (length_parts_lt body)

/-- One level of an expression is taken back if its parts are. -/
theorem readExprOver_writeExpr {item : ByteReader SlotExpr} {body : SlotExpr}
    (fits : (writeExpr body).length < 2 ^ 64)
    (inside : ∀ a ∈ partsOf body, item.Reads (writeExpr a) a) :
    (readExprOver item).Reads (writeExpr body) body := by
  have count := length_items_le fun a (_ : a ∈ partsOf body) => length_writeExpr_pos a
  have parts := length_parts_lt body
  rw [readExprOver]
  cases body with
  | const value =>
    rw [writeExpr, List.length_append] at fits
    exact tag_reads (by decide) (readValue_writeValue (by omega)).map
  | feature name =>
    rw [writeExpr, List.length_append] at fits
    exact tag_reads (by decide) (readText_of_fits (by omega)).map
  | list items =>
    rw [partsOf] at count parts
    have each := @readList_write _ item writeExpr items (by omega) inside
    rw [writeExpr, writeExprs_eq_flatMap, List.append_assoc]
    exact tag_reads (by decide) each.map
  | call function args =>
    rw [partsOf] at count parts
    have each := @readList_write _ item writeExpr args (by omega) inside
    rw [writeExpr, writeExprs_eq_flatMap, List.append_assoc, List.append_assoc] at fits ⊢
    rw [List.length_append, List.length_append] at fits
    have name := @readText_of_fits function (by omega)
    exact tag_reads (by decide) (name.bind each.map)

/-- An expression is taken back by a reader that goes as deep as there are bytes. -/
theorem readExprWithin_writeExpr {body : SlotExpr} {depth : Nat}
    (fits : (writeExpr body).length < 2 ^ 64) (deep : (writeExpr body).length ≤ depth) :
    (readExprWithin depth).Reads (writeExpr body) body := by
  induction depth generalizing body with
  | zero =>
    have := length_writeExpr_pos body
    omega
  | succ depth ih =>
    refine readExprOver_writeExpr fits fun a member => ?_
    have less := @length_le_length_flatMap _ writeExpr _ _ member
    have parts := length_parts_lt body
    exact ih (by omega) (by omega)

/-- **An expression is taken back.** -/
theorem readExpr_writeExpr {body : SlotExpr} (fits : (writeExpr body).length < 2 ^ 64) :
    readExpr.Reads (writeExpr body) body := by
  intro rest
  have deep : (writeExpr body).length ≤ (writeExpr body ++ rest).length + 1 := by
    rw [List.length_append]
    omega
  exact readExprWithin_writeExpr fits deep rest

/-! ## Slots -/

/-- What is written of what may be missing is longer than what is written of it. -/
theorem length_writeOption {α : Type} {write : α → Bytes} {value : Option α} {a : α}
    (some : a ∈ value) : (write a).length < (writeOption write value).length := by
  rw [Option.mem_def] at some
  subst some
  exact Nat.lt_succ_self _

/-- **What a slot computes is taken back.** -/
theorem readKind_writeKind {kind : SlotKind} (fits : (writeKind kind).length < 2 ^ 64) :
    readKind.Reads (writeKind kind) kind := by
  rw [readKind]
  cases kind with
  | input => exact fun _ => rfl
  | feature body =>
    rw [writeKind, List.length_append] at fits
    exact tag_reads (by decide) (readExpr_writeExpr (by omega)).map
  | statement feature condition call =>
    rw [writeKind, List.append_assoc, List.append_assoc] at fits ⊢
    rw [List.length_append, List.length_append, List.length_append] at fits
    have name := @readText_of_fits feature (by omega)
    have body := @readExpr_writeExpr call (by omega)
    have guard : (readOption readExpr).Reads (writeOption writeExpr condition) condition := by
      refine readOption_writeOption fun a some => readExpr_writeExpr ?_
      have := @length_writeOption _ writeExpr _ _ some
      omega
    exact tag_reads (by decide) (name.bind (guard.bind body.map))
  | group => exact fun _ => rfl

/-- A list of texts is taken back. -/
theorem readTexts_writeTexts {texts : List String} (fits : (writeTexts texts).length < 2 ^ 64) :
    (readList readText).Reads (writeTexts texts) texts := by
  have count := length_items_le fun a (_ : a ∈ texts) => length_writeText_pos a
  rw [writeTexts, List.length_append] at fits
  refine readList_write (by omega) fun text member => readText_of_fits ?_
  have := @length_le_length_flatMap _ writeText _ _ member
  omega

/-- **A slot is taken back.** -/
theorem readSlot_writeSlot {slot : Slot} (fits : (writeSlot slot).length < 2 ^ 64) :
    readSlot.Reads (writeSlot slot) slot := by
  rw [writeSlot, List.append_assoc] at fits ⊢
  rw [List.length_append, List.length_append] at fits
  have name := @readText_of_fits slot.name (by omega)
  have kind := @readKind_writeKind slot.kind (by omega)
  have deps := @readTexts_writeTexts slot.deps (by omega)
  exact name.bind (kind.bind deps.map)

/-- A slot has a byte. -/
theorem length_writeSlot_pos (slot : Slot) : 0 < (writeSlot slot).length := by
  have := length_writeText_pos slot.name
  rw [writeSlot, List.length_append, List.length_append]
  omega

/-! ## Payloads -/

/-- **A payload is taken back.** Its number of slots is whatever has been stored, and the hash has
thirty-two bytes. -/
theorem read_write {payload : Payload} (fits : payload.write.length < 2 ^ 64)
    (counted : payload.count < 2 ^ 64)
    (hashed : ∀ digest ∈ payload.sourceDigest, digest.length = 32) :
    read.Reads payload.write payload := by
  have count := length_items_le fun a (_ : a ∈ payload.slots) => length_writeSlot_pos a
  rw [write, List.append_assoc, List.append_assoc] at fits ⊢
  rw [List.length_append, List.length_append, List.length_append] at fits
  have digest : (readOption (take 32)).Reads (writeOption id payload.sourceDigest)
      payload.sourceDigest := by
    refine readOption_writeOption fun bytes some => ?_
    rw [← hashed bytes some]
    exact take_reads bytes
  have slots : (readList readSlot).Reads
      (Varint.write payload.slots.length ++ payload.slots.flatMap writeSlot) payload.slots := by
    refine readList_write (by omega) fun slot member => readSlot_writeSlot ?_
    have := @length_le_length_flatMap _ writeSlot _ _ member
    omega
  exact (Varint.read_write counted).bind (digest.bind slots.map)

end RuleGraph.Payload
