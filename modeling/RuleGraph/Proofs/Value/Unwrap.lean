import RuleGraph.Value.Text
import Mathlib.Algebra.Order.BigOperators.Group.List
import Mathlib.Algebra.Order.Ring.Nat

/-! # Entities replaced by their keys

What replacing entities by their keys does to the texts of values. An entity by itself reads as its
key inside a message, but one inside a list is written out with its type, so that replacing it makes
the text of the list shorter.

* **`Value.unwrap_eq_self`** — a value without entities stays as it is.
* **`Value.IsKeyed`**, **`Value.isKeyed_iff`** — every entity is replaced and nothing else changes.
* **`Value.length_write_unwrap_lt`** — the text of a value with entities gets shorter.
* **`Value.ShowsEntity`** — lists that hold an entity.
* **`Value.plain_unwrap`**, **`Value.length_plain_unwrap_lt`** — of these, and of no other values,
  the text inside a message changes.
-/

namespace RuleGraph

/-- The length of texts joined by commas: two characters for each comma and the blank behind it. -/
theorem length_commaSeparated (texts : List String) :
    (commaSeparated texts).length = (texts.map String.length).sum + 2 * (texts.length - 1) := by
  induction texts with
  | nil => rfl
  | cons text rest ih =>
    cases rest with
    | nil => simp [commaSeparated]
    | cons next rest =>
      have joined : commaSeparated (text :: next :: rest) =
          text ++ ", " ++ commaSeparated (next :: rest) := String.intercalate_cons_cons
      rw [joined, String.length_append, String.length_append, ih, List.map_cons (l := next :: rest),
        List.sum_cons, @List.length_cons _ _ (next :: rest), List.length_cons]
      have comma : ", ".length = 2 := by decide
      omega

/-- Two lists that are related member by member, by a relation that is a function on these. -/
theorem forall₂_iff_eq_map {α β : Type} {r : α → β → Prop} {f : α → β} {as : List α} {bs : List β}
    (each : ∀ a ∈ as, ∀ b, r a b ↔ b = f a) : List.Forall₂ r as bs ↔ bs = as.map f := by
  induction as generalizing bs with
  | nil => rw [List.forall₂_nil_left_iff, List.map_nil]
  | cons a rest ih =>
    obtain ⟨here, later⟩ := List.forall_mem_cons.1 each
    simp [List.forall₂_cons_left_iff, here, ih later]

namespace Value

/-- Induction on values, with a hypothesis for every item of a list. -/
@[induction_eliminator]
theorem induction {motive : Value → Prop} (null : motive .null)
    (bool : ∀ value, motive (.bool value)) (int : ∀ value, motive (.int value))
    (float : ∀ value, motive (.float value)) (text : ∀ value, motive (.text value))
    (list : ∀ items, (∀ item ∈ items, motive item) → motive (.list items))
    (entity : ∀ value, motive (.entity value)) (value : Value) : motive value := by
  -- The recursor has a motive of its own for lists of values: that it holds of all of them.
  refine @Value.rec motive (fun items => ∀ item ∈ items, motive item)
    null bool int float text list entity ?_ ?_ value
  · intro item none
    cases none
  · intro head tail onHead onTail item member
    rcases List.mem_cons.1 member with rfl | later
    · exact onHead
    · exact onTail item later

/-- Replacing the entities of several values is doing so for each of them. -/
theorem unwrapAll_eq_map (items : List Value) : unwrapAll items = items.map unwrap := by
  induction items with
  | nil => rfl
  | cons item rest ih => rw [unwrapAll, ih, List.map_cons]

/-- The texts of several values are those of each of them. -/
theorem writeAll_eq_map (items : List Value) : writeAll items = items.map write := by
  induction items with
  | nil => rfl
  | cons item rest ih => rw [writeAll, ih, List.map_cons]

/-- Several values hold an entity if one of them does. -/
theorem anyHasEntity_iff {items : List Value} :
    anyHasEntity items = true ↔ ∃ item ∈ items, item.hasEntity = true := by
  induction items with
  | nil => simp [anyHasEntity]
  | cons item rest ih => simp [anyHasEntity, ih]

/-- A value without entities stays as it is. -/
theorem unwrap_eq_self {value : Value} (free : value.hasEntity = false) : value.unwrap = value := by
  induction value with
  | null | bool | int | float | text => rfl
  | entity => cases free
  | list items ih =>
    have each : ∀ item ∈ items, item.unwrap = item := by
      intro item member
      apply ih item member
      by_contra holds
      have some : anyHasEntity items = true :=
        anyHasEntity_iff.2 ⟨item, member, by simpa using holds⟩
      rw [hasEntity, some] at free
      cases free
    rw [unwrap, unwrapAll_eq_map, List.map_congr_left each, List.map_id']

/-- Replacing entities leaves none. -/
theorem hasEntity_unwrap (value : Value) : value.unwrap.hasEntity = false := by
  induction value with
  | null | bool | int | float | text | entity => rfl
  | list items ih =>
    by_contra holds
    rw [unwrap, unwrapAll_eq_map] at holds
    obtain ⟨item, member, inner⟩ := anyHasEntity_iff.1 (by simpa [hasEntity] using holds)
    obtain ⟨item', member', rfl⟩ := List.mem_map.1 member
    simp [ih item' member'] at inner

/-- Replacing entities turns nothing into null. -/
theorem unwrap_eq_null_iff {value : Value} : value.unwrap = .null ↔ value = .null := by
  cases value <;> simp [unwrap]

/-- A value is another one with every entity, also inside lists, replaced by its key, and with
nothing else changed. -/
inductive IsKeyed : Value → Value → Prop where
  /-- An entity is replaced by its key. -/
  | entity {entity} : IsKeyed (.entity entity) (.text entity.key)
  /-- In a list, the entities in every item are replaced. -/
  | list {items items'} (each : List.Forall₂ IsKeyed items items') :
    IsKeyed (.list items) (.list items')
  /-- Any other value stays as it is. -/
  | other {value} (noEntity : ∀ entity, value ≠ .entity entity)
    (noList : ∀ items, value ≠ .list items) : IsKeyed value value

/-- **Every entity is replaced by its key, and nothing else changes.** -/
theorem isKeyed_iff {value value' : Value} : value.IsKeyed value' ↔ value' = value.unwrap := by
  induction value generalizing value' with
  | null | bool | int | float | text =>
    constructor
    · intro keyed
      cases keyed
      rfl
    · rintro rfl
      exact .other (fun _ h => nomatch h) (fun _ h => nomatch h)
  | entity entity =>
    constructor
    · intro keyed
      cases keyed with
      | entity => rfl
      | other noEntity => exact absurd rfl (noEntity entity)
    · rintro rfl
      exact .entity
  | list items ih =>
    rw [unwrap, unwrapAll_eq_map]
    constructor
    · intro keyed
      cases keyed with
      | list each => rw [(forall₂_iff_eq_map fun item member _ => ih item member).1 each]
      | other _ noList => exact absurd rfl (noList items)
    · rintro rfl
      exact .list ((forall₂_iff_eq_map fun item member _ => ih item member).2 rfl)

/-- The text of a list: its items, the commas between them, and the brackets. -/
theorem length_write_list (items : List Value) :
    (write (.list items)).length =
      (items.map fun item => item.write.length).sum + 2 * (items.length - 1) + 2 := by
  have bracket : "[".length = 1 ∧ "]".length = 1 := by decide
  rw [write, String.length_append, String.length_append, length_commaSeparated, writeAll_eq_map,
    List.map_map, List.length_map, bracket.1, bracket.2]
  have same : (items.map (String.length ∘ write)).sum =
      (items.map fun item => item.write.length).sum := rfl
  omega

/-- The text of a list without the entities in it. -/
theorem length_write_unwrap_list (items : List Value) :
    (write (unwrap (.list items))).length =
      (items.map fun item => item.unwrap.write.length).sum + 2 * (items.length - 1) + 2 := by
  rw [unwrap, unwrapAll_eq_map, length_write_list, List.map_map, List.length_map]
  rfl

/-- The text of an entity holds the text of its key, and more. -/
theorem length_write_entity (value : Entity) :
    (write (unwrap (.entity value))).length < (write (.entity value)).length := by
  show (Text.quote value.key).length < value.write.length
  have ends : "entity(".length = 7 ∧ ")".length = 1 := by decide
  simp only [Entity.write, String.length_append, ends]
  omega

/-- Replacing entities makes no text longer. -/
theorem length_write_unwrap_le (value : Value) :
    value.unwrap.write.length ≤ value.write.length := by
  induction value with
  | null | bool | int | float | text => exact Nat.le_refl _
  | entity value => exact Nat.le_of_lt (length_write_entity value)
  | list items ih =>
    have each : (items.map fun item => item.unwrap.write.length).sum ≤
        (items.map fun item => item.write.length).sum := List.sum_le_sum ih
    rw [length_write_unwrap_list, length_write_list]
    omega

/-- **Replacing entities makes the text of a value that holds some shorter.** -/
theorem length_write_unwrap_lt {value : Value} (holds : value.hasEntity = true) :
    value.unwrap.write.length < value.write.length := by
  induction value with
  | null | bool | int | float | text => cases holds
  | entity value => exact length_write_entity value
  | list items ih =>
    -- One item gets shorter, and none gets longer.
    obtain ⟨item, member, inner⟩ := anyHasEntity_iff.1 holds
    have each : (items.map fun item => item.unwrap.write.length).sum <
        (items.map fun item => item.write.length).sum :=
      List.sum_lt_sum _ _ (fun item _ => length_write_unwrap_le item)
        ⟨item, member, ih item member inner⟩
    rw [length_write_unwrap_list, length_write_list]
    omega

/-! ## Inside messages -/

/-- A list that holds an entity at any depth, which a message shows with its type. -/
def ShowsEntity (value : Value) : Prop :=
  (∃ items, value = .list items) ∧ value.hasEntity = true

/-- Inside a message every other value reads as it does without entities. -/
theorem plain_unwrap {value : Value} (hidden : ¬value.ShowsEntity) :
    value.unwrap.plain = value.plain := by
  cases value with
  | null | bool | int | float | text | entity => rfl
  | list items =>
    have free : (list items).hasEntity = false := by
      by_contra holds
      exact hidden ⟨⟨items, rfl⟩, by simpa using holds⟩
    rw [unwrap_eq_self free]

/-- Inside a message the text of such a list gets shorter. -/
theorem length_plain_unwrap_lt {value : Value} (shows : value.ShowsEntity) :
    value.unwrap.plain.length < value.plain.length := by
  obtain ⟨⟨items, rfl⟩, holds⟩ := shows
  exact length_write_unwrap_lt holds

/-- Replacing entities makes no text inside a message longer. -/
theorem length_plain_unwrap_le (value : Value) :
    value.unwrap.plain.length ≤ value.plain.length := by
  by_cases shows : value.ShowsEntity
  · exact Nat.le_of_lt (length_plain_unwrap_lt shows)
  · rw [plain_unwrap shows]

end Value

end RuleGraph
