import RuleGraph.Proofs.Value.Unwrap
import RuleGraph.StandardLibrary

/-! # Comparing values

Values are compared by a partial order that is separate from their identity: integers and
floating-point numbers compare as numbers, entities by their keys if they have one type, and lists
not at all.

* **`Value.compare_swap`** — the order the other way round is the reverse.
* **`Value.eq_of_compare`** — values that compare as equal are the same, floating-point numbers
  aside.
* **`Value.compare_eq_iff`** — and the same values compare as equal, lists aside.
-/

namespace RuleGraph

open StandardLibrary

/-- The order of two floating-point numbers the other way round is the reverse. -/
theorem Binary64.compare_swap (x y : Binary64) : (compare x y).map Ordering.swap = compare y x := by
  rw [compare, compare, Bool.or_comm]
  split
  · rfl
  · rw [Option.map_some, ← Std.OrientedOrd.eq_swap]

namespace Value

/-- Texts are compared by the order of texts. -/
theorem compareText_eq (a b : String) : compareText a b = Ord.compare a b := rfl

/-- **The order of two values the other way round is the reverse.** -/
theorem compare_swap (a b : Value) : (a.compare b).map Ordering.swap = b.compare a := by
  cases a with
  | null => cases b <;> rfl
  | bool x =>
    cases b with
    | bool y => rw [compare, compare, Option.map_some, ← Std.OrientedOrd.eq_swap]
    | _ => rfl
  | int n =>
    cases b with
    | int m => rw [compare, compare, Option.map_some, ← Std.OrientedOrd.eq_swap]
    | float y => exact Binary64.compare_swap _ y
    | _ => rfl
  | float x =>
    cases b with
    | int m => exact Binary64.compare_swap x _
    | float y => exact Binary64.compare_swap x y
    | _ => rfl
  | text x =>
    cases b with
    | text y =>
      rw [compare, compare, compareText_eq, compareText_eq, Option.map_some,
        ← Std.OrientedOrd.eq_swap]
    | _ => rfl
  | list => cases b <;> rfl
  | entity x =>
    cases b with
    | entity y =>
      rw [compare, compare, compareText_eq, compareText_eq]
      by_cases type : x.type = y.type
      · rw [if_pos type, if_pos type.symm, Option.map_some, ← Std.OrientedOrd.eq_swap]
      · rw [if_neg type, if_neg (Ne.symm type)]
        rfl
    | _ => rfl

/-- **Values that compare as equal are the same**, unless one of them is a floating-point number. -/
theorem eq_of_compare {a b : Value} (exact : isFloat a = false) (exact' : isFloat b = false)
    (same : a.compare b = some .eq) : a = b := by
  cases a with
  | float => cases exact
  | null =>
    cases b with
    | null => rfl
    | _ => cases same
  | bool x =>
    cases b with
    | bool y =>
      rw [compare, Option.some.injEq, Std.compare_eq_iff_eq] at same
      rw [same]
    | _ => cases same
  | int n =>
    cases b with
    | int m =>
      rw [compare, Option.some.injEq, Std.compare_eq_iff_eq] at same
      rw [Int64.toInt_inj.1 same]
    | float => cases exact'
    | _ => cases same
  | text x =>
    cases b with
    | text y =>
      rw [compare, compareText_eq, Option.some.injEq, Std.compare_eq_iff_eq] at same
      rw [same]
    | _ => cases same
  | list =>
    cases b <;> cases same
  | entity x =>
    cases b with
    | entity y =>
      rw [compare, compareText_eq] at same
      split at same
      · rename_i type
        rw [Option.some.injEq, Std.compare_eq_iff_eq] at same
        rw [Value.entity.injEq, Entity.mk.injEq]
        exact ⟨type, same⟩
      · cases same
    | _ => cases same

/-- A value is a list. -/
def IsList (value : Value) : Prop :=
  ∃ items, value = .list items

/-- A value that is neither a floating-point number nor a list compares as equal to itself. -/
theorem compare_self {a : Value} (exact : isFloat a = false) (noList : ¬a.IsList) :
    a.compare a = some .eq := by
  cases a with
  | null => rfl
  | bool | int => exact congrArg some Std.ReflOrd.compare_self
  | text => rw [compare, compareText_eq, Std.ReflOrd.compare_self]
  | float => cases exact
  | list items => exact absurd ⟨items, rfl⟩ noList
  | entity x => rw [compare, if_pos rfl, compareText_eq, Std.ReflOrd.compare_self]

/-- **Values compare as equal if and only if they are the same**, unless one of them is a
floating-point number or both are lists. -/
theorem compare_eq_iff {a b : Value} (exact : isFloat a = false) (exact' : isFloat b = false)
    (apart : ¬(a.IsList ∧ b.IsList)) : a.compare b = some .eq ↔ a = b := by
  constructor
  · exact eq_of_compare exact exact'
  · rintro rfl
    exact compare_self exact fun isList => apart ⟨isList, isList⟩

end Value

end RuleGraph
