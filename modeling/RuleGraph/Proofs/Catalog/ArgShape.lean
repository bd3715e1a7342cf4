import RuleGraph.Function
import Mathlib.Data.List.Forall2

/-! # Arguments that fit

What a declared shape asks of the arguments of a call site, position by position.

* **`ArgShape.Fits`** — arguments are what a shape asks for.
* **`ArgShape.mismatch?_eq_none_iff`** — the check lets exactly these pass.
* **`Entry.Accepts`** — arguments are what a function declares, if it declares anything.
* **`Entry.arityError?_eq_none_iff`** — a function can be called with as many as it takes.
* **`Entry.arityError?_eq_none`** — when the function is called, their number is right again.
-/

namespace RuleGraph

namespace ArgShape

/-- The type of the argument at a position, counted from zero. -/
def typeAt (shape : ArgShape) (position : Nat) : ArgType :=
  (shape.required ++ shape.optional)[position]?.getD (shape.variadic.getD .any)

/-- The arguments of a call site are what a shape asks for. -/
structure Fits (shape : ArgShape) (args : List Expr) : Prop where
  /-- No required argument is missing. -/
  enough : shape.required.length ≤ args.length
  /-- Unless there may be any number of further arguments, there are none. -/
  few : shape.variadic = none → args.length ≤ shape.required.length + shape.optional.length
  /-- Every argument is of the type of its position. -/
  types : ∀ position arg, args[position]? = some arg → (shape.typeAt position).admits arg = true

variable {shape : ArgShape} {args args' : List Expr}

/-- A number of arguments is right if there are enough and not too many. -/
theorem countMismatch?_eq_none_iff {count : Nat} :
    shape.countMismatch? count = none ↔
      shape.required.length ≤ count ∧
      (shape.variadic = none → count ≤ shape.required.length + shape.optional.length) := by
  unfold countMismatch?
  dsimp only
  split
  · rename_i less
    constructor
    · intro h
      cases h
    · rintro ⟨enough, -⟩
      omega
  · rename_i enough
    split
    · rename_i more
      rw [Bool.and_eq_true, Option.isNone_iff_eq_none, decide_eq_true_iff] at more
      constructor
      · intro h
        cases h
      · rintro ⟨-, few⟩
        have := few more.1
        omega
    · rename_i fits
      refine ⟨fun _ => ⟨Nat.le_of_not_lt enough, fun none => ?_⟩, fun _ => rfl⟩
      by_contra more
      apply fits
      rw [Bool.and_eq_true, Option.isNone_iff_eq_none, decide_eq_true_iff]
      exact ⟨none, Nat.lt_of_not_le more⟩

/-- Types are right if every argument has its own. -/
theorem typeMismatch?_eq_none_iff {position : Nat} {pairs : List (Expr × ArgType)} :
    typeMismatch? position pairs = none ↔ ∀ pair ∈ pairs, pair.2.admits pair.1 = true := by
  induction pairs generalizing position with
  | nil => simp [typeMismatch?]
  | cons pair rest ih =>
    rw [typeMismatch?, List.forall_mem_cons]
    split
    · rename_i right
      rw [ih]
      exact ⟨fun others => ⟨right, others⟩, And.right⟩
    · rename_i wrong
      constructor
      · intro h
        cases h
      · exact fun ⟨right, _⟩ => absurd right wrong

/-- The types listed for a number of arguments are those of their positions. -/
theorem getElem?_typesFor {count position : Nat} (bound : position < count) :
    (shape.typesFor count)[position]? = some (shape.typeAt position) := by
  unfold typesFor typeAt
  dsimp only
  rw [List.getElem?_append]
  split
  · rename_i named
    rw [List.getElem?_eq_getElem named, Option.getD_some]
  · rename_i further
    rw [List.getElem?_eq_none (Nat.le_of_not_lt further), Option.getD_none, List.getElem?_replicate,
      if_pos (by omega)]

/-- **The check lets exactly the arguments pass that fit.** -/
theorem mismatch?_eq_none_iff : shape.mismatch? args = none ↔ shape.Fits args := by
  have typed : (∀ pair ∈ args.zip (shape.typesFor args.length), pair.2.admits pair.1 = true) ↔
      ∀ position arg, args[position]? = some arg →
        (shape.typeAt position).admits arg = true := by
    constructor
    · intro each position arg found
      have bound := (List.getElem?_eq_some_iff.1 found).1
      have pair : (args.zip (shape.typesFor args.length))[position]? =
          some (arg, shape.typeAt position) := by
        rw [List.getElem?_zip_eq_some]
        exact ⟨found, getElem?_typesFor bound⟩
      exact each _ (List.mem_of_getElem? pair)
    · intro each pair member
      obtain ⟨position, found⟩ := List.mem_iff_getElem?.1 member
      obtain ⟨left, right⟩ := List.getElem?_zip_eq_some.1 found
      have bound := (List.getElem?_eq_some_iff.1 left).1
      rw [getElem?_typesFor bound, Option.some_inj] at right
      exact right ▸ each position pair.1 left
  rw [mismatch?, Option.or_eq_none_iff, countMismatch?_eq_none_iff, typeMismatch?_eq_none_iff,
    typed]
  exact ⟨fun ⟨count, types⟩ => ⟨count.1, count.2, types⟩,
    fun fits => ⟨⟨fits.enough, fits.few⟩, fits.types⟩⟩

/-- Arguments that look the same to every type of argument fit alike. -/
theorem Fits.congr (fits : shape.Fits args)
    (alike : List.Forall₂ (fun arg arg' => ∀ type : ArgType, type.admits arg = type.admits arg')
      args args') : shape.Fits args' := by
  refine ⟨alike.length_eq ▸ fits.enough, alike.length_eq ▸ fits.few, fun position arg found => ?_⟩
  obtain ⟨bound, rfl⟩ := List.getElem?_eq_some_iff.1 found
  have bound' : position < args.length := alike.length_eq ▸ bound
  have same := alike.get bound' bound (shape.typeAt position)
  simp only [List.get_eq_getElem] at same
  rw [← same]
  exact fits.types position _ (List.getElem?_eq_getElem bound')

end ArgShape

namespace Entry

variable {entry : Entry} {args args' : List Expr}

/-- The arguments of a call site are what a function declares, if it declares anything. -/
def Accepts (entry : Entry) (args : List Expr) : Prop :=
  ∀ shape, entry.args = some shape → shape.Fits args

/-- Arguments that look the same to every type of argument are accepted alike. -/
theorem Accepts.congr (accepts : entry.Accepts args)
    (alike : List.Forall₂ (fun arg arg' => ∀ type : ArgType, type.admits arg = type.admits arg')
      args args') : entry.Accepts args' :=
  fun shape declared => (accepts shape declared).congr alike

/-- What a function does not accept is a mismatch, which names the function. -/
theorem checkArgs_eq (entry : Entry) (args : List Expr) :
    (entry.checkArgs args = .ok () ∧ entry.Accepts args) ∨
      ∃ reason, entry.checkArgs args = .error (.argumentMismatch entry.name reason) ∧
        ¬entry.Accepts args := by
  unfold checkArgs
  cases declared : entry.args with
  | none =>
    refine .inl ⟨rfl, fun shape same => ?_⟩
    rw [declared] at same
    cases same
  | some shape =>
    dsimp only [ArgShape.check]
    cases mismatch : shape.mismatch? args with
    | none =>
      refine .inl ⟨rfl, fun shape' same => ?_⟩
      rw [declared] at same
      cases same
      exact ArgShape.mismatch?_eq_none_iff.1 mismatch
    | some reason =>
      refine .inr ⟨reason, rfl, fun accepts => ?_⟩
      rw [ArgShape.mismatch?_eq_none_iff.2 (accepts shape declared)] at mismatch
      cases mismatch

/-- The check of a call site passes if the function accepts the arguments. -/
theorem checkArgs_eq_ok_iff : entry.checkArgs args = .ok () ↔ entry.Accepts args := by
  rcases entry.checkArgs_eq args with ⟨passes, accepts⟩ | ⟨reason, fails, refuses⟩
  · exact ⟨fun _ => accepts, fun _ => passes⟩
  · rw [fails]
    constructor
    · intro h
      cases h
    · exact fun accepts => absurd accepts refuses

/-- Else it fails. -/
theorem checkArgs_eq_error (refuses : ¬entry.Accepts args) :
    ∃ reason, entry.checkArgs args = .error (.argumentMismatch entry.name reason) := by
  rcases entry.checkArgs_eq args with ⟨-, accepts⟩ | ⟨reason, fails, -⟩
  · exact absurd accepts refuses
  · exact ⟨reason, fails⟩

/-- A function takes so many arguments. -/
def Takes (entry : Entry) (count : Nat) : Prop :=
  ∀ shape, entry.args = some shape → shape.required.length ≤ count ∧
    (shape.variadic = none → count ≤ shape.required.length + shape.optional.length)

/-- The number of arguments is right if the function takes so many. -/
theorem arityError?_eq_none_iff {count : Nat} :
    entry.arityError? count = none ↔ entry.Takes count := by
  unfold arityError? Takes
  cases entry.args with
  | none => simp
  | some shape =>
    show (shape.countMismatch? count).map _ = none ↔ _
    rw [Option.map_eq_none_iff, ArgShape.countMismatch?_eq_none_iff]
    simp

/-- **A call whose arguments were accepted has the right number of them.** -/
theorem arityError?_eq_none (accepts : entry.Accepts args) :
    entry.arityError? args.length = none :=
  arityError?_eq_none_iff.2 fun shape declared =>
    ⟨(accepts shape declared).enough, (accepts shape declared).few⟩

end Entry

end RuleGraph
