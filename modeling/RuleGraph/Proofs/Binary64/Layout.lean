import RuleGraph.Binary64.Decimal
import RuleGraph.Proofs.Source.Tokens

/-! # Layouts of decimals

A finite number is written as digits, a fraction where there is one, and an exponent where the digits
are not laid out positionally. The parts of such a text are found again.

* **`Binary64.Layout`** — digits, a fraction and an exponent; there is a fraction or an exponent.
* **`Binary64.Layout.ofText?_text`** — the sign in front of such a text is found.
* **`Binary64.exists_layout`** — the text of a positive number is that of a layout.
-/

namespace RuleGraph.Binary64

open RuleGraph.Numeral RuleGraph.Parser

/-- The letter, the sign and the digits of an exponent. -/
def exponentText (plus : Bool) (exponent : Int) : List Char :=
  'e' :: ((if exponent < 0 then ['-'] else if plus then ['+'] else []) ++ digits exponent.natAbs)

/-- The parts of the text of a positive number. -/
structure Layout where
  /-- The digits in front of the point. -/
  whole : List Char
  /-- The digits behind the point, which is left out where there are none. -/
  fraction : List Char
  /-- The exponent, if one is written. -/
  exponent : Option Int
  /-- Whether an exponent that is not negative has a sign. -/
  plus : Bool
  /-- There are digits in front of the point. -/
  nonempty : whole ≠ []
  /-- They are digits. -/
  isWhole : ∀ c ∈ whole, isDigit c = true
  /-- So are those behind the point. -/
  isFraction : ∀ c ∈ fraction, isDigit c = true
  /-- There are a point or an exponent. -/
  marked : fraction ≠ [] ∨ exponent.isSome

namespace Layout

variable (layout : Layout)

/-- The exponent as it is written. -/
def scale : List Char :=
  layout.exponent.elim [] (exponentText layout.plus)

/-- What follows the digits in front of the point. -/
def behind : List Char :=
  if layout.fraction = [] then layout.scale else '.' :: (layout.fraction ++ layout.scale)

/-- The text of a layout. -/
def text : List Char :=
  layout.whole ++ layout.behind

end Layout

/-! ## The parts are found -/

namespace Layout

variable (layout : Layout)

/-- No digit begins an exponent. -/
theorem isDigit_head?_scale : ∀ c ∈ layout.scale.head?, isDigit c = false := by
  unfold scale
  cases layout.exponent with
  | none => rintro c ⟨⟩
  | some exponent =>
    rintro c ⟨⟩
    decide

/-- No digit stands behind the ones in front of the point. -/
theorem isDigit_head?_behind : ∀ c ∈ layout.behind.head?, isDigit c = false := by
  unfold behind
  split
  · exact layout.isDigit_head?_scale
  · rintro c ⟨⟩
    decide

/-- A text begins with a digit. -/
theorem exists_text_eq : ∃ first others, layout.text = first :: others ∧ isDigit first = true := by
  obtain ⟨first, others, same⟩ := List.exists_cons_of_ne_nil layout.nonempty
  refine ⟨first, others ++ layout.behind, by rw [text, same, List.cons_append], ?_⟩
  exact layout.isWhole first (same ▸ List.mem_cons_self)

/-- The sign in front of a text is found. -/
theorem ofText?_text (negative : Bool) :
    ofText? (String.ofList ((if negative then ['-'] else []) ++ layout.text)) =
      ofUnsignedText? negative layout.text := by
  obtain ⟨first, others, same, digit⟩ := layout.exists_text_eq
  have signed : takeSign ((if negative then ['-'] else []) ++ layout.text) =
      (negative, layout.text) := by
    cases negative with
    | true => rfl
    | false =>
      rw [if_neg Bool.false_ne_true, List.nil_append, same]
      unfold takeSign
      split
      · rename_i minus
        cases minus
        exact absurd digit (by decide)
      · rename_i plus
        cases plus
        exact absurd digit (by decide)
      · rfl
  have noWord : ∀ word ∈ ["inf", "infinity", "nan"],
      String.ofList (layout.text.map Char.toLower) ≠ word := by
    have letters : ∀ word ∈ ["inf", "infinity", "nan"],
        word.toList.head?.map isDigit = some false := by decide
    rintro word member rfl
    have letter := letters _ member
    rw [same, String.toList_ofList, List.map_cons, Source.toLower_of_isDigit digit, List.head?_cons,
      Option.map_some, digit] at letter
    cases letter
  rw [ofText?, String.toList_ofList, signed]
  dsimp only
  rw [decide_eq_false (noWord "inf" (by decide)), decide_eq_false (noWord "infinity" (by decide)),
    if_neg (by decide), if_neg (noWord "nan" (by decide))]

end Layout

/-! ## Numbers as they are written -/

section

variable {text : List Char} (nonempty : text ≠ []) (all : ∀ c ∈ text, isDigit c = true)
include nonempty all

/-- Digits with a point are the text of a layout. -/
theorem exists_layout_positional (point : Int) : ∃ layout : Layout,
    layout.text = positional text point ∧ layout.exponent = none := by
  have zeros : ∀ count, ∀ c ∈ List.replicate count '0', isDigit c = true := by
    intro count c member
    rw [List.eq_of_mem_replicate member]
    rfl
  unfold positional
  split_ifs with early
  · refine ⟨⟨['0'], List.replicate (-point).toNat '0' ++ text, none, false, by simp, by decide,
      fun c member => ?_, .inl (by simp [nonempty])⟩, ?_, rfl⟩
    · exact (List.mem_append.1 member).elim (zeros _ c) (all c)
    · simp [Layout.text, Layout.behind, Layout.scale, nonempty]
  · have positive : 0 < point.toNat := by omega
    refine ⟨⟨text.take point.toNat ++ List.replicate (point.toNat - text.length) '0',
      if (text.drop point.toNat).isEmpty then ['0'] else text.drop point.toNat, none, false, ?_,
      fun c member => ?_, fun c member => ?_, .inl ?_⟩, ?_, rfl⟩
    · simp [nonempty, positive.ne']
    · exact (List.mem_append.1 member).elim (fun early => all c (List.mem_of_mem_take early))
        (zeros _ c)
    · split at member
      · rw [List.mem_singleton.1 member]
        rfl
      · exact all c (List.mem_of_mem_drop member)
    · split_ifs with none
      · exact List.cons_ne_nil _ _
      · simpa using none
    · have behind : (if (text.drop point.toNat).isEmpty = true then ['0']
          else text.drop point.toNat) ≠ [] := by
        split_ifs with none
        · exact List.cons_ne_nil _ _
        · simpa using none
      simp only [Layout.text, Layout.behind, Layout.scale, behind, if_false, Option.elim_none,
        List.append_nil, List.append_assoc]

/-- Digits with an exponent are the text of a layout. -/
theorem exists_layout_scientific (style : DecimalStyle) (exponent : Int) : ∃ layout : Layout,
    layout.text = scientific style text exponent ∧ layout.whole ++ layout.fraction = text ∧
      layout.whole.length = 1 ∧ layout.exponent = some exponent := by
  obtain ⟨first, others, rfl⟩ := List.exists_cons_of_ne_nil nonempty
  obtain ⟨digit, rest⟩ := List.forall_mem_cons.1 all
  refine ⟨⟨[first], others, some exponent, style.plusSign, by simp, by simpa using digit, rest,
    .inr rfl⟩, ?_, rfl, rfl, rfl⟩
  cases others <;>
    simp [Layout.text, Layout.behind, Layout.scale, exponentText, scientific]

end

/-- A number that is neither infinite nor no number at all. -/
def IsFinite (x : Binary64) : Prop :=
  x.magnitudeBits < infinityMagnitude

instance (x : Binary64) : Decidable x.IsFinite :=
  inferInstanceAs (Decidable (_ < _))

/-- **The text of a finite number** is that of a layout, behind the sign. -/
theorem exists_layout {x : Binary64} (finite : x.IsFinite) (style : DecimalStyle) :
    ∃ layout : Layout, (x.write style).toList =
      (if x.isNegative then ['-'] else []) ++ layout.text := by
  have notNaN : x.isNaN = false := decide_eq_false (Nat.not_lt.2 (Nat.le_of_lt finite))
  have notInfinite : x.isInfinite = false := decide_eq_false (Nat.ne_of_lt finite)
  have body : ∃ layout : Layout, layout.text =
      if x.isZero then ['0', '.', '0'] else writePositive style x := by
    split_ifs
    · exact ⟨⟨['0'], ['0'], none, false, by simp, by decide, by decide, by simp⟩, rfl⟩
    · have nonempty := (isNumeral_digits (shortest x style.tie).coefficient).ne_nil
      have all : ∀ c ∈ digits (shortest x style.tie).coefficient, isDigit c = true :=
        fun c => isDigit_of_mem_digits
      unfold writePositive
      dsimp only
      split_ifs
      · obtain ⟨layout, same, -⟩ := exists_layout_positional nonempty all _
        exact ⟨layout, same⟩
      · obtain ⟨layout, same, -⟩ := exists_layout_scientific nonempty all style _
        exact ⟨layout, same⟩
  obtain ⟨layout, same⟩ := body
  refine ⟨layout, ?_⟩
  rw [same, write, notNaN, notInfinite]
  cases x.isNegative <;> simp

end RuleGraph.Binary64
