import RuleGraph.Text.Numeral
import Mathlib.Algebra.Order.Ring.Nat

/-! # What numerals stand for

The digits of a number stand for it again, and there are no leading zeros.

* **`Numeral.IsNumeral`** — digits that stand for a number.
* **`Numeral.isNumeral_digits`**, **`Numeral.isNumeral_hexDigits`** — the digits of a number do.
* **`Numeral.ofDigits_digits`**, **`Numeral.ofHexDigits_hexDigits`** — so the number is found again.
* **`Numeral.natText_injective`** — different numbers have different texts.
-/

namespace RuleGraph.Numeral

/-- Digits without leading zeros that stand for a number. -/
inductive IsNumeral (base : Nat) : Nat → List Char → Prop where
  /-- A number below the base has one digit. -/
  | digit {d : Nat} (small : d < base) : IsNumeral base d [digitChar d]
  /-- Another number has a last digit and those of what is before it, which is not zero. -/
  | more {n d : Nat} {front : List Char} (before : IsNumeral base n front) (nonzero : n ≠ 0)
    (small : d < base) : IsNumeral base (base * n + d) (front ++ [digitChar d])

/-- Digits are put in front of those already found. -/
theorem exists_isNumeral {base : Nat} (two : 2 ≤ base) {steps n : Nat} (enough : n < steps)
    (found : List Char) :
    ∃ front, IsNumeral base n front ∧ digitsInto base steps n found = front ++ found := by
  induction steps generalizing n found with
  | zero => omega
  | succ steps ih =>
    rw [digitsInto]
    split
    · rename_i small
      exact ⟨[digitChar n], .digit small, rfl⟩
    · rename_i large
      have positive : n / base ≠ 0 := (Nat.div_pos (Nat.le_of_not_lt large) (by omega)).ne'
      have smaller : n / base < n := Nat.div_lt_self (by omega) two
      obtain ⟨front, before, same⟩ := ih (n := n / base) (by omega) (digitChar (n % base) :: found)
      have whole := before.more positive (Nat.mod_lt n (show 0 < base by omega))
      rw [Nat.div_add_mod] at whole
      exact ⟨_, whole, by rw [same, List.append_assoc, List.singleton_append]⟩

/-- The decimal digits of a number stand for it. -/
theorem isNumeral_digits (n : Nat) : IsNumeral 10 n (digits n) := by
  obtain ⟨front, isNumeral, same⟩ :=
    @exists_isNumeral 10 (by decide) (n + 1) n (Nat.lt_succ_self n) []
  rw [digits, same, List.append_nil]
  exact isNumeral

/-- The hexadecimal digits of a number stand for it. -/
theorem isNumeral_hexDigits (n : Nat) : IsNumeral 16 n (hexDigits n) := by
  obtain ⟨front, isNumeral, same⟩ :=
    @exists_isNumeral 16 (by decide) (n + 1) n (Nat.lt_succ_self n) []
  rw [hexDigits, same, List.append_nil]
  exact isNumeral

namespace IsNumeral

variable {base n : Nat} {text : List Char} (isNumeral : IsNumeral base n text)
include isNumeral

/-- There is at least one digit. -/
theorem ne_nil : text ≠ [] := by
  cases isNumeral <;> simp

/-- All of them are digits below the base. -/
theorem exists_digit {c : Char} (member : c ∈ text) : ∃ d < base, c = digitChar d := by
  induction isNumeral with
  | digit small => exact ⟨_, small, List.mem_singleton.1 member⟩
  | more _ _ small ih =>
    rcases List.mem_append.1 member with early | last
    · exact ih early
    · exact ⟨_, small, List.mem_singleton.1 last⟩

/-- Read digit by digit they come to the number. -/
theorem foldl_eq {value : Char → Nat} (values : ∀ d < base, value (digitChar d) = d) :
    text.foldl (fun n c => base * n + value c) 0 = n := by
  induction isNumeral with
  | digit small => simp [values _ small]
  | more _ _ small ih =>
    rw [List.foldl_append, ih, List.foldl_cons, List.foldl_nil, values _ small]

/-- The first digit is that of zero only if the number is zero. -/
theorem head?_ne (nonzero : n ≠ 0) : ∃ d < base, d ≠ 0 ∧ text.head? = some (digitChar d) := by
  induction isNumeral with
  | @digit d small => exact ⟨d, small, nonzero, rfl⟩
  | @more _ _ front before positive _ ih =>
    obtain ⟨d, small, first, here⟩ := ih positive
    refine ⟨d, small, first, ?_⟩
    rw [List.head?_append, here]
    rfl

/-- Numbers below a power of the base have at most so many digits. -/
theorem length_le {places : Nat} (below : n < base ^ (places + 1)) : text.length ≤ places + 1 := by
  induction isNumeral generalizing places with
  | digit => simp
  | @more m d front _ positive _ ih =>
    have less : base * m < base ^ (places + 1) := by omega
    rw [Nat.pow_succ, Nat.mul_comm] at less
    have before : m < base ^ places := Nat.lt_of_mul_lt_mul_right less
    obtain ⟨fewer, rfl⟩ : ∃ fewer, places = fewer + 1 := by
      cases places with
      | zero =>
        rw [Nat.pow_zero] at before
        omega
      | succ fewer => exact ⟨fewer, rfl⟩
    have bound := ih before
    rw [List.length_append, List.length_singleton]
    omega

end IsNumeral

/-- **The decimal digits of a number come to it again.** -/
theorem ofDigits_digits (n : Nat) : ofDigits (digits n) = n :=
  (isNumeral_digits n).foldl_eq (by decide)

/-- **The hexadecimal digits of a number come to it again.** -/
theorem ofHexDigits_hexDigits (n : Nat) : ofHexDigits (hexDigits n) = n :=
  (isNumeral_hexDigits n).foldl_eq (by decide)

/-- Decimal digits are digits. -/
theorem isDigit_of_mem_digits {n : Nat} {c : Char} (member : c ∈ digits n) : isDigit c = true := by
  obtain ⟨d, small, rfl⟩ := (isNumeral_digits n).exists_digit member
  have all : ∀ d < 10, isDigit (digitChar d) = true := by decide
  exact all d small

/-- Hexadecimal digits have values. -/
theorem isSome_hexValue?_of_mem_hexDigits {n : Nat} {c : Char} (member : c ∈ hexDigits n) :
    (hexValue? c).isSome = true := by
  obtain ⟨d, small, rfl⟩ := (isNumeral_hexDigits n).exists_digit member
  have all : ∀ d < 16, (hexValue? (digitChar d)).isSome = true := by decide
  exact all d small

/-- Different numbers have different texts. -/
theorem natText_injective : Function.Injective natText := by
  intro n m same
  have digits := String.ofList_injective same
  rw [← ofDigits_digits n, digits, ofDigits_digits]

end RuleGraph.Numeral
