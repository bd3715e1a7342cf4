import RuleGraph.Binary64.Decimal
import Mathlib.Tactic.NormNum

/-! # Signs and magnitudes

A number is its sign and the other bits.

* **`Binary64.magnitudeBits_ofMagnitudeBits`** — the magnitude is found again.
* **`Binary64.roundRatio_eq`** — a quotient is rounded at its scale.
* **`Binary64.isNaN_of_ofUnsignedText?`** — numerals stand for numbers.
-/

namespace RuleGraph.Binary64

variable {negative : Bool} {magnitude : Nat}

/-- The magnitude is found again. -/
theorem magnitudeBits_ofMagnitudeBits (small : magnitude < signWeight) :
    (ofMagnitudeBits negative magnitude).magnitudeBits = magnitude := by
  rw [signWeight, Nat.pow_eq] at small
  cases negative <;>
    simp only [magnitudeBits, ofMagnitudeBits, signWeight, Nat.pow_eq, UInt64.toNat_ofNat',
      if_true, Bool.false_eq_true, if_false] <;> omega

/-- The bits of infinity leave the sign out. -/
theorem infinityMagnitude_lt : infinityMagnitude < signWeight := by decide

/-- What is at most infinite is a number. -/
theorem isNaN_ofMagnitudeBits (small : magnitude ≤ infinityMagnitude) :
    (ofMagnitudeBits negative magnitude).isNaN = false := by
  rw [isNaN, decide_eq_false_iff_not,
    magnitudeBits_ofMagnitudeBits (Nat.lt_of_le_of_lt small infinityMagnitude_lt)]
  exact Nat.not_lt.2 small

/-- A quotient is rounded at its scale; what overflows is infinite. -/
theorem roundRatio_eq {num den top bottom : Nat} {scale : Int} (positive : num ≠ 0)
    (fits : scaleOf num den = scale) (parts : scaled num den scale = (top, bottom)) :
    roundRatio negative num den = ofMagnitudeBits negative
      (min ((scale - leastScale).toNat * exponentWeight + roundDiv top bottom)
        infinityMagnitude) := by
  rw [roundRatio, if_neg positive, fits]
  extract_lets scale'
  have parts' : scaled num den scale' = (top, bottom) := parts
  rw [parts']

/-- Rounding a quotient gives a number. -/
theorem isNaN_roundRatio (num den : Nat) : (roundRatio negative num den).isNaN = false := by
  by_cases positive : num = 0
  · rw [roundRatio, if_pos positive]
    exact isNaN_ofMagnitudeBits (Nat.zero_le _)
  · obtain ⟨⟨top, bottom⟩, parts⟩ : ∃ parts, scaled num den (scaleOf num den) = parts := ⟨_, rfl⟩
    rw [roundRatio_eq positive rfl parts]
    exact isNaN_ofMagnitudeBits (Nat.min_le_right _ _)

/-- Rounding a decimal gives a number. -/
theorem isNaN_ofDecimal (significand : Nat) (exponent : Int) :
    (ofDecimal negative significand exponent).isNaN = false := by
  unfold ofDecimal
  dsimp only
  split_ifs
  · exact isNaN_ofMagnitudeBits (Nat.zero_le _)
  · exact isNaN_ofMagnitudeBits (Nat.le_refl _)
  · exact isNaN_roundRatio _ _
  · exact isNaN_roundRatio _ _

/-- What a numeral stands for is a number. -/
theorem isNaN_of_ofUnsignedText? {text : List Char} {x : Binary64}
    (found : ofUnsignedText? negative text = some x) : x.isNaN = false := by
  rw [ofUnsignedText?] at found
  split at found
  split at found
  · cases found
  · obtain ⟨exponent, -, rfl⟩ := Option.map_eq_some_iff.1 found
    exact isNaN_ofDecimal _ _

end RuleGraph.Binary64
