import RuleGraph.Proofs.Source.Tokens
import RuleGraph.Value.Text

/-! # Literals are read

Texts and integers are read as they are written.

* **`Source.reads_textLiteral`** — a quoted text is read as the text.
* **`Source.reads_number`** — an integer in decimal digits is read as the integer.
* **`Source.declines_number`** — what does not begin like a number is no number.
-/

namespace RuleGraph.Source

open RuleGraph.Parser RuleGraph.Numeral

variable {text rest : List Char} {c : Char}

/-! ## Texts -/

/-- The code point of a character in hexadecimal digits is read as the character. -/
theorem reads_codePoint (c : Char) :
    codePoint.Reads ('\x7b' :: (hexDigits c.toNat ++ '\x7d' :: rest)) c rest := by
  have isNumeral := isNumeral_hexDigits c.toNat
  have valid : c.toNat < 0xd800 ∨ 0xdfff < c.toNat ∧ c.toNat < 0x110000 := c.valid
  have below : c.toNat < 16 ^ 6 := Nat.lt_trans (show c.toNat < 0x110000 by omega) (by decide)
  have short : (hexDigits c.toNat).length ≤ 6 := isNumeral.length_le below
  have digits := @reads_run1 ('\x7d' :: rest) (fun c => (hexValue? c).isSome) _ isNumeral.ne_nil
    (fun d => isSome_hexValue?_of_mem_hexDigits) fun d here => by
      cases here
      decide
  have same : Char.ofNat (ofHexDigits (hexDigits c.toNat)) = c := by
    rw [ofHexDigits_hexDigits, Char.ofNat_toNat]
  refine Reads.expecting _ (Reads.bind (reads_char _) (Reads.bind digits ?_))
  rw [if_pos short]
  refine Reads.bind (reads_char _) ?_
  rw [ofHexDigits_hexDigits] at same ⊢
  rw [if_pos (by simpa using valid), same]
  exact .pure

/-- An escaped character is read as the character. -/
theorem reads_textBody_escaped {escaped decoded : List Char} {steps : Nat}
    (reads : escape.Reads (escaped ++ text) c text)
    (others : (textBody steps).Reads text decoded rest) :
    (textBody (steps + 1)).Reads ('\\' :: (escaped ++ text)) (c :: decoded) rest := by
  refine Reads.bind (reads_satisfy rfl) ?_
  rw [if_neg (by decide), if_pos rfl]
  exact Reads.bind reads (Reads.bind others .pure)

/-- A written character is read as the character. -/
theorem reads_textBody_escapeChar {decoded : List Char} {steps : Nat}
    (others : (textBody steps).Reads text decoded rest) :
    (textBody (steps + 1)).Reads (Text.escapeChar c ++ text) (c :: decoded) rest := by
  have marked : ∀ d : Char, escape.Reads ([d] ++ text) c text →
      (textBody (steps + 1)).Reads (['\\', d] ++ text) (c :: decoded) rest :=
    fun d reads => reads_textBody_escaped reads others
  unfold Text.escapeChar
  split_ifs with quote backslash feed carriage tab null hidden
  · subst quote
    exact marked '"' rfl
  · subst backslash
    exact marked '\\' rfl
  · subst feed
    exact marked 'n' rfl
  · subst carriage
    exact marked 'r' rfl
  · subst tab
    exact marked 't' rfl
  · subst null
    exact marked '0' rfl
  · -- The code point stands between braces.
    have coded : escape.Reads ('u' :: ('\x7b' :: (hexDigits c.toNat ++ '\x7d' :: text))) c text :=
      Reads.bind (reads_satisfy rfl) (reads_codePoint c)
    have whole : Text.codePointEscape c ++ text =
        '\\' :: (('u' :: '\x7b' :: (hexDigits c.toNat ++ ['\x7d'])) ++ text) := by
      simp [Text.codePointEscape]
    rw [whole]
    refine reads_textBody_escaped ?_ others
    simpa using coded
  · refine Reads.bind (reads_satisfy rfl) ?_
    rw [if_neg quote, if_neg backslash]
    exact Reads.bind others .pure

/-- A text is read up to its closing quote. -/
theorem reads_textBody (chars : List Char) {steps : Nat} (enough : chars.length < steps) :
    (textBody steps).Reads (chars.flatMap Text.escapeChar ++ '"' :: rest) chars rest := by
  induction chars generalizing steps with
  | nil =>
    obtain ⟨more, rfl⟩ : ∃ more, steps = more + 1 := ⟨steps - 1, by omega⟩
    exact Reads.bind (reads_satisfy rfl) .pure
  | cons c others ih =>
    rw [List.length_cons] at enough
    obtain ⟨more, rfl⟩ : ∃ more, steps = more + 1 := ⟨steps - 1, by omega⟩
    rw [List.flatMap_cons, List.append_assoc]
    exact reads_textBody_escapeChar (ih (by omega))

/-- A written character has at least one character. -/
theorem one_le_length_escapeChar (c : Char) : 1 ≤ (Text.escapeChar c).length := by
  unfold Text.escapeChar Text.codePointEscape
  repeat' split
  all_goals simp

/-- A written text has as many characters as the text, or more. -/
theorem length_le_length_flatMap_escapeChar (chars : List Char) :
    chars.length ≤ (chars.flatMap Text.escapeChar).length := by
  induction chars with
  | nil => simp
  | cons c others ih =>
    have one := one_le_length_escapeChar c
    rw [List.flatMap_cons, List.length_append, List.length_cons]
    omega

/-- **A quoted text is read as the text.** -/
theorem reads_textLiteral (value : String) :
    textLiteral.Reads ((Text.quote value).toList ++ rest) value rest := by
  have longer := length_le_length_flatMap_escapeChar value.toList
  rw [Text.quote, Text.quoteChars, String.toList_ofList, List.cons_append, List.append_assoc,
    List.singleton_append]
  generalize written : value.toList.flatMap Text.escapeChar ++ '"' :: rest = text
  have enough : value.toList.length < text.length + 1 := by
    rw [← written, List.length_append]
    omega
  have counted : remaining.Reads text text.length text := rfl
  have body := @reads_textBody rest value.toList _ enough
  rw [written] at body
  refine Reads.bind (reads_char _) (counted.bind (body.bind ?_))
  rw [String.ofList_toList]
  exact .pure

/-- What does not begin with a quote is no text. -/
theorem declines_textLiteral (other : '"' ∉ text.head?) : textLiteral.Declines text :=
  (declines_char other).bind _

/-! ## Numbers -/

/-- Digits may stand in a name. -/
theorem isNameChar_of_isDigit (digit : isDigit c = true) : isNameChar c = true := by
  rw [isDigit, Bool.and_eq_true, decide_eq_true_eq, decide_eq_true_eq, ← isDigit_iff] at digit
  simp [isNameChar, Char.isAlphanum, digit]

/-- What ends a name ends a number. -/
theorem EndsName.isDigit_eq_false (ends : EndsName rest) : ∀ c ∈ rest.head?, isDigit c = false := by
  intro c here
  rw [← Bool.not_eq_true]
  intro digit
  have notName := (ends c here).1
  rw [isNameChar_of_isDigit digit] at notName
  exact Bool.noConfusion notName

/-- Where a name ends there is no exponent. -/
theorem declines_exponentPart (ends : EndsName rest) : exponentPart.Declines rest := by
  refine Declines.bind _ (declines_satisfy fun c here => ?_)
  have notName := (ends c here).1
  rw [← Bool.not_eq_true]
  intro mark
  rw [Bool.or_eq_true, decide_eq_true_eq, decide_eq_true_eq] at mark
  rcases mark with rfl | rfl
  · exact absurd notName (by decide)
  · exact absurd notName (by decide)

/-- Nor is there a fraction. -/
theorem declines_fractionPart (ends : EndsName rest) : fractionPart.Declines rest :=
  Declines.orElse_declines
    (Declines.bind _ (declines_char fun here => (ends _ here).2 rfl)) (declines_exponentPart ends)

/-- The sign of a number in front of its digits. -/
def signOf (n : Int) : List Char := if n < 0 then ['-'] else []

/-- A written integer is a sign and digits. -/
theorem toList_intText (n : Int) : (Numeral.intText n).toList = signOf n ++ digits n.natAbs := by
  unfold Numeral.intText signOf
  split
  · rw [String.toList_append, natText, String.toList_ofList, String.toList_ofList]
  · rw [natText, String.toList_ofList, List.nil_append]

/-- Digits begin with a digit. -/
theorem isDigit_of_mem_head?_digits {n : Nat} (here : c ∈ (digits n ++ rest).head?) :
    isDigit c = true := by
  have nonempty := (isNumeral_digits n).ne_nil
  rw [List.head?_append_of_ne_nil _ nonempty] at here
  exact isDigit_of_mem_digits (List.mem_of_mem_head? here)

/-- An integer is no floating-point number. -/
theorem declines_floatLiteral (n : Int) (ends : EndsName rest) :
    floatLiteral.Declines (signOf n ++ (digits n.natAbs ++ rest)) := by
  have whole := @reads_run1 rest isDigit (digits n.natAbs) (isNumeral_digits _).ne_nil
    (fun c => isDigit_of_mem_digits) ends.isDigit_eq_false
  have others : ∀ next : List Char → List Char → Parser Binary64, (do
      let whole ← run1 isDigit
      let fraction ← fractionPart
      next whole fraction : Parser Binary64).Declines (digits n.natAbs ++ rest) :=
    fun next => whole.bind_declines ((declines_fractionPart ends).bind _)
  unfold floatLiteral signOf
  split
  · exact (reads_char '-').optional.bind_declines (others _)
  · refine Reads.bind_declines (Declines.optional (declines_char fun here => ?_)) (others _)
    exact absurd (isDigit_of_mem_head?_digits here) (by decide)

/-- The first digit of a number that is not zero is another digit. -/
theorem leading_of_digits_eq {n : Nat} (nonzero : n ≠ 0) {first : Char} {others : List Char}
    (same : digits n = first :: others) : (isDigit first && first ≠ '0') = true := by
  obtain ⟨d, small, positive, head⟩ := (isNumeral_digits n).head?_ne nonzero
  rw [same] at head
  cases head
  have all : ∀ d < 10, d ≠ 0 → (isDigit (digitChar d) && digitChar d ≠ '0') = true := by decide
  exact all d small positive

/-- Digits have no sign in front. -/
theorem declines_sign (digit : isDigit c = true) :
    (satisfy fun d => d = '+' || d = '-').Declines (c :: rest) := by
  refine declines_satisfy fun d here => ?_
  cases here
  rw [← Bool.not_eq_true]
  intro sign
  rw [Bool.or_eq_true, decide_eq_true_eq, decide_eq_true_eq] at sign
  rcases sign with rfl | rfl <;> exact absurd digit (by decide)

/-- The digits of a number that is not zero are read as the number, with the sign before them. -/
theorem reads_magnitude {n : Nat} (nonzero : n ≠ 0) (ends : EndsName rest) (sign : Option Char) :
    (do
      let first ← satisfy fun c => isDigit c && c ≠ '0'
      let rest ← run isDigit
      let magnitude : Int := ofDigits (first :: rest)
      return if sign = some '-' then -magnitude else magnitude : Parser Int).Reads
        (digits n ++ rest) (if sign = some '-' then -(n : Int) else n) rest := by
  obtain ⟨first, others, same⟩ := List.exists_cons_of_ne_nil (isNumeral_digits n).ne_nil
  have value : ofDigits (first :: others) = n := by rw [← same, ofDigits_digits]
  have trailing := @reads_run rest isDigit others (fun c member => isDigit_of_mem_digits
    (same ▸ List.mem_cons_of_mem _ member)) ends.isDigit_eq_false
  rw [same]
  refine Reads.bind (reads_satisfy (leading_of_digits_eq nonzero same)) (Reads.bind trailing ?_)
  rw [value]
  exact .pure

/-- An integer literal is read as the integer. -/
theorem reads_intLiteral (word : Int64) (ends : EndsName rest) :
    intLiteral.Reads (signOf word.toInt ++ (digits word.toInt.natAbs ++ rest)) word rest := by
  have range : (Int64.minValue.toInt ≤ word.toInt && word.toInt ≤ Int64.maxValue.toInt) = true := by
    simp only [Bool.and_eq_true, decide_eq_true_eq]
    exact ⟨Int64.minValue_le_toInt word, Int64.toInt_le word⟩
  refine @Reads.bind _ _ _ _ rest rest word.toInt _ _ ?_ ?_
  swap
  · rw [if_pos range, Int64.ofInt_toInt]
    exact .pure
  generalize word.toInt = n
  by_cases zero : n = 0
  · subst zero
    refine Declines.orElse ((declines_sign rfl).optional.bind_declines ?_)
      (Reads.bind (reads_char '0') .pure)
    refine Declines.bind _ (declines_satisfy fun c here => ?_)
    cases here
    decide
  · have magnitude := reads_magnitude (Int.natAbs_ne_zero.2 zero) ends
    unfold signOf
    split
    · have value : n = if some '-' = some '-' then -(n.natAbs : Int) else n.natAbs := by
        rw [if_pos rfl]
        omega
      have reads := magnitude (some '-')
      rw [← value] at reads
      exact Reads.orElse _ (Reads.bind (reads_satisfy rfl).optional reads)
    · have value : n = if none = some '-' then -(n.natAbs : Int) else n.natAbs := by
        rw [if_neg (by decide)]
        omega
      have reads := magnitude none
      rw [← value] at reads
      refine Reads.orElse _ (Reads.bind (Declines.optional ?_) reads)
      obtain ⟨first, others, same⟩ := List.exists_cons_of_ne_nil (isNumeral_digits n.natAbs).ne_nil
      rw [List.nil_append, same]
      exact declines_sign (isDigit_of_mem_digits (same ▸ List.mem_cons_self))

/-- **An integer in decimal digits is read as the integer.** -/
theorem reads_number (n : Int64) (ends : EndsName rest) :
    number.Reads ((intText n).toList ++ rest) (.int n) rest := by
  rw [intText, toList_intText, List.append_assoc]
  exact Declines.orElse ((declines_floatLiteral n.toInt ends).bind _)
    (Reads.bind (reads_intLiteral n ends) .pure)

/-- What begins neither with a digit nor with a sign is no number. -/
theorem declines_number (other : ∀ c ∈ text.head?, isDigit c = false ∧ c ≠ '-' ∧ c ≠ '+') :
    number.Declines text := by
  have noDigit : ∀ c ∈ text.head?, isDigit c = false := fun c here => (other c here).1
  refine Declines.orElse_declines (Declines.bind _ ?_) (Declines.bind _ (Declines.bind _ ?_))
  · refine Reads.bind_declines (Declines.optional (declines_char fun here => ?_))
      (Declines.bind _ (declines_run1 noDigit))
    exact (other _ here).2.1 rfl
  · refine Declines.orElse_declines (Reads.bind_declines (Declines.optional ?_)
      (Declines.bind _ (declines_satisfy ?_))) (Declines.bind _ (declines_char fun here => ?_))
    · refine declines_satisfy fun c here => ?_
      simp [(other c here).2]
    · exact fun c here => by simp [noDigit c here]
    · exact absurd (noDigit _ here) (by decide)

end RuleGraph.Source
