import RuleGraph.Proofs.Source.Blanks
import RuleGraph.Proofs.Text.Numerals

/-! # Tokens are read

Tokens are read wherever they stand, in front of whatever cannot belong to them.

* **`Source.IsIdentifier`** — names that are read; `reads_identifier`.
* **`Source.reads_keyword`**, **`Source.declines_keyword`** — words of the language.
-/

namespace RuleGraph.Source

open RuleGraph.Parser RuleGraph.Numeral

variable {gap text tail rest : List Char}

/-! ## Names -/

/-- A text can be read as a name. -/
def IsIdentifier (name : String) : Prop :=
  ∃ first others, name.toList = first :: others ∧ isNameStart first = true ∧
    ∀ c ∈ others, (isNameChar c || c = '.') = true

instance (name : String) : Decidable (IsIdentifier name) :=
  match same : name.toList with
  | [] => isFalse fun ⟨_, _, whole, _⟩ => List.cons_ne_nil _ _ (whole.symm.trans same)
  | first :: others =>
    decidable_of_iff (isNameStart first = true ∧ ∀ c ∈ others, (isNameChar c || c = '.') = true)
      ⟨fun ⟨start, inside⟩ => ⟨first, others, same, start, inside⟩,
        fun ⟨_, _, whole, start, inside⟩ => by
          cases whole.symm.trans same
          exact ⟨start, inside⟩⟩

/-- A text does not go on with a name. -/
def EndsName (text : List Char) : Prop :=
  ∀ c ∈ text.head?, isNameChar c = false ∧ c ≠ '.'

/-- A name is read up to its end. -/
theorem reads_identifier {name : String} (isIdentifier : IsIdentifier name) (ends : EndsName rest) :
    identifier.Reads (name.toList ++ rest) name rest := by
  obtain ⟨first, others, same, start, inside⟩ := isIdentifier
  have taken := @reads_run rest _ others inside fun c here => by
    obtain ⟨notName, notPoint⟩ := ends c here
    simp [notName, notPoint]
  have whole : String.ofList (first :: others) = name := by rw [← same, String.ofList_toList]
  rw [same, ← whole]
  exact Reads.bind (reads_satisfy start) (Reads.bind taken .pure)

/-- What does not begin like a name is declined. -/
theorem declines_identifier (other : ∀ c ∈ text.head?, isNameStart c = false) :
    identifier.Declines text :=
  (declines_satisfy other).bind _

/-- A name begins like one. -/
theorem isNameStart_of_isIdentifier {name : String} (isIdentifier : IsIdentifier name) {c : Char}
    (here : c ∈ (name.toList ++ rest).head?) : isNameStart c = true := by
  obtain ⟨first, others, same, start, -⟩ := isIdentifier
  rw [same] at here
  cases here
  exact start

/-- Letters by their code points. -/
theorem isAlpha_iff {c : Char} : c.isAlpha = true ↔
    65 ≤ c.toNat ∧ c.toNat ≤ 90 ∨ 97 ≤ c.toNat ∧ c.toNat ≤ 122 := by
  show (decide (c.val ≥ 'A'.val ∧ c.val ≤ 'Z'.val) ||
    (c.val ≥ 'a'.val && c.val ≤ 'z'.val)) = true ↔ _
  simp [UInt32.le_iff_toNat_le, ← Char.toNat_val]

/-- Digits by their code points. -/
theorem isDigit_iff {c : Char} : c.isDigit = true ↔ 48 ≤ c.toNat ∧ c.toNat ≤ 57 := by
  simp [Char.isDigit, UInt32.le_iff_toNat_le, ← Char.toNat_val]

/-- What may stand in a name is no blank and begins no comment. -/
theorem not_isBlank_of_isNameChar {c : Char} (inside : isNameChar c = true) :
    Text.isBlank c = false ∧ c ≠ '#' := by
  have bounds : 48 ≤ c.toNat ∧ c.toNat ≤ 122 := by
    rw [isNameChar, Char.isAlphanum, Bool.or_eq_true, Bool.or_eq_true, isAlpha_iff, isDigit_iff,
      decide_eq_true_eq] at inside
    rcases inside with known | rfl
    · omega
    · decide
  refine ⟨?_, ?_⟩
  · simp only [Text.isBlank, Text.blankRanges, Text.CharRange.covers, Text.CharRange.contains,
      List.any_cons, List.any_nil, Bool.or_eq_false_iff, Bool.and_eq_false_iff,
      decide_eq_false_iff_not, and_true]
    omega
  · rintro rfl
    exact absurd bounds (by decide)

/-- What may begin a name may stand in it. -/
theorem isNameChar_of_isNameStart {c : Char} (start : isNameStart c = true) :
    isNameChar c = true := by
  rw [isNameStart, Bool.or_eq_true] at start
  rw [isNameChar, Char.isAlphanum, Bool.or_eq_true, Bool.or_eq_true]
  exact start.imp_left .inl

/-- A name begins a token. -/
theorem startsToken_of_isIdentifier {name : String} (isIdentifier : IsIdentifier name) :
    StartsToken (name.toList ++ rest) := fun _ here =>
  not_isBlank_of_isNameChar
    (isNameChar_of_isNameStart (isNameStart_of_isIdentifier isIdentifier here))

/-- A gap ends a name. -/
theorem IsGap.endsName {gap : List Char} (isGap : IsGap gap) (ends : EndsName rest) :
    EndsName (gap ++ rest) := by
  cases isGap with
  | nil => exact ends
  | @blank c gap isBlank =>
    rintro d ⟨⟩
    refine ⟨?_, ?_⟩
    · rw [← Bool.not_eq_true]
      intro inside
      rw [(not_isBlank_of_isNameChar inside).1] at isBlank
      exact Bool.noConfusion isBlank
    · rintro rfl
      exact absurd isBlank (by decide)
  | comment =>
    rintro d ⟨⟩
    decide

/-! ## Words of the language -/

/-- The characters of a name up to the first point, in lower case. -/
def wordOf (text : List Char) : List Char :=
  (text.takeWhile isNameChar).map Char.toLower

/-- The first word of a text ends where no name goes on. -/
theorem wordOf_append (ends : ∀ c ∈ rest.head?, isNameChar c = false) :
    wordOf (text ++ rest) = wordOf text := by
  have stopped : rest.takeWhile isNameChar = [] :=
    (@takeWhile_append rest isNameChar [] (fun _ none => absurd none List.not_mem_nil) ends).1
  rw [wordOf, wordOf, List.takeWhile_append]
  split
  · rename_i whole
    rw [stopped, List.append_nil, List.IsPrefix.eq_of_length (List.takeWhile_prefix _) whole]
  · rfl

/-- What does not begin with the first letter of a word does not begin with the word. -/
theorem wordOf_ne {d : Char} {letters : List Char} (other : ∀ c ∈ text.head?, c.toLower ≠ d) :
    wordOf text ≠ d :: letters := by
  cases text with
  | nil => exact (List.cons_ne_nil _ _).symm
  | cons c text =>
    rw [wordOf, List.takeWhile_cons]
    split
    · exact fun same => other c rfl (List.cons.inj same).1
    · exact (List.cons_ne_nil _ _).symm

/-- A word of the language is read in any letter case. -/
theorem reads_keyword {letters : String} {front : List Char}
    (same : front.map Char.toLower = letters.toList.map Char.toLower)
    (ends : ∀ c ∈ rest.head?, isNameChar c = false) :
    (keyword letters).Reads (front ++ rest) () rest := by
  have agree : List.Forall₂ (fun c letter => decide (c.toLower = letter.toLower) = true) front
      letters.toList := by
    rw [← List.forall₂_eq_eq_eq, List.forall₂_map_left_iff, List.forall₂_map_right_iff] at same
    exact same.imp fun _ _ => decide_eq_true
  exact Reads.bind (reads_literalBy agree) (declines_satisfy ends).notFollowedBy

/-- Capital letters lie thirty-two code points before the small ones. -/
theorem toNat_toLower (c : Char) : c.toLower.toNat =
    if 65 ≤ c.toNat ∧ c.toNat ≤ 90 then c.toNat + 32 else c.toNat := by
  have upper : (c.val ≥ 'A'.val ∧ c.val ≤ 'Z'.val) ↔ 65 ≤ c.toNat ∧ c.toNat ≤ 90 := by
    simp [UInt32.le_iff_toNat_le, ← Char.toNat_val]
  show Char.toNat (dite (c.val ≥ 'A'.val ∧ c.val ≤ 'Z'.val) _ _) = _
  by_cases capital : 65 ≤ c.toNat ∧ c.toNat ≤ 90
  · rw [if_pos capital, dif_pos (upper.2 capital)]
    have small : (c.val + 32).toNat = c.val.toNat + 32 := by
      rw [Char.toNat_val, UInt32.toNat_add, Char.toNat_val]
      refine Nat.mod_eq_of_lt ?_
      show c.toNat + 32 < 2 ^ 32
      omega
    exact small
  · rw [if_neg capital, dif_neg fun here => capital (upper.1 here)]

/-- Digits have no letter case. -/
theorem toLower_of_isDigit {c : Char} (digit : Numeral.isDigit c = true) : c.toLower = c := by
  rw [Numeral.isDigit, Bool.and_eq_true, decide_eq_true_eq, decide_eq_true_eq] at digit
  have same : c.toLower.toNat = c.toNat := by
    rw [toNat_toLower, if_neg (by omega)]
  rw [← Char.ofNat_toNat c.toLower, same, Char.ofNat_toNat]

/-- A letter is one in any case. -/
theorem isAlpha_of_toLower_eq {c letter : Char} (same : c.toLower = letter.toLower)
    (isAlpha : letter.isAlpha = true) : c.isAlpha = true := by
  have equal := congrArg Char.toNat same
  rw [toNat_toLower, toNat_toLower] at equal
  have range := isAlpha_iff.1 isAlpha
  exact isAlpha_iff.2 (by split at equal <;> split at equal <;> omega)

/-- A letter in any case may stand in a name. -/
theorem isNameChar_of_toLower_eq {c letter : Char} (same : c.toLower = letter.toLower)
    (isAlpha : letter.isAlpha = true) : isNameChar c = true := by
  simp [isNameChar, Char.isAlphanum, isAlpha_of_toLower_eq same isAlpha]

/-- Letters in any case may stand in a name. -/
theorem isNameChar_of_agrees {front letters : List Char}
    (agrees : List.Forall₂ (fun c letter => decide (c.toLower = letter.toLower) = true) front
      letters) (word : ∀ c ∈ letters, c.isAlpha = true) : ∀ c ∈ front, isNameChar c = true := by
  induction agrees with
  | nil => exact fun c none => absurd none List.not_mem_nil
  | cons same _ ih =>
    rw [List.forall_mem_cons] at word ⊢
    exact ⟨isNameChar_of_toLower_eq (of_decide_eq_true same) word.1, ih word.2⟩

/-- **Another word is declined**, also if it only begins like the given one. -/
theorem declines_keyword {letters : String} (word : ∀ c ∈ letters.toList, c.isAlpha = true)
    (other : wordOf text ≠ letters.toList.map Char.toLower) : (keyword letters).Declines text := by
  rcases agrees_or_declines_literalBy (fun a b => a.toLower = b.toLower) letters.toList text with
    ⟨front, rest, rfl, agrees⟩ | declines
  · -- The letters are there, so that more of a name has to follow.
    refine Reads.bind_declines (reads_literalBy agrees) ?_
    by_cases ends : ∀ c ∈ rest.head?, isNameChar c = false
    · refine absurd ?_ other
      rw [wordOf, (takeWhile_append (isNameChar_of_agrees agrees word) ends).1,
        ← List.forall₂_eq_eq_eq, List.forall₂_map_left_iff, List.forall₂_map_right_iff]
      exact agrees.imp fun _ _ => of_decide_eq_true
    · cases rest with
      | nil => exact absurd (by simp) ends
      | cons c others =>
        simp only [List.head?_cons, Option.mem_some_iff, forall_eq', Bool.not_eq_false] at ends
        exact (reads_satisfy ends).notFollowedBy
  · exact declines.bind _

end RuleGraph.Source
