import RuleGraph.Proofs.Source.Scan

/-! # Parentheses outside of texts

The raw text of a call ends at the first closing parenthesis outside of texts that closes no
parenthesis behind the one of the call. It would close one if what stands in between were balanced.

* **`Source.Outside`** — the front of a text that ends outside of texts between quotes.
* **`Source.Balanced`**, **`Source.Opened`** — parentheses that are all closed, or so many not.
* **`Source.ClosesCall`** — a parenthesis behind a front closes none in it.
* **`Source.Balanced.splitCall?_append`**, **`Source.Opened.splitCall?_append`** — what the search
  for the end of a call passes over.
* **`Source.splitCall?_eq_some_iff`**, **`Source.splitCall?_eq_some_iff_first`** — where it ends.
-/

namespace RuleGraph.Source

open RuleGraph.Parser

/-- What ends outside of texts: characters other than quotes, and texts with both of their
quotes. -/
inductive Outside : List Char → Prop where
  /-- Nothing. -/
  | nil : Outside []
  /-- A character first. -/
  | char {c : Char} {front : List Char} (other : c ≠ '"') (behind : Outside front) :
    Outside (c :: front)
  /-- A text first: what stands behind its first quote ends with the other one. -/
  | text {body front : List Char} (closed : closing? body = some []) (behind : Outside front) :
    Outside ('"' :: (body ++ front))

/-- What has as many opening as closing parentheses outside of texts, in their proper order. -/
inductive Balanced : List Char → Prop where
  /-- Nothing. -/
  | nil : Balanced []
  /-- A character first. -/
  | char {c : Char} {front : List Char} (other : c ∉ ['"', '(', ')']) (behind : Balanced front) :
    Balanced (c :: front)
  /-- A text first. -/
  | text {body front : List Char} (closed : closing? body = some []) (behind : Balanced front) :
    Balanced ('"' :: (body ++ front))
  /-- Something between parentheses first. -/
  | parentheses {inner front : List Char} (inside : Balanced inner) (behind : Balanced front) :
    Balanced ('(' :: (inner ++ ')' :: front))

/-- What has so many parentheses outside of texts that are not closed. -/
inductive Opened : Nat → List Char → Prop where
  /-- All are closed. -/
  | none {front : List Char} (balanced : Balanced front) : Opened 0 front
  /-- The first that is not closed, and those behind it. -/
  | more {depth : Nat} {before inner : List Char} (balanced : Balanced before)
    (inside : Opened depth inner) : Opened (depth + 1) (before ++ '(' :: inner)

/-- A closing parenthesis behind a front stands outside of texts and closes no parenthesis of the
front: what stands behind such a parenthesis is not balanced. -/
structure ClosesCall (front : List Char) : Prop where
  /-- It stands outside of texts. -/
  outside : Outside front
  /-- It closes no parenthesis. -/
  unmatched : ∀ before inner, front = before ++ '(' :: inner → Outside before → ¬Balanced inner

variable {text front rest inner body raw : List Char} {depth : Nat}

/-! ## Texts between quotes -/

/-- A text is closed where it is, whatever follows. -/
theorem closing?_append_of_closed (closed : closing? body = some []) (rest : List Char) :
    closing? (body ++ rest) = some rest := by
  fun_induction closing? body with
  | case1 => cases closed
  | case2 =>
    cases closed
    rfl
  | case3 c body ih => exact ih closed
  | case4 c body notQuote notEscape ih =>
    cases body with
    | nil => cases closed
    | cons d body =>
      rw [List.cons_append, closing?]
      · exact ih closed
      · exact notQuote
      · rintro d' body' rfl same
        obtain ⟨rfl, -⟩ := List.cons.inj same
        exact notEscape _ _ rfl rfl

/-- What is left behind a text was left behind its closing quote. -/
theorem exists_append_of_closing? (closed : closing? text = some rest) :
    ∃ body, text = body ++ rest ∧ closing? body = some [] := by
  fun_induction closing? text with
  | case1 => cases closed
  | case2 later =>
    cases closed
    exact ⟨['"'], rfl, rfl⟩
  | case3 c later ih =>
    obtain ⟨body, rfl, closed'⟩ := ih closed
    exact ⟨'\\' :: c :: body, rfl, closed'⟩
  | case4 c later notQuote notEscape ih =>
    obtain ⟨body, rfl, closed'⟩ := ih closed
    refine ⟨c :: body, rfl, ?_⟩
    rw [closing?]
    · exact closed'
    · exact notQuote
    · rintro d body' rfl rfl
      exact notEscape d (body' ++ rest) rfl rfl

/-! ## Fronts behind one another -/

namespace Outside

/-- What has no quotes ends outside of texts. -/
theorem of_notMem (noQuotes : '"' ∉ front) : Outside front := by
  induction front with
  | nil => exact .nil
  | cons c front ih =>
    simp only [List.mem_cons, not_or] at noQuotes
    exact .char (Ne.symm noQuotes.1) (ih noQuotes.2)

/-- Fronts behind one another. -/
theorem append (first : Outside front) (second : Outside rest) : Outside (front ++ rest) := by
  induction first with
  | nil => exact second
  | char other _ ih => exact .char other ih
  | @text body front closed _ ih =>
    rw [List.cons_append, List.append_assoc]
    exact .text closed ih

/-- What follows a character ends outside of texts if both together do. -/
theorem of_cons {c : Char} (other : c ≠ '"') (both : Outside (c :: front)) : Outside front := by
  generalize whole : c :: front = text at both
  cases both with
  | nil => cases whole
  | char _ behind =>
    cases whole
    exact behind
  | text => exact absurd (List.cons.inj whole).1 other

/-- What follows a front ends outside of texts if both together do. -/
theorem of_append (first : Outside front) (both : Outside (front ++ rest)) : Outside rest := by
  induction first with
  | nil => exact both
  | char other _ ih => exact ih (of_cons other both)
  | @text body front closed _ ih =>
    rw [List.cons_append, List.append_assoc] at both
    generalize whole : body ++ (front ++ rest) = text at both
    cases both with
    | char other => exact absurd rfl other
    | @text body' front' closed' behind =>
      have same := closing?_append_of_closed closed (front ++ rest)
      rw [whole, closing?_append_of_closed closed'] at same
      cases same
      exact ih behind

/-- A quote that has no closing one is not outside of texts. -/
theorem not_quote (unclosed : closing? text = none) : ¬Outside ('"' :: text) := by
  intro outside
  generalize whole : '"' :: text = front at outside
  cases outside with
  | nil => cases whole
  | char other => exact other (List.cons.inj whole).1.symm
  | text closed =>
    obtain ⟨-, rfl⟩ := List.cons.inj whole
    rw [closing?_append_of_closed closed] at unclosed
    cases unclosed

end Outside

namespace Balanced

/-- What is balanced ends outside of texts. -/
theorem outside (balanced : Balanced front) : Outside front := by
  induction balanced with
  | nil => exact .nil
  | char other _ ih => exact .char (fun same => other (by simp [same])) ih
  | text closed _ ih => exact .text closed ih
  | parentheses _ _ ihInner ih =>
    exact .char (by decide) (ihInner.append (.char (by decide) ih))

/-- Fronts behind one another. -/
theorem append (first : Balanced front) (second : Balanced rest) : Balanced (front ++ rest) := by
  induction first with
  | nil => exact second
  | char other _ ih => exact .char other ih
  | @text body front closed _ ih =>
    rw [List.cons_append, List.append_assoc]
    exact .text closed ih
  | @parentheses inner front inside _ _ ih =>
    rw [List.cons_append, List.append_assoc, List.cons_append]
    exact .parentheses inside ih

end Balanced

namespace Opened

/-- Something balanced in front opens nothing. -/
theorem behind (balanced : Balanced front) (opened : Opened depth rest) :
    Opened depth (front ++ rest) := by
  cases opened with
  | none balanced' => exact .none (balanced.append balanced')
  | more balanced' inside =>
    rw [← List.append_assoc]
    exact .more (balanced.append balanced') inside

/-- All that is opened ends outside of texts. -/
theorem outside (opened : Opened depth front) : Outside front := by
  induction opened with
  | none balanced => exact balanced.outside
  | more balanced _ ih => exact balanced.outside.append (.char (by decide) ih)

/-- Behind the last parenthesis that is not closed everything is balanced. -/
theorem exists_last (opened : Opened (depth + 1) front) :
    ∃ before inner, front = before ++ '(' :: inner ∧ Opened depth before ∧ Balanced inner := by
  induction depth generalizing front with
  | zero =>
    obtain _ | @⟨_, before, inner, balanced, inside⟩ := opened
    cases inside with
    | none balanced' => exact ⟨before, inner, rfl, .none balanced, balanced'⟩
  | succ depth ih =>
    obtain _ | @⟨_, before, inner, balanced, inside⟩ := opened
    obtain ⟨before', inner', rfl, opened', balanced'⟩ := ih inside
    exact ⟨before ++ '(' :: before', inner', by simp, .more balanced opened', balanced'⟩

end Opened

/-! ## What the search passes over -/

/-- What is found behind a front that was passed over. -/
def passOver (front : List Char) (split : Option (List Char × List Char)) :
    Option (List Char × List Char) :=
  split.map fun split => (front ++ split.1, split.2)

/-- Two fronts are passed over one after the other. -/
theorem passOver_passOver (front inner : List Char) (split : Option (List Char × List Char)) :
    passOver front (passOver inner split) = passOver (front ++ inner) split := by
  simp [passOver, Function.comp_def]

/-- A character other than quotes and parentheses is passed over. -/
theorem splitCall?_char {c : Char} (other : c ∉ ['"', '(', ')']) (depth : Nat) (rest : List Char) :
    splitCall? (.code depth) (c :: rest) = passOver [c] (splitCall? (.code depth) rest) := by
  simp only [List.mem_cons, List.not_mem_nil, or_false, not_or] at other
  obtain ⟨notQuote, notOpening, notClosing⟩ := other
  rw [splitCall?]
  simp [notQuote, notOpening, notClosing, passOver]

/-- A quote leads into a text. -/
theorem splitCall?_quote (depth : Nat) (rest : List Char) :
    splitCall? (.code depth) ('"' :: rest) = passOver ['"'] (splitCall? (.inText depth) rest) :=
  rfl

/-- An opening parenthesis leads one deeper. -/
theorem splitCall?_opening (depth : Nat) (rest : List Char) :
    splitCall? (.code depth) ('(' :: rest) = passOver ['('] (splitCall? (.code (depth + 1)) rest) :=
  rfl

/-- A closing parenthesis leads back. -/
theorem splitCall?_closing (depth : Nat) (rest : List Char) :
    splitCall? (.code (depth + 1)) (')' :: rest) = passOver [')'] (splitCall? (.code depth) rest) :=
  rfl

/-- Where none is open it ends the search. -/
theorem splitCall?_end (rest : List Char) : splitCall? (.code 0) (')' :: rest) = some ([], rest) :=
  rfl

/-- A text is passed over up to its closing quote. -/
theorem splitCall?_text (closed : closing? body = some []) (depth : Nat) (rest : List Char) :
    splitCall? (.inText depth) (body ++ rest) = passOver body (splitCall? (.code depth) rest) := by
  fun_induction closing? body with
  | case1 => cases closed
  | case2 =>
    cases closed
    rfl
  | case3 c body ih =>
    rw [List.cons_append, List.cons_append]
    show passOver ['\\'] (passOver [c] (splitCall? (.inText depth) (body ++ rest))) = _
    rw [ih closed, passOver_passOver, passOver_passOver]
    rfl
  | case4 c body notQuote notEscape ih =>
    have notBackslash : c ≠ '\\' := by
      rintro rfl
      cases body with
      | nil => cases closed
      | cons d body => exact notEscape d body rfl rfl
    rw [List.cons_append, splitCall?, if_neg notBackslash, if_neg notQuote]
    show passOver [c] (splitCall? (.inText depth) (body ++ rest)) = _
    rw [ih closed, passOver_passOver]
    rfl

/-- A text without a closing quote is never left. -/
theorem splitCall?_of_unclosed (unclosed : closing? text = none) (depth : Nat) :
    splitCall? (.inText depth) text = none := by
  fun_induction closing? text with
  | case1 => rfl
  | case2 => cases unclosed
  | case3 c text ih =>
    rw [splitCall?, if_pos rfl, splitCall?, ih unclosed]
    rfl
  | case4 c text notQuote notEscape ih =>
    rw [splitCall?]
    split_ifs with backslash
    · subst backslash
      cases text with
      | nil => rfl
      | cons d text => exact absurd rfl (notEscape d text rfl)
    · rw [ih unclosed]
      rfl

/-- **What is balanced is passed over**, and as many parentheses are open behind it as before. -/
theorem Balanced.splitCall?_append (balanced : Balanced front) (depth : Nat) (rest : List Char) :
    splitCall? (.code depth) (front ++ rest) = passOver front (splitCall? (.code depth) rest) := by
  induction balanced generalizing depth rest with
  | nil => simp [passOver]
  | @char c front other _ ih =>
    rw [List.cons_append, splitCall?_char other, ih, passOver_passOver]
    rfl
  | @text body front closed _ ih =>
    rw [List.cons_append, List.append_assoc, splitCall?_quote, splitCall?_text closed, ih,
      passOver_passOver, passOver_passOver]
    rfl
  | @parentheses inner front _ _ ihInner ih =>
    rw [List.cons_append, List.append_assoc, List.cons_append, splitCall?_opening, ihInner,
      splitCall?_closing, ih, passOver_passOver, passOver_passOver, passOver_passOver]
    simp

/-- **Behind what is opened** so many more parentheses are open. -/
theorem Opened.splitCall?_append (opened : Opened depth front) (start : Nat) (rest : List Char) :
    splitCall? (.code start) (front ++ rest) =
      passOver front (splitCall? (.code (start + depth)) rest) := by
  induction opened generalizing start with
  | none balanced => exact balanced.splitCall?_append start rest
  | @more depth before inner balanced _ ih =>
    rw [List.append_assoc, balanced.splitCall?_append, List.cons_append, splitCall?_opening, ih,
      passOver_passOver, passOver_passOver, Nat.add_right_comm, Nat.add_assoc]
    simp

/-! ## Where the search ends -/

/-- The search ends at a closing parenthesis behind something balanced. -/
theorem Balanced.splitCall?_eq (balanced : Balanced raw) (rest : List Char) :
    splitCall? (.code 0) (raw ++ ')' :: rest) = some (raw, rest) := by
  rw [balanced.splitCall?_append, splitCall?_end]
  simp [passOver]

/-- What the search for the end of a call comes to. -/
inductive Course : List Char → Prop where
  /-- A closing parenthesis behind something balanced. -/
  | ends {raw rest : List Char} (balanced : Balanced raw) : Course (raw ++ ')' :: rest)
  /-- The end of the text. -/
  | runsOut {depth : Nat} {front : List Char} (opened : Opened depth front) : Course front
  /-- A quote that has no closing one. -/
  | unclosed {depth : Nat} {front rest : List Char} (opened : Opened depth front)
    (unclosed : closing? rest = none) : Course (front ++ '"' :: rest)

/-- It is the same behind something balanced. -/
theorem Course.behind (balanced : Balanced front) (course : Course text) :
    Course (front ++ text) := by
  cases course with
  | ends balanced' =>
    rw [← List.append_assoc]
    exact .ends (balanced.append balanced')
  | runsOut opened => exact .runsOut (opened.behind balanced)
  | unclosed opened unclosed =>
    rw [← List.append_assoc]
    exact .unclosed (opened.behind balanced) unclosed

/-- **Every text has a course.** -/
theorem course (text : List Char) : Course text := by
  induction length : text.length using Nat.strong_induction_on generalizing text with
  | _ length ih =>
    subst length
    have later : ∀ rest : List Char, rest.length < text.length → Course rest :=
      fun rest shorter => ih _ shorter rest rfl
    cases text with
    | nil => exact .runsOut (.none .nil)
    | cons c text =>
      by_cases closing : c = ')'
      · rw [closing]
        exact .ends .nil
      by_cases quote : c = '"'
      · subst quote
        cases found : closing? text with
        | none => exact .unclosed (.none .nil) found
        | some rest =>
          obtain ⟨body, rfl, closed⟩ := exists_append_of_closing? found
          have shorter : rest.length < ('"' :: (body ++ rest)).length := by
            simp only [List.length_cons, List.length_append]
            omega
          simpa using (later rest shorter).behind (.text closed .nil)
      by_cases opening : c = '('
      · subst opening
        have inner := later text (Nat.lt_succ_self _)
        -- What the parenthesis contains is closed or not.
        cases inner with
        | @ends inner rest balanced =>
          have shorter : rest.length < ('(' :: (inner ++ ')' :: rest)).length := by
            simp only [List.length_cons, List.length_append]
            omega
          simpa using (later rest shorter).behind (.parentheses balanced .nil)
        | runsOut opened => exact .runsOut (.more .nil opened)
        | unclosed opened unclosed => exact .unclosed (.more .nil opened) unclosed
      · have other : c ∉ ['"', '(', ')'] := by simp [quote, opening, closing]
        exact (later text (Nat.lt_succ_self _)).behind (.char other .nil)

/-- The search ends behind something balanced only. -/
theorem splitCall?_eq_some_iff :
    splitCall? (.code 0) text = some (raw, rest) ↔ text = raw ++ ')' :: rest ∧ Balanced raw := by
  refine ⟨fun found => ?_, fun ⟨whole, balanced⟩ => whole ▸ balanced.splitCall?_eq rest⟩
  cases course text with
  | ends balanced =>
    rw [balanced.splitCall?_eq] at found
    cases found
    exact ⟨rfl, balanced⟩
  | @runsOut depth front opened =>
    have open' := opened.splitCall?_append 0 []
    rw [List.append_nil, found] at open'
    cases open'
  | unclosed opened unclosed =>
    rw [opened.splitCall?_append, splitCall?_quote, splitCall?_of_unclosed unclosed] at found
    cases found

/-! ## Parentheses that close calls -/

/-- What is balanced has no parenthesis that could be closed behind it. -/
theorem Balanced.closesCall (balanced : Balanced front) : ClosesCall front := by
  refine ⟨balanced.outside, fun before inner whole outside balanced' => ?_⟩
  have found := balanced.splitCall?_eq []
  rw [show front ++ [')'] = before ++ '(' :: (inner ++ [')']) by simp [whole]] at found
  cases course before with
  | ends balanced'' =>
    -- The search would have ended in front of the parenthesis.
    rw [List.append_assoc, List.cons_append, balanced''.splitCall?_eq] at found
    simp at found
  | runsOut opened =>
    rw [opened.splitCall?_append, splitCall?_opening,
      balanced'.splitCall?_append, Nat.zero_add, splitCall?_closing] at found
    cases found
  | unclosed opened unclosed =>
    exact Outside.not_quote unclosed (opened.outside.of_append outside)

/-- **In front of a parenthesis that closes none** everything is balanced, or there is such a
parenthesis before. -/
theorem ClosesCall.balanced_or (closes : ClosesCall front) :
    Balanced front ∨ ∃ raw rest, front = raw ++ ')' :: rest ∧ Balanced raw := by
  obtain ⟨outside, unmatched⟩ := closes
  cases course front with
  | @ends raw rest balanced => exact .inr ⟨raw, rest, rfl, balanced⟩
  | @runsOut depth front opened =>
    cases depth with
    | zero =>
      cases opened with
      | none balanced => exact .inl balanced
    | succ depth =>
      obtain ⟨before, inner, whole, opened', balanced⟩ := opened.exists_last
      exact absurd balanced (unmatched before inner whole opened'.outside)
  | unclosed opened unclosed =>
    exact absurd (opened.outside.of_append outside) (Outside.not_quote unclosed)

/-- A call is closed exactly if there is a parenthesis that closes none. -/
theorem exists_splitCall?_iff : (∃ raw rest, splitCall? (.code 0) text = some (raw, rest)) ↔
    ∃ front rest, text = front ++ ')' :: rest ∧ ClosesCall front := by
  constructor
  · rintro ⟨raw, rest, found⟩
    obtain ⟨whole, balanced⟩ := splitCall?_eq_some_iff.1 found
    exact ⟨raw, rest, whole, balanced.closesCall⟩
  · rintro ⟨front, rest, rfl, closes⟩
    rcases closes.balanced_or with balanced | ⟨raw, later, rfl, balanced⟩
    · exact ⟨front, rest, balanced.splitCall?_eq rest⟩
    · refine ⟨raw, later ++ ')' :: rest, ?_⟩
      rw [List.append_assoc, List.cons_append, balanced.splitCall?_eq]

/-- **The first of them** is the one that closes it. -/
theorem splitCall?_eq_some_iff_first : splitCall? (.code 0) text = some (raw, rest) ↔
    text = raw ++ ')' :: rest ∧ ClosesCall raw ∧
      ∀ front later, text = front ++ ')' :: later → ClosesCall front →
        raw.length ≤ front.length := by
  constructor
  · intro found
    obtain ⟨whole, balanced⟩ := splitCall?_eq_some_iff.1 found
    refine ⟨whole, balanced.closesCall, fun front later whole' closes => ?_⟩
    rw [whole'] at found
    rcases closes.balanced_or with balanced' | ⟨raw', rest', rfl, balanced'⟩
    · rw [balanced'.splitCall?_eq] at found
      cases found
      exact Nat.le_refl _
    · rw [List.append_assoc, List.cons_append, balanced'.splitCall?_eq] at found
      cases found
      simp
  · rintro ⟨rfl, closes, first⟩
    rcases closes.balanced_or with balanced | ⟨raw', rest', rfl, balanced⟩
    · exact balanced.splitCall?_eq rest
    · have shorter := first raw' (rest' ++ ')' :: rest) (by simp) balanced.closesCall
      simp at shorter

/-- **Behind what the search passes over** its depth is the number of parentheses that are open
there: none exactly if the next closing parenthesis closes none of them. -/
theorem exists_depth_of_outside (outside : Outside front)
    (goesOn : ∀ raw later, front = raw ++ ')' :: later → ¬ClosesCall raw) :
    ∃ depth, Opened depth front ∧ (depth = 0 ↔ ClosesCall front) ∧ ∀ rest,
      splitCall? (.code 0) (front ++ rest) = passOver front (splitCall? (.code depth) rest) := by
  cases course front with
  | ends balanced => exact absurd balanced.closesCall (goesOn _ _ rfl)
  | @runsOut depth front opened =>
    refine ⟨depth, opened, ⟨?_, fun closes => ?_⟩, fun rest => ?_⟩
    · rintro rfl
      cases opened with
      | none balanced => exact balanced.closesCall
    · by_contra positive
      obtain ⟨less, rfl⟩ := Nat.exists_eq_succ_of_ne_zero positive
      obtain ⟨before, inner, whole, opened', balanced⟩ := opened.exists_last
      exact closes.unmatched before inner whole opened'.outside balanced
    · rw [opened.splitCall?_append, Nat.zero_add]
  | unclosed opened unclosed =>
    exact absurd (opened.outside.of_append outside) (Outside.not_quote unclosed)

end RuleGraph.Source
