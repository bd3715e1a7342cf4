import RuleGraph.Proofs.Binary64.Layout
import RuleGraph.Proofs.Source.Literals

/-! # Floating-point literals are read

A finite number is read off the text that is written for it, if the text stands for it.

* **`Source.reads_fractionPart`** — what stands behind the first digits.
* **`Source.reads_number_float`** — a floating-point number is read as the number.
-/

namespace RuleGraph.Source

open RuleGraph.Parser RuleGraph.Numeral Binary64

variable {rest : List Char}

/-- An exponent is read. -/
theorem reads_exponentPart (plus : Bool) (exponent : Int) (ends : EndsName rest) :
    exponentPart.Reads (exponentText plus exponent ++ rest) (exponentText plus exponent) rest := by
  have digits := @reads_run1 rest isDigit (digits exponent.natAbs) (isNumeral_digits _).ne_nil
    (fun c => isDigit_of_mem_digits) ends.isDigit_eq_false
  unfold exponentText
  refine Reads.bind (reads_satisfy rfl) ?_
  split_ifs with negative
  · exact Reads.bind (reads_satisfy rfl).optional (Reads.bind digits .pure)
  · exact Reads.bind (reads_satisfy rfl).optional (Reads.bind digits .pure)
  · refine Reads.bind (Declines.optional ?_) (Reads.bind digits .pure)
    have nonempty := (isNumeral_digits exponent.natAbs).ne_nil
    obtain ⟨first, others, same⟩ := List.exists_cons_of_ne_nil nonempty
    rw [List.nil_append, same]
    exact declines_sign (isDigit_of_mem_digits (same ▸ List.mem_cons_self))

/-- What stands behind the digits in front of the point is read. -/
theorem reads_fractionPart (layout : Layout) (ends : EndsName rest) :
    fractionPart.Reads (layout.behind ++ rest) layout.behind rest := by
  have scale : ∀ {exponent}, layout.exponent = some exponent →
      layout.scale = exponentText layout.plus exponent := by
    intro exponent same
    rw [Layout.scale, same, Option.elim_some]
  unfold Layout.behind
  split_ifs with none
  · obtain ⟨exponent, same⟩ :=
      Option.isSome_iff_exists.1 (layout.marked.resolve_left (not_not.2 none))
    rw [scale same]
    refine Declines.orElse (Declines.bind _ (declines_char ?_)) (reads_exponentPart _ _ ends)
    rintro ⟨⟩
  · rw [List.cons_append, List.append_assoc]
    refine Reads.orElse _ (Reads.bind (reads_char '.') ?_)
    have digits := @reads_run1 (layout.scale ++ rest) isDigit layout.fraction none
      layout.isFraction fun c here => ?_
    · refine Reads.bind digits ?_
      cases same : layout.exponent with
      | none =>
        have nothing : layout.scale = [] := by rw [Layout.scale, same, Option.elim_none]
        rw [nothing, List.append_nil]
        refine Reads.bind (declines_exponentPart ends).optional ?_
        rw [Option.getD_none, List.append_nil]
        exact .pure
      | some exponent =>
        rw [scale same]
        exact Reads.bind (reads_exponentPart _ _ ends).optional .pure
    · cases same : layout.scale with
      | nil =>
        rw [same] at here
        exact ends.isDigit_eq_false c here
      | cons d others =>
        rw [same] at here
        exact layout.isDigit_head?_scale c (by rw [same]; exact here)

/-- **A floating-point literal is read** as what it stands for. -/
theorem reads_floatLiteral (layout : Layout) {negative : Bool} {x : Binary64}
    (value : ofUnsignedText? negative layout.text = some x) (ends : EndsName rest) :
    floatLiteral.Reads ((if negative then ['-'] else []) ++ (layout.text ++ rest)) x rest := by
  have fraction := reads_fractionPart layout ends
  have whole : (run1 isDigit).Reads (layout.text ++ rest) layout.whole (layout.behind ++ rest) := by
    rw [Layout.text, List.append_assoc]
    refine reads_run1 layout.nonempty layout.isWhole fun c here => ?_
    cases same : layout.behind with
    | nil =>
      rw [same] at here
      exact ends.isDigit_eq_false c here
    | cons d others =>
      rw [same] at here
      exact layout.isDigit_head?_behind c (by rw [same]; exact here)
  have signed : ∃ sign, sign.isSome = negative ∧ (Parser.optional (char '-')).Reads
      ((if negative then ['-'] else []) ++ (layout.text ++ rest)) sign (layout.text ++ rest) := by
    split_ifs with minus
    · exact ⟨some '-', minus.symm, (reads_char '-').optional⟩
    · refine ⟨none, (Bool.eq_false_of_not_eq_true minus).symm, Declines.optional (declines_char ?_)⟩
      obtain ⟨first, others, same⟩ := List.exists_cons_of_ne_nil layout.nonempty
      have digit := layout.isWhole first (same ▸ List.mem_cons_self)
      rw [List.nil_append, Layout.text, same]
      rintro ⟨⟩
      exact absurd digit (by decide)
  obtain ⟨sign, same, signed⟩ := signed
  refine Reads.bind signed (Reads.bind whole (Reads.bind fraction ?_))
  rw [same, ← Layout.text, value]
  exact .pure

/-- A finite number begins with a digit or a minus sign. -/
theorem of_mem_head?_float {x : Binary64} (finite : x.IsFinite) {c : Char}
    (here : c ∈ ((x.write .source).toList ++ rest).head?) : isDigit c = true ∨ c = '-' := by
  obtain ⟨layout, same⟩ := exists_layout finite .source
  obtain ⟨first, others, text, digit⟩ := layout.exists_text_eq
  rw [same, text] at here
  split at here
  · cases here
    exact .inr rfl
  · cases here
    exact .inl digit

/-- **A finite number is read off its text**, if the text stands for it. -/
theorem reads_number_float {x : Binary64} (finite : x.IsFinite)
    (again : ofText? (x.write .source) = some x) (ends : EndsName rest) :
    number.Reads ((x.write .source).toList ++ rest) (.float x) rest := by
  obtain ⟨layout, same⟩ := exists_layout finite .source
  rw [← String.ofList_toList (s := x.write .source), same, layout.ofText?_text] at again
  rw [same, List.append_assoc]
  exact Reads.orElse _ (Reads.bind (reads_floatLiteral layout again ends) .pure)

end RuleGraph.Source
