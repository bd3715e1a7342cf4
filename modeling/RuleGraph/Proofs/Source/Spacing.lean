import RuleGraph.Proofs.Source.Programs

/-! # Spacings of expressions

What is written for an expression consists of tokens. However many blanks and comments stand in
front of the tokens, between them and behind them, the text is read as the expression.

* **`Expr.tokens`** — the tokens of what is written for an expression.
* **`Source.Spaced`** — texts made of given tokens, with blanks and comments around each of them.
* **`Source.spaced_write`** — what is written for an expression is made of its tokens.
* **`Source.spaced_of_layout`**, **`Source.Spaced.begins`** — the texts made of the tokens of an
  expression are its texts, with blanks and comments around them.
* **`parse_spaced`** — all such texts are read as the expression.
-/

namespace RuleGraph

open RuleGraph.Parser Source

/-! ## Tokens -/

namespace Expr

mutual

/-- The tokens of what is written for an expression. -/
def tokens : Expr → List String
  | .const value => [value.write]
  | .feature name => [name]
  | .list items => "[" :: (tokensOfRow items ++ ["]"])
  | .call function args => function :: "(" :: (tokensOfRow args ++ [")"])
  | .custom function source => [function, "(", source, ")"]

/-- The tokens of expressions in a row, with commas between them. -/
def tokensOfRow : List Expr → List String
  | [] => []
  | [item] => tokens item
  | item :: next :: rest => tokens item ++ "," :: tokensOfRow (next :: rest)

end

end Expr

namespace Source

/-- Texts made of tokens, with blanks and comments in front of each of them and behind the last. -/
inductive Spaced : List String → List Char → Prop where
  /-- Behind the last token. -/
  | nil {gap : List Char} (isGap : IsGap gap) : Spaced [] gap
  /-- A token and the others. -/
  | cons {token : String} {tokens : List String} {gap text : List Char} (isGap : IsGap gap)
    (others : Spaced tokens text) : Spaced (token :: tokens) (gap ++ (token.toList ++ text))

variable {body : Expr} {bodies : List Expr} {close : String} {more : List String}
  {text rest inner gap : List Char} {texts : List (List Char)}

/-- Blanks and comments may follow on each other. -/
theorem IsGap.append {gap' : List Char} (isGap : IsGap gap) (isGap' : IsGap gap') :
    IsGap (gap ++ gap') := by
  induction isGap with
  | nil => exact isGap'
  | blank isBlank _ ih => exact .blank isBlank ih
  | comment line _ ih =>
    rw [List.cons_append, List.append_assoc, List.cons_append]
    exact .comment line ih

/-- More blanks and comments may stand in front of tokens. -/
theorem Spaced.behind (spaced : Spaced more text) (isGap : IsGap gap) :
    Spaced more (gap ++ text) := by
  cases spaced with
  | nil isGap' => exact .nil (isGap.append isGap')
  | cons isGap' others =>
    rw [← List.append_assoc]
    exact .cons (isGap.append isGap') others

/-! ## Every text is a spacing -/

/-- Texts in a row are made of the tokens of the row if each of them is made of the tokens of its
expression. -/
theorem spaced_of_separated
    (each : List.Forall₂ (fun body text => ∀ more rest, Spaced more rest →
      Spaced (body.tokens ++ more) (text ++ rest)) bodies texts)
    (separated : Expr.Separated texts inner) (others : Spaced more rest) :
    Spaced (Expr.tokensOfRow bodies ++ close :: more) (inner ++ (close.toList ++ rest)) := by
  induction separated generalizing bodies with
  | none isGap =>
    cases each with
    | nil => exact .cons isGap others
  | last before behind =>
    cases each with
    | cons first none =>
      cases none
      rw [List.append_assoc, List.append_assoc]
      exact (first _ _ (.cons behind others)).behind before
  | more before behind _ ih =>
    cases each with
    | cons first later =>
      cases later with
      | cons second later =>
        have row := ih (.cons second later)
        simp only [Expr.tokensOfRow, List.append_assoc, List.cons_append] at row ⊢
        exact (first _ _ (@Spaced.cons "," _ _ _ behind row)).behind before

/-- **A text of an expression is made of its tokens.** -/
theorem spaced_of_layout (layout : body.Layout text) (others : Spaced more rest) :
    Spaced (body.tokens ++ more) (text ++ rest) := by
  induction body generalizing text more rest with
  | const value =>
    cases layout
    exact .cons .nil others
  | feature name =>
    cases layout
    exact .cons .nil others
  | list items ih =>
    cases layout with
    | list each separated =>
      have row := @spaced_of_separated _ "]" _ _ _ _ (forall₂_of_layouts each
        fun item member _ _ layout _ _ => ih item member layout) separated others
      simp only [Expr.tokens, List.cons_append, List.append_assoc, List.nil_append]
      exact @Spaced.cons "[" _ _ _ .nil row
  | call function args ih =>
    cases layout with
    | call isGap each separated =>
      have row := @spaced_of_separated _ ")" _ _ _ _ (forall₂_of_layouts each
        fun arg member _ _ layout _ _ => ih arg member layout) separated others
      simp only [Expr.tokens, List.cons_append, List.append_assoc, List.nil_append]
      exact .cons .nil (@Spaced.cons "(" _ _ _ isGap row)
  | custom => cases layout

/-- What is written for an expression is made of its tokens. -/
theorem spaced_write (writable : body.IsWritable) : Spaced body.tokens body.write.toList := by
  have spaced := spaced_of_layout (Expr.layout_write writable.isReadable) (.nil .nil)
  rwa [List.append_nil, List.append_nil] at spaced

/-! ## Every spacing is a text -/

/-- Texts that have a text of an expression in front, and behind it a text made of further
tokens. -/
inductive Begins (body : Expr) (more : List String) : List Char → Prop where
  /-- The parts of such a text. -/
  | mk {gap text rest : List Char} (isGap : IsGap gap) (layout : body.Layout text)
    (others : Spaced more rest) : Begins body more (gap ++ (text ++ rest))

/-- Texts that have texts of several expressions in front, with commas between them, then a closing
token, and behind it a text made of further tokens. -/
inductive BeginsRow (bodies : List Expr) (close : String) (more : List String) :
    List Char → Prop where
  /-- The parts of such a text. -/
  | mk {texts : List (List Char)} {inner rest : List Char}
    (each : List.Forall₂ Expr.Layout bodies texts) (separated : Expr.Separated texts inner)
    (others : Spaced more rest) : BeginsRow bodies close more (inner ++ (close.toList ++ rest))

/-- A text made of the tokens of a row and more begins with texts in a row, if this is so of each of
the expressions. -/
theorem Spaced.beginsRow (each : ∀ body ∈ bodies, ∀ more text,
      Spaced (body.tokens ++ more) text → Begins body more text)
    (spaced : Spaced (Expr.tokensOfRow bodies ++ close :: more) text) :
    BeginsRow bodies close more text := by
  induction bodies generalizing text with
  | nil =>
    cases spaced with
    | cons isGap others => exact .mk .nil (.none isGap) others
  | cons body bodies ih =>
    obtain ⟨first, later⟩ := List.forall_mem_cons.1 each
    cases bodies with
    | nil =>
      obtain ⟨before, layout, closing⟩ := first _ _ spaced
      cases closing with
      | cons behind others =>
        have row := @BeginsRow.mk _ close _ _ _ _ (.cons layout .nil) (.last before behind) others
        simpa only [List.append_assoc] using row
    | cons next bodies =>
      rw [Expr.tokensOfRow, List.append_assoc, List.cons_append] at spaced
      obtain ⟨before, layout, comma⟩ := first _ _ spaced
      cases comma with
      | cons behind row =>
        obtain ⟨layouts, separated, others⟩ := ih later row
        cases layouts with
        | cons second texts =>
          have row := @BeginsRow.mk _ close _ _ _ _ (.cons layout (.cons second texts))
            (.more before behind separated) others
          have comma : ",".toList = [','] := rfl
          simpa only [comma, List.append_assoc, List.cons_append, List.nil_append] using row

/-- **A text made of the tokens of an expression and more begins with a text of the expression.** -/
theorem Spaced.begins (writable : body.IsWritable) (spaced : Spaced (body.tokens ++ more) text) :
    Begins body more text := by
  induction body generalizing more text with
  | const value =>
    cases spaced with
    | cons isGap others => exact .mk isGap (.const value) others
  | feature name =>
    cases spaced with
    | cons isGap others => exact .mk isGap (.feature name) others
  | list items ih =>
    cases writable with
    | list all =>
      rw [Expr.tokens, List.cons_append, List.append_assoc, List.singleton_append] at spaced
      cases spaced with
      | cons isGap row =>
        obtain ⟨each, separated, others⟩ := row.beginsRow fun item member _ _ =>
          ih item member (all item member)
        have whole := Begins.mk isGap (.list each separated) others
        have brackets : "[".toList = ['['] ∧ "]".toList = [']'] := ⟨rfl, rfl⟩
        simpa only [brackets, List.append_assoc, List.cons_append, List.nil_append] using whole
  | call function args ih =>
    cases writable with
    | call proper all =>
      rw [Expr.tokens, List.cons_append, List.cons_append, List.append_assoc,
        List.singleton_append] at spaced
      cases spaced with
      | cons isGap opening =>
        cases opening with
        | cons isGap' row =>
          obtain ⟨each, separated, others⟩ := row.beginsRow fun arg member _ _ =>
            ih arg member (all arg member)
          have whole := Begins.mk isGap (@Expr.Layout.call function _ _ _ _ isGap' each separated)
            others
          have parens : "(".toList = ['('] ∧ ")".toList = [')'] := ⟨rfl, rfl⟩
          simpa only [parens, List.append_assoc, List.cons_append, List.nil_append] using whole
  | custom => cases writable

/-- The definition of a feature by a spacing of an expression is read. -/
theorem reads_definition_spaced {name : String} (named : IsIdentifier name)
    (writable : body.IsWritable) (spaced : Spaced body.tokens text) :
    definition.Reads ("LET".toList ++ ' ' :: (name.toList ++ ' ' :: (":=".toList ++
      ' ' :: (text ++ ';' :: rest)))) (.feature name body) rest := by
  rw [← List.append_nil body.tokens] at spaced
  cases spaced.begins writable with
  | @mk gap own gap' before layout others =>
    cases others with
    | nil behind =>
      -- The space behind the sign belongs to the gap in front.
      have reads := reads_expression layout writable.isReadable (' ' :: gap) (gap' ++ ';' :: rest)
        (.blank (by decide) before) (stops_delimiter behind (by decide))
      rw [List.cons_append] at reads
      rw [List.append_assoc, List.append_assoc]
      exact Reads.orElse _ (reads_featureDefinition named behind reads)

/-- A definition alone is a program. -/
theorem parseChars_of_reads {item : Definition} (nonempty : text ≠ []) (starts : StartsToken text)
    (reads : definition.Reads text item []) : parseChars text = .ok [item] := by
  have first : (do blanks; definition : Parser Definition).Reads text item [] :=
    Reads.bind (reads_blanks_nil starts) reads
  have last : (do blanks; definition : Parser Definition).Declines [] :=
    (reads_blanks_end .nil).bind_declines declines_definition_nil
  have all : Source.program.Reads text [item] [] :=
    Reads.bind (ReadsAll.more first (List.length_pos_of_ne_nil nonempty) (.none last)).many
      (Reads.bind (reads_blanks_end .nil) .pure)
  rw [parseChars, all]

end Source

/-- **Every spacing of an expression is read as the expression.** Let an expression be built from
literals, from names of features and functions that are no words of the language, and from
negations of one operand. What is written for it is made of its tokens; and any text made of its
tokens, with blanks and comments in front of them, between them and behind them, is read as this
very expression where it defines a feature. -/
theorem parse_spaced {body : Expr} (writable : body.IsWritable) :
    Spaced body.tokens body.write.toList ∧
    ∀ name, IsIdentifier name → ∀ text : String, Spaced body.tokens text.toList →
      parse ("LET " ++ name ++ " := " ++ text ++ ";") = .ok [.feature name body] := by
  refine ⟨spaced_write writable, fun name named text spaced => ?_⟩
  have chars : ("LET " ++ name ++ " := " ++ text ++ ";").toList = "LET".toList ++
      ' ' :: (name.toList ++ ' ' :: (":=".toList ++ ' ' :: (text.toList ++ ';' :: []))) := by
    simp
  rw [parse, chars]
  exact parseChars_of_reads (by simp) (by rintro c ⟨⟩; decide)
    (reads_definition_spaced named writable spaced)

/-- A negated list over two lines, with a comment in the first one, is read. -/
theorem parse_spaced_of_negation :
    parse "LET Blocked := not # all of them\n([-9223372036854775808 ,\tUser.Name] );" =
      .ok [.feature "Blocked"
        (.call "not" [.list [.const (.int Int64.minValue), .feature "User.Name"]])] := by
  have least : (Value.int Int64.minValue).write = "-9223372036854775808" := by decide +kernel
  have writable : (Expr.call "not" [.list [.const (.int Int64.minValue),
      .feature "User.Name"]]).IsWritable := by
    refine .call (.inr ⟨rfl, rfl⟩) (List.forall_mem_singleton.2 (.list ?_))
    exact List.forall_mem_cons.2 ⟨.const (.int _),
      List.forall_mem_singleton.2 (.feature (by decide))⟩
  have comment : IsGap " # all of them\n".toList :=
    .blank (by decide) (@IsGap.comment " all of them".toList [] (by decide) .nil)
  have tab : IsGap ['\t'] := .blank (by decide) .nil
  have spaced : Spaced ["not", "(", "[", "-9223372036854775808", ",", "User.Name", "]", ")"] _ :=
    .cons .nil (.cons comment (.cons .nil (.cons .nil (.cons isGap_space (.cons tab (.cons .nil
      (.cons isGap_space (.nil .nil))))))))
  rw [← least] at spaced
  exact (parse_spaced writable).2 "Blocked" (by decide)
    "not # all of them\n([-9223372036854775808 ,\tUser.Name] )" spaced

end RuleGraph
