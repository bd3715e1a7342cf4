import RuleGraph.Proofs.Source.Infix
import RuleGraph.Proofs.Source.Spacing

/-! # Precedence

Trees of operators are written with the parentheses that precedence asks for, or with parentheses
around every operation. Either way, and with whatever further parentheses, blanks and comments, they
are read as the trees that they are.

* **`Operation`** — trees of operators over literals, features and calls.
* **`Operation.toExpr`** — the expression of a tree.
* **`Operation.write`** — its text, with the parentheses of a style.
* **`Operation.infix_write`** — the text is one of the infix texts of the expression.
* **`parse_infixed`** — all infix texts are read as the expression.
-/

namespace RuleGraph

open RuleGraph.Parser Source

/-- A tree of operators over literals, features and calls. The names of features are none of the
literal words, and no name is a negation. -/
inductive Operation where
  /-- A literal. -/
  | literal (value : Value) (proper : value.IsLiteral)
  /-- A feature. -/
  | feature (name : String) (proper : IsFeatureName name)
  /-- A call. -/
  | call (function : String) (proper : IsName function) (args : List Operation)
  /-- A comparison. -/
  | equal (left right : Operation)
  /-- A negated comparison. -/
  | unequal (left right : Operation)
  /-- A negation. -/
  | not (operand : Operation)
  /-- A conjunction. -/
  | and (left right : Operation)
  /-- A disjunction. -/
  | or (left right : Operation)

/-- Which operations stand between parentheses. -/
inductive Parentheses where
  /-- Those that bind looser than where they stand. -/
  | required
  /-- All of them. -/
  | everywhere
  deriving DecidableEq

namespace Level

/-- The levels from the tightest on. -/
def rank : Level → Nat
  | primary => 0
  | comparison => 1
  | negation => 2
  | conjunction => 3
  | disjunction => 4

/-- The next looser level, if there is one. -/
def next : Level → Level
  | primary => comparison
  | comparison => negation
  | negation => conjunction
  | conjunction | disjunction => disjunction

/-- From a level on all looser ones come next, one after the other. -/
theorem iterate_next {own place : Level} (le : own.rank ≤ place.rank) :
    next^[place.rank - own.rank] own = place := by
  cases own <;> cases place <;> first | rfl | exact absurd le (by decide)

end Level

namespace Expr

variable {body : Expr} {text : List Char} {own place : Level}

/-- A text of a level is one of the next looser level. -/
theorem Infix.next (isInfix : body.Infix own text) : body.Infix own.next text := by
  cases own with
  | primary => exact .ofPrimary isInfix
  | comparison => exact .ofComparison isInfix
  | negation => exact .ofNegation isInfix
  | conjunction => exact .ofConjunction isInfix
  | disjunction => exact isInfix

/-- A text of a level is one of every looser level. -/
theorem Infix.loosen (isInfix : body.Infix own text) (le : own.rank ≤ place.rank) :
    body.Infix place text := by
  rw [← Level.iterate_next le]
  generalize place.rank - own.rank = steps
  induction steps with
  | zero => exact isInfix
  | succ steps ih =>
    rw [Function.iterate_succ_apply']
    exact ih.next

/-- A text between parentheses is one of every level. -/
theorem Infix.group (isInfix : body.Infix own text) :
    body.Infix place ('(' :: (text ++ [')'])) := by
  have inner : body.Infix .disjunction text := isInfix.loosen (by cases own <;> decide)
  exact (Infix.grouped .nil .nil inner).loosen (Nat.zero_le _)

end Expr

namespace Operation

/-- How tight the outermost operator binds. -/
def level : Operation → Level
  | .literal _ _ | .feature _ _ | .call _ _ _ => .primary
  | .equal _ _ | .unequal _ _ => .comparison
  | .not _ => .negation
  | .and _ _ => .conjunction
  | .or _ _ => .disjunction

mutual

/-- The expression of a tree. -/
def toExpr : Operation → Expr
  | .literal value _ => .const value
  | .feature name _ => .feature name
  | .call function _ args => .call function (toExprs args)
  | .equal left right => .call "eq" [left.toExpr, right.toExpr]
  | .unequal left right => .call "not" [.call "eq" [left.toExpr, right.toExpr]]
  | .not operand => .call "not" [operand.toExpr]
  | .and left right => .call "and" [left.toExpr, right.toExpr]
  | .or left right => .call "or" [left.toExpr, right.toExpr]

/-- The expressions of several trees. -/
def toExprs : List Operation → List Expr
  | [] => []
  | op :: rest => op.toExpr :: toExprs rest

end

end Operation

/-- The text of an operation of a level where one of another level may stand. -/
def Parentheses.enclose (style : Parentheses) (own place : Level) (text : String) : String :=
  match style with
  | .required => if own.rank ≤ place.rank then text else "(" ++ text ++ ")"
  | .everywhere => if own = .primary then text else "(" ++ text ++ ")"

namespace Operation

mutual

/-- The text of a tree, with the parentheses of a style around its operands. -/
def write (style : Parentheses) : Operation → String
  | .literal value _ => value.write
  | .feature name _ => name
  | .call function _ args => function ++ "(" ++ commaSeparated (writeAll style args) ++ ")"
  | .equal left right =>
    style.enclose left.level .primary (write style left) ++ " == "
      ++ style.enclose right.level .primary (write style right)
  | .unequal left right =>
    style.enclose left.level .primary (write style left) ++ " != "
      ++ style.enclose right.level .primary (write style right)
  | .not operand => "NOT " ++ style.enclose operand.level .negation (write style operand)
  | .and left right =>
    style.enclose left.level .conjunction (write style left) ++ " AND "
      ++ style.enclose right.level .negation (write style right)
  | .or left right =>
    style.enclose left.level .disjunction (write style left) ++ " OR "
      ++ style.enclose right.level .conjunction (write style right)

/-- The texts of several trees, each with its parentheses. -/
def writeAll (style : Parentheses) : List Operation → List String
  | [] => []
  | op :: rest => style.enclose op.level .disjunction (write style op) :: writeAll style rest

end

/-- The text of a whole tree. -/
def writeWhole (style : Parentheses) (op : Operation) : String :=
  style.enclose op.level .disjunction (op.write style)

/-- Induction on trees, with a hypothesis for every argument. -/
@[induction_eliminator]
theorem induction {motive : Operation → Prop}
    (literal : ∀ value proper, motive (.literal value proper))
    (feature : ∀ name proper, motive (.feature name proper))
    (call : ∀ function proper args, (∀ arg ∈ args, motive arg) →
      motive (.call function proper args))
    (equal : ∀ left right, motive left → motive right → motive (.equal left right))
    (unequal : ∀ left right, motive left → motive right → motive (.unequal left right))
    (not : ∀ operand, motive operand → motive (.not operand))
    (and : ∀ left right, motive left → motive right → motive (.and left right))
    (or : ∀ left right, motive left → motive right → motive (.or left right))
    (op : Operation) : motive op := by
  refine @Operation.rec motive (fun args => ∀ arg ∈ args, motive arg) literal feature call equal
    unequal not and or ?_ ?_ op
  · intro arg none
    cases none
  · intro head tail onHead onTail arg member
    rcases List.mem_cons.1 member with rfl | later
    · exact onHead
    · exact onTail arg later

variable (style : Parentheses) {place : Level}

/-- The expressions of several trees are those of each. -/
theorem toExprs_eq_map (ops : List Operation) : toExprs ops = ops.map toExpr := by
  induction ops with
  | nil => rfl
  | cons op rest ih => rw [toExprs, List.map_cons, ih]

/-- The texts of several trees are those of each. -/
theorem writeAll_eq_map (ops : List Operation) :
    writeAll style ops = ops.map (writeWhole style) := by
  induction ops with
  | nil => rfl
  | cons op rest ih => rw [writeAll, List.map_cons, ih, writeWhole]

/-- Where a text of a tree may stand, its text with the parentheses of a style may. -/
theorem infix_enclose {op : Operation} {text : String}
    (isInfix : op.toExpr.Infix op.level text.toList) :
    op.toExpr.Infix place (style.enclose op.level place text).toList := by
  have grouped : op.toExpr.Infix place ("(" ++ text ++ ")").toList := by
    rw [String.toList_append, String.toList_append]
    exact isInfix.group
  unfold Parentheses.enclose
  cases style with
  | required =>
    dsimp only
    split
    · rename_i le
      exact isInfix.loosen le
    · exact grouped
  | everywhere =>
    dsimp only
    split
    · rename_i single
      exact isInfix.loosen (by rw [single]; exact Nat.zero_le _)
    · exact grouped

/-- A space ends a name. -/
theorem endsName_space {text : List Char} : EndsName ([' '] ++ text) :=
  isGap_space.endsName_of_ne_nil (List.cons_ne_nil _ _)

/-- **What is written for a tree is one of the infix texts of its expression**, in either style. -/
theorem infix_write (style : Parentheses) (op : Operation) :
    op.toExpr.Infix op.level (op.write style).toList := by
  induction op with
  | literal value proper => exact .literal proper
  | feature name proper => exact .feature proper
  | call function proper args ih =>
    have parts : ∀ part ∈ args.map fun arg => (arg.toExpr, (arg.writeWhole style).toList),
        part.1.Infix .disjunction part.2 := by
      intro part member
      obtain ⟨arg, listed, rfl⟩ := List.mem_map.1 member
      exact infix_enclose style (ih arg listed)
    have separated := separated_commaSeparated .nil (writeAll style args)
    have texts : (writeAll style args).map String.toList =
        (args.map fun arg => (arg.toExpr, (arg.writeWhole style).toList)).map Prod.snd := by
      simp [writeAll_eq_map]
    rw [texts] at separated
    have whole := Expr.Infix.call proper .nil parts separated
    simpa [level, toExpr, write, toExprs_eq_map, Function.comp_def] using whole
  | equal left right onLeft onRight =>
    have whole := Expr.Infix.equal isGap_space isGap_space
      (infix_enclose style onLeft) (infix_enclose style onRight)
    simpa [level, toExpr, write] using whole
  | unequal left right onLeft onRight =>
    have whole := Expr.Infix.unequal isGap_space isGap_space
      (infix_enclose style onLeft) (infix_enclose style onRight)
    simpa [level, toExpr, write] using whole
  | not operand ih =>
    have isWord : IsWord "NOT" "NOT".toList := ⟨by decide, rfl⟩
    have whole := Expr.Infix.not isWord isGap_space endsName_space (infix_enclose style ih)
    simpa [level, toExpr, write] using whole
  | and left right onLeft onRight =>
    have isWord : IsWord "AND" "AND".toList := ⟨by decide, rfl⟩
    have whole := Expr.Infix.and isWord isGap_space (List.cons_ne_nil _ _) isGap_space
      endsName_space (infix_enclose style onLeft) (infix_enclose style onRight)
    simpa [level, toExpr, write] using whole
  | or left right onLeft onRight =>
    have isWord : IsWord "OR" "OR".toList := ⟨by decide, rfl⟩
    have whole := Expr.Infix.or isWord isGap_space (List.cons_ne_nil _ _) isGap_space
      endsName_space (infix_enclose style onLeft) (infix_enclose style onRight)
    simpa [level, toExpr, write] using whole

end Operation

/-- **Operators are read with their precedence.** Every infix text of an expression is read as that
expression where it defines a feature, with whatever parentheses, blanks and comments: equality
binds tighter than `NOT`, that than `AND`, and that than `OR`; the latter two associate to the left.
Among these texts are the ones that are written for a tree of operators, with the parentheses that
are required and with parentheses around every operation; so both are read as the tree. -/
theorem parse_infixed {name : String} (named : IsIdentifier name) :
    (∀ (body : Expr) (text : String), body.Infix .disjunction text.toList →
      parse ("LET " ++ name ++ " := " ++ text ++ ";") = .ok [.feature name body]) ∧
    ∀ (style : Parentheses) (op : Operation),
      parse ("LET " ++ name ++ " := " ++ op.writeWhole style ++ ";") =
        .ok [.feature name op.toExpr] := by
  have reads : ∀ (body : Expr) (text : String), body.Infix .disjunction text.toList →
      parse ("LET " ++ name ++ " := " ++ text ++ ";") = .ok [.feature name body] := by
    intro body text isInfix
    have chars : ("LET " ++ name ++ " := " ++ text ++ ";").toList = "LET".toList ++
        ' ' :: (name.toList ++ ' ' :: (":=".toList ++ ' ' :: (text.toList ++ ';' :: []))) := by
      simp
    have expression := readsAnywhere_of_isInfix isInfix [' '] [';'] isGap_space
      (stops_delimiter .nil (by decide))
    rw [parse, chars]
    exact parseChars_of_reads (by simp) (by rintro c ⟨⟩; decide)
      (Reads.orElse _ (reads_featureDefinition named .nil expression))
  exact ⟨reads, fun style op => reads _ _ (Operation.infix_enclose style (op.infix_write style))⟩

/-- A tree with an operator of every kind. -/
def Operation.sample : Operation :=
  .or (.and (.not (.or (.feature "A" (by decide)) (.feature "B" (by decide))))
      (.unequal (.feature "Country" (by decide)) (.literal (.text "NL") (.text _))))
    (.equal (.call "score" (by decide) [.not (.feature "C" (by decide))])
      (.literal (.int (-1)) (.int _)))

/-- The tree is read with the parentheses that are required and with all of them. -/
theorem parse_infixed_of_sample :
    Operation.sample.toExpr = .call "or" [
      .call "and" [.call "not" [.call "or" [.feature "A", .feature "B"]],
        .call "not" [.call "eq" [.feature "Country", .const (.text "NL")]]],
      .call "eq" [.call "score" [.call "not" [.feature "C"]], .const (.int (-1))]] ∧
    parse "LET Held := NOT (A OR B) AND Country != \"NL\" OR score(NOT C) == -1;" =
      .ok [.feature "Held" Operation.sample.toExpr] ∧
    parse "LET Held := (((NOT (A OR B)) AND (Country != \"NL\")) OR (score((NOT C)) == -1));" =
      .ok [.feature "Held" Operation.sample.toExpr] := by
  have required : "LET Held := NOT (A OR B) AND Country != \"NL\" OR score(NOT C) == -1;" =
      "LET " ++ "Held" ++ " := " ++ Operation.sample.writeWhole .required ++ ";" := by
    decide +kernel
  have everywhere :
      "LET Held := (((NOT (A OR B)) AND (Country != \"NL\")) OR (score((NOT C)) == -1));" =
        "LET " ++ "Held" ++ " := " ++ Operation.sample.writeWhole .everywhere ++ ";" := by
    decide +kernel
  have reads := (@parse_infixed "Held" (by decide)).2
  rw [required, everywhere]
  exact ⟨rfl, reads .required .sample, reads .everywhere .sample⟩

end RuleGraph
