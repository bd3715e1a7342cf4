import RuleGraph.Source.Token
import RuleGraph.Program

/-! # The grammar of rule source

Operators bind, from the loosest to the tightest, as `OR`, `AND`, `NOT` and equality; the first two
associate to the left, and equality takes primary expressions. Operators stand for calls of the
functions `or`, `and`, `not` and `eq`. A call whose arguments are no expressions keeps its raw text.

* **`Source.expression`** — expressions.
* **`Source.definition`**, **`Source.program`** — definitions and programs.
* **`parse`** — the program of a source text, or where and why there is none.
-/

namespace RuleGraph

/-- The reason why a text is no program, and where it stops being one. -/
structure ParseError where
  /-- The number of bytes in front of the place where parsing gave up. -/
  offset : Nat
  /-- What was expected there, innermost first. -/
  expected : List String
  deriving DecidableEq

/-- The text of a parse error. -/
def ParseError.message (error : ParseError) : String :=
  let place := "parse error at byte " ++ Numeral.natText error.offset
  if error.expected.isEmpty then place
  else place ++ ": expected " ++ commaSeparated error.expected

namespace Source

open RuleGraph.Parser

/-- A name that is not called: one of the literal words, or a feature. -/
def ofName (name : String) : Expr :=
  if name = "true" then .const (.bool true)
  else if name = "false" then .const (.bool false)
  else if name = "null" then .const .null
  else .feature name

/-- Expressions separated by commas and the closing parenthesis of a call. -/
def arguments (expr : Parser Expr) : Parser (List Expr) := do
  let args ← separated (symbol ",") expr
  symbol ")"
  return args

/-- The rest of a call behind its opening parenthesis. -/
def callBody (expr : Parser Expr) (name : String) : Parser Expr :=
  orElse
    (do return .call name (← arguments expr))
    (do return .custom name (String.ofList (Text.trimChars (← rawArguments))))

/-- A call, a feature or a literal word. -/
def callOrFeature (expr : Parser Expr) : Parser Expr := do
  let name ← identifier
  match ← optional (symbol "(") with
  | none => return ofName name
  | some _ => callBody expr name

/-- An expression between parentheses. -/
def parenthesised (expr : Parser Expr) : Parser Expr := do
  let _ ← char '('
  let inner ← expr
  symbol ")"
  return inner

/-- A list between brackets; a comma may follow its last item. -/
def listLiteral (expr : Parser Expr) : Parser Expr := do
  let _ ← char '['
  let items ← separated (symbol ",") expr
  blanks
  let _ ← optional (char ',')
  symbol "]"
  return .list items

/-- An expression that no operator takes apart. -/
def primary (expr : Parser Expr) : Parser Expr := do
  blanks
  expecting "expression"
    (orElse (parenthesised expr)
      (orElse (do return .const (.text (← textLiteral)))
        (orElse (do return .const (← number))
          (orElse (listLiteral expr) (callOrFeature expr)))))

/-- Whether an equality sign follows, and whether it is negated. -/
def equalitySign : Parser (Option Bool) :=
  optional (do
    blanks
    orElse (do literal ['=', '=']; return false) (do literal ['!', '=']; return true))

/-- A primary expression, or the comparison of two. -/
def equality (expr : Parser Expr) : Parser Expr := do
  let left ← primary expr
  match ← equalitySign with
  | none => return left
  | some negated =>
    let right ← primary expr
    let comparison := Expr.call "eq" [left, right]
    return if negated then .call "not" [comparison] else comparison

/-- The word `NOT` with blanks before it. -/
def negation : Parser Unit := do
  blanks
  keyword "NOT"

/-- An expression under any number of negations. -/
def unary (expr : Parser Expr) : Parser Expr := do
  let negations ← many negation
  let operand ← equality expr
  return negations.foldr (fun _ inner => .call "not" [inner]) operand

/-- Operands of a binary operator, combined from the left. -/
def leftAssociative (word function : String) (operand : Parser Expr) : Parser Expr := do
  let first ← operand
  let rest ← further (do blanks; keyword word) operand
  return rest.foldl (fun combined next => .call function [combined, next]) first

/-- Expressions whose nested expressions are read by `expr`. -/
def expressionOver (expr : Parser Expr) : Parser Expr := do
  blanks
  leftAssociative "OR" "or" (leftAssociative "AND" "and" (unary expr))

/-- Expressions that nest at most `depth` deep; deeper ones are a final failure. -/
def expressionWithin : Nat → Parser Expr
  | 0 => fail ⟨true, []⟩
  | depth + 1 => expressionOver (expressionWithin depth)

/-- An expression. Every level of nesting takes a character, so the length of the text bounds it. -/
def expression : Parser Expr := fun text =>
  expressionWithin (text.length + 1) text

/-- The calls of a rule. -/
def statementCalls : Parser (List Expr) :=
  expecting "statement call" (separated1 (symbol ",") expression)

/-- The semicolon behind a definition. -/
def endOfDefinition : Parser Unit :=
  expecting "`;`" (commit (symbol ";"))

/-- The definition of a feature. -/
def featureDefinition : Parser Definition := do
  keyword "LET"
  let name ← expecting "feature name" (commit (do blanks; identifier))
  expecting "`:=`" (commit (symbol ":="))
  let body ← commit expression
  endOfDefinition
  return .feature name body

/-- Statements under a condition. -/
def conditionalRule : Parser Definition := do
  keyword "WHEN"
  let condition ← commit expression
  expecting "THEN" (commit (do blanks; keyword "THEN"))
  let calls ← commit statementCalls
  endOfDefinition
  return .rule (some condition) calls

/-- Statements without a condition. -/
def unconditionalRule : Parser Definition := do
  keyword "EXECUTE"
  let calls ← commit statementCalls
  endOfDefinition
  return .rule none calls

/-- A definition. -/
def definition : Parser Definition :=
  orElse featureDefinition (orElse conditionalRule unconditionalRule)

/-- Definitions with blanks around them. -/
def program : Parser Program := do
  let definitions ← many (do blanks; definition)
  blanks
  return definitions

/-- The number of bytes of a text in UTF-8. -/
def byteLength (text : List Char) : Nat :=
  text.foldr (fun c length => c.utf8Size + length) 0

/-- The program of a list of characters. -/
def parseChars (text : List Char) : Except ParseError Program :=
  match program text with
  | (.ok definitions, []) => .ok definitions
  | (.ok _, rest) => .error ⟨byteLength text - byteLength rest, []⟩
  | (.error failure, rest) => .error ⟨byteLength text - byteLength rest, failure.expected⟩

end Source

/-- The program of a source text. -/
def parse (source : String) : Except ParseError Program :=
  Source.parseChars source.toList

end RuleGraph
