import RuleGraph.Proofs.Source.Brackets
import RuleGraph.Proofs.Source.Locality
import RuleGraph.Proofs.Source.Offsets

/-! # Where calls end

A call ends in the same place whether its arguments are read as expressions or as raw text, unless a
comment stands among them: what is read as an expression is balanced.

* **`Source.Uncommented`** — no number sign stands outside of the texts of a text.
* **`Parser.Balances`**, **`Parser.Closes`** — what a parser reads is balanced, or ends with a
  parenthesis that closes none.
* **`Source.balances_expression`**, **`Source.closes_arguments`** — expressions and arguments.
* **`calls_end_alike`** — where the raw text of a call ends, and that its arguments end there.
-/

namespace RuleGraph

namespace Source

open RuleGraph.Parser

variable {front rest : List Char}

/-- No number sign stands outside of the texts of a text. -/
def Uncommented (text : List Char) : Prop :=
  ∀ front rest, text = front ++ '#' :: rest → ¬Outside front

/-- Neither does one behind a front that ends outside of texts. -/
theorem Uncommented.of_append (uncommented : Uncommented (front ++ rest))
    (outside : Outside front) : Uncommented rest := by
  rintro before behind rfl outside'
  exact uncommented (front ++ before) behind (List.append_assoc _ _ _).symm
    (outside.append outside')

/-- Or behind a character that begins no text. -/
theorem Uncommented.of_cons {c : Char} (uncommented : Uncommented (c :: rest)) (other : c ≠ '"') :
    Uncommented rest :=
  of_append (show Uncommented ([c] ++ rest) from uncommented) (.char other .nil)

/-- Characters other than quotes and parentheses are balanced. -/
theorem balanced_of_forall (other : ∀ c ∈ front, c ∉ ['"', '(', ')']) : Balanced front := by
  induction front with
  | nil => exact .nil
  | cons c front ih =>
    obtain ⟨first, others⟩ := List.forall_mem_cons.1 other
    exact .char first (ih others)

/-- A test that quotes and parentheses do not satisfy. -/
def IsUnbracketed (test : Char → Bool) : Prop :=
  ∀ c ∈ ['"', '(', ')'], test c = false

instance (test : Char → Bool) : Decidable (IsUnbracketed test) :=
  List.decidableBAll _ _

/-- What satisfies it is neither. -/
theorem IsUnbracketed.not_mem {test : Char → Bool} (unbracketed : IsUnbracketed test) {c : Char}
    (satisfies : test c = true) : c ∉ ['"', '(', ')'] := by
  intro member
  rw [unbracketed c member] at satisfies
  cases satisfies

end Source

namespace Parser

open Source

variable {α β : Type} {parser other : Parser α} {text rest : List Char} {value : α}

/-- What a parser reads off a text without comments is balanced. -/
def Balances (parser : Parser α) : Prop :=
  ∀ text value rest, Uncommented text → parser.Reads text value rest →
    ∃ front, text = front ++ rest ∧ Balanced front

/-- What a parser reads off a text without comments is balanced up to a closing parenthesis at its
end. -/
def Closes (parser : Parser α) : Prop :=
  ∀ text value rest, Uncommented text → parser.Reads text value rest →
    ∃ front, text = front ++ ')' :: rest ∧ Balanced front

namespace Balances

/-- A known value. -/
theorem pure : Balances (Pure.pure value : Parser α) := by
  intro text value' rest _ reads
  obtain ⟨-, rfl⟩ := reads_pure_iff.1 reads
  exact ⟨[], rfl, .nil⟩

/-- No value at all. -/
theorem fail {failure : Failure} : Balances (fail failure : Parser α) :=
  fun _ _ _ _ reads => by cases reads

/-- Behind what is read first the text goes on without comments. -/
theorem exists_of_bind {next : α → Parser β} {result : β} (first : parser.Balances)
    (uncommented : Uncommented text) (reads : (parser >>= next).Reads text result rest) :
    ∃ front value middle, text = front ++ middle ∧ Balanced front ∧ Uncommented middle ∧
      (next value).Reads middle result rest := by
  obtain ⟨value, middle, reads, later⟩ := reads_bind_iff.1 reads
  obtain ⟨front, rfl, balanced⟩ := first text value middle uncommented reads
  have uncommented' := uncommented.of_append balanced.outside
  exact ⟨front, value, middle, rfl, balanced, uncommented', later⟩

/-- First one thing and then another. -/
theorem bind {next : α → Parser β} (first : parser.Balances)
    (second : ∀ value, (next value).Balances) : Balances (parser >>= next) := by
  intro text result rest uncommented reads
  obtain ⟨front, value, middle, rfl, balanced, uncommented', later⟩ :=
    first.exists_of_bind uncommented reads
  obtain ⟨front', rfl, balanced'⟩ := second value middle result rest uncommented' later
  exact ⟨front ++ front', (List.append_assoc _ _ _).symm, balanced.append balanced'⟩

/-- What ends with a parenthesis that closes none, behind something balanced. -/
theorem bind_closes {next : α → Parser β} (first : parser.Balances)
    (second : ∀ value, (next value).Closes) : Closes (parser >>= next) := by
  intro text result rest uncommented reads
  obtain ⟨front, value, middle, rfl, balanced, uncommented', later⟩ :=
    first.exists_of_bind uncommented reads
  obtain ⟨front', rfl, balanced'⟩ := second value middle result rest uncommented' later
  exact ⟨front ++ front', (List.append_assoc _ _ _).symm, balanced.append balanced'⟩

/-- Alternatives. -/
theorem orElse (first : parser.Balances) (second : other.Balances) :
    (Parser.orElse parser other).Balances := by
  intro text value rest uncommented reads
  rcases reads_orElse_iff.1 reads with reads | ⟨-, reads⟩
  · exact first text value rest uncommented reads
  · exact second text value rest uncommented reads

/-- What may be there. -/
theorem optional (balances : parser.Balances) : (Parser.optional parser).Balances := by
  intro text result rest uncommented reads
  rcases reads_optional_iff.1 reads with ⟨value, -, reads⟩ | ⟨-, rfl, -⟩
  · exact balances text value rest uncommented reads
  · exact ⟨[], rfl, .nil⟩

/-- What may not follow. -/
theorem notFollowedBy : (Parser.notFollowedBy parser).Balances := by
  intro text value rest _ reads
  rw [Reads, Parser.notFollowedBy] at reads
  split at reads <;> cases reads
  exact ⟨[], rfl, .nil⟩

/-- With a description of what was expected. -/
theorem expecting {what : String} (balances : parser.Balances) :
    (Parser.expecting what parser).Balances :=
  fun text value rest uncommented reads =>
    balances text value rest uncommented (reads_expecting_iff.1 reads)

/-- Values in a row. -/
theorem many (balances : parser.Balances) : (Parser.many parser).Balances := by
  intro text values rest uncommented reads
  refine reads.of_many (fun text _ rest => Uncommented text →
    ∃ front, text = front ++ rest ∧ Balanced front) (fun _ _ => ⟨[], rfl, .nil⟩) ?_ uncommented
  intro text middle rest value values first others uncommented
  obtain ⟨front, rfl, balanced⟩ := balances text value middle uncommented first
  obtain ⟨front', rfl, balanced'⟩ := others (uncommented.of_append balanced.outside)
  exact ⟨front ++ front', (List.append_assoc _ _ _).symm, balanced.append balanced'⟩

/-- Values behind separators. -/
theorem further {separator : Parser Unit} (between : separator.Balances)
    (balances : parser.Balances) : (Parser.further separator parser).Balances :=
  many (between.bind fun _ => balances)

/-- Any number of values, separated. -/
theorem separated {separator : Parser Unit} (between : separator.Balances)
    (balances : parser.Balances) : (Parser.separated separator parser).Balances := by
  refine balances.optional.bind fun result => ?_
  cases result with
  | none => exact .pure
  | some first => exact (further between balances).bind fun _ => .pure

/-- A character other than quotes and parentheses. -/
theorem satisfy {test : Char → Bool} (unbracketed : IsUnbracketed test) :
    (Parser.satisfy test).Balances := by
  intro text c rest _ reads
  obtain ⟨rfl, satisfies⟩ := reads_satisfy_iff.1 reads
  exact ⟨[c], rfl, .char (unbracketed.not_mem satisfies) .nil⟩

/-- Characters other than quotes and parentheses. -/
theorem run {test : Char → Bool} (unbracketed : IsUnbracketed test) :
    (Parser.run test).Balances := by
  rintro text front rest _ ⟨⟩
  exact ⟨_, List.takeWhile_append_dropWhile.symm, balanced_of_forall fun c member =>
    unbracketed.not_mem (List.mem_takeWhile_imp member)⟩

/-- At least one. -/
theorem run1 {test : Char → Bool} (unbracketed : IsUnbracketed test) :
    (Parser.run1 test).Balances := by
  intro text front rest _ reads
  obtain ⟨rfl, satisfy⟩ := reads.eq_append_of_run1
  exact ⟨front, rfl, balanced_of_forall fun c member => unbracketed.not_mem (satisfy c member)⟩

/-- Given characters other than quotes and parentheses. -/
theorem literalBy {agree : Char → Char → Bool} {letters : List Char}
    (unbracketed : ∀ letter ∈ letters, IsUnbracketed (agree · letter)) :
    (Parser.literalBy agree letters).Balances := by
  intro text value rest _ reads
  rcases agrees_or_declines_literalBy agree letters text with
    ⟨front, rest', rfl, agrees⟩ | declines
  · cases (reads_literalBy agrees).symm.trans reads
    refine ⟨front, rfl, balanced_of_forall fun c member => ?_⟩
    obtain ⟨index, bound, rfl⟩ := List.mem_iff_getElem.1 member
    have bound' : index < letters.length := agrees.length_eq ▸ bound
    exact (unbracketed _ (List.getElem_mem bound')).not_mem (agrees.get bound bound')
  · exact absurd declines reads.not_declines

/-- Given characters. -/
theorem literal {letters : List Char} (other : ∀ c ∈ letters, c ∉ ['"', '(', ')']) :
    (Parser.literal letters).Balances :=
  literalBy fun letter member _ listed =>
    decide_eq_false fun same => other letter member (same ▸ listed)

end Balances

namespace Closes

/-- The value is made into another one. -/
theorem map {f : α → β} (closes : parser.Closes) :
    Closes (parser >>= fun value => Pure.pure (f value)) := by
  intro text result rest uncommented reads
  obtain ⟨value, middle, reads, later⟩ := reads_bind_iff.1 reads
  obtain ⟨-, rfl⟩ := reads_pure_iff.1 later
  exact closes text value _ uncommented reads

/-- Alternatives. -/
theorem orElse (first : parser.Closes) (second : other.Closes) :
    (Parser.orElse parser other).Closes := by
  intro text value rest uncommented reads
  rcases reads_orElse_iff.1 reads with reads | ⟨-, reads⟩
  · exact first text value rest uncommented reads
  · exact second text value rest uncommented reads

/-- Behind an opening parenthesis all is balanced. -/
theorem opening (closes : parser.Closes) (uncommented : Uncommented ('(' :: text))
    (reads : parser.Reads text value rest) :
    ∃ front, '(' :: text = front ++ rest ∧ Balanced front := by
  obtain ⟨inner, rfl, balanced⟩ :=
    closes text value rest (uncommented.of_cons (by decide)) reads
  exact ⟨'(' :: (inner ++ [')']), by simp, .parentheses balanced .nil⟩

end Closes

end Parser

namespace Source

open RuleGraph.Parser

/-! ## Tokens -/

/-- Blanks, where no comment stands. -/
theorem balances_blanks : blanks.Balances := by
  intro text value rest uncommented reads
  have skips := reads_blanks_iff.1 reads
  clear reads
  induction skips with
  | stop => exact ⟨[], rfl, .nil⟩
  | @blank c text rest isBlank _ ih =>
    have unbracketed : IsUnbracketed Text.isBlank := by decide
    have other : c ∉ ['"', '(', ')'] := unbracketed.not_mem isBlank
    have notQuote : c ≠ '"' := fun same => other (by simp [same])
    obtain ⟨front, rfl, balanced⟩ := ih (uncommented.of_cons notQuote)
    exact ⟨c :: front, rfl, .char other balanced⟩
  | comment => exact absurd .nil (uncommented [] _ rfl)

/-- A name. -/
theorem balances_identifier : identifier.Balances :=
  .bind (.satisfy (by decide)) fun _ => .bind (.run (by decide)) fun _ => .pure

/-- A word of the language. -/
theorem balances_word (letters : String)
    (unbracketed : ∀ letter ∈ letters.toList, IsUnbracketed (·.toLower = letter.toLower)) :
    (do blanks; keyword letters : Parser Unit).Balances :=
  balances_blanks.bind fun _ => .bind (.literalBy unbracketed) fun _ => .notFollowedBy

/-- A token other than a parenthesis. -/
theorem balances_symbol {letters : String} (other : ∀ c ∈ letters.toList, c ∉ ['"', '(', ')']) :
    (symbol letters).Balances :=
  balances_blanks.bind fun _ => .literal other

/-- A closing parenthesis. -/
theorem closes_symbol : (symbol ")").Closes := by
  refine balances_blanks.bind_closes fun _ text value rest _ reads => ?_
  have whole : text = ")".toList ++ rest := reads_literal_iff.1 reads
  exact ⟨[], whole, .nil⟩

/-- A text. -/
theorem balances_textLiteral : textLiteral.Balances := by
  intro text value rest _ reads
  obtain ⟨c, behind, quote, later⟩ := reads_bind_iff.1 reads
  obtain ⟨rfl, isQuote⟩ := reads_satisfy_iff.1 quote
  obtain ⟨length, behind', counted, later⟩ := reads_bind_iff.1 later
  cases counted
  obtain ⟨chars, left, inner, same⟩ := reads_bind_iff.1 later
  obtain ⟨-, rfl⟩ := reads_pure_iff.1 same
  obtain ⟨body, whole, closed⟩ := exists_append_of_closing? (closing?_of_textBody inner)
  rw [of_decide_eq_true isQuote, whole]
  exact ⟨'"' :: (body ++ []), by simp, .text closed .nil⟩

/-- A number. -/
theorem balances_number : number.Balances := by
  have exponent : exponentPart.Balances :=
    .bind (.satisfy (by decide)) fun _ => .bind (.optional (.satisfy (by decide))) fun _ =>
      .bind (.run1 (by decide)) fun _ => .pure
  have fraction : fractionPart.Balances :=
    .orElse (.bind (.satisfy (by decide)) fun _ => .bind (.run1 (by decide)) fun _ =>
      .bind (.optional exponent) fun _ => .pure) exponent
  refine .orElse (.bind ?_ fun _ => .pure) (.bind ?_ fun _ => .pure)
  · refine .bind (.optional (.satisfy (by decide))) fun _ => .bind (.run1 (by decide)) fun _ =>
      .bind fraction fun _ => ?_
    split
    · exact .pure
    · exact .fail
  · refine .bind (.orElse ?_ (.bind (.satisfy (by decide)) fun _ => .pure)) fun value => ?_
    · exact .bind (.optional (.satisfy (by decide))) fun _ => .bind (.satisfy (by decide)) fun _ =>
        .bind (.run (by decide)) fun _ => .pure
    · split
      · exact .pure
      · exact .fail

/-- The raw text of a call. -/
theorem reads_rawArguments_iff {text raw rest : List Char} :
    rawArguments.Reads text raw rest ↔ splitCall? (.code 0) text = some (raw, rest) := by
  rw [Parser.Reads, rawArguments]
  split
  · rename_i found
    simp [found]
  · rename_i found
    simp [found]

/-- It is balanced. -/
theorem closes_rawArguments : rawArguments.Closes := by
  intro text raw rest _ reads
  exact ⟨raw, splitCall?_eq_some_iff.1 (reads_rawArguments_iff.1 reads)⟩

/-! ## Expressions -/

section

variable {expr : Parser Expr} (balances : expr.Balances)
include balances

/-- The arguments of a call. -/
theorem closes_arguments : (arguments expr).Closes :=
  (Balances.separated (balances_symbol (by decide)) balances).bind_closes fun args =>
    closes_symbol.map (f := fun _ => args)

/-- A call, a feature or a literal word. -/
theorem balances_callOrFeature : (callOrFeature expr).Balances := by
  refine balances_identifier.bind fun name text value rest uncommented reads => ?_
  obtain ⟨result, middle, opening, later⟩ := reads_bind_iff.1 reads
  rcases reads_optional_iff.1 opening with ⟨_, rfl, symbol⟩ | ⟨rfl, rfl, -⟩
  · have body : (callBody expr name).Closes :=
      .orElse (closes_arguments balances).map closes_rawArguments.map
    obtain ⟨front, _, start, rfl, balanced, uncommented', parenthesis⟩ :=
      balances_blanks.exists_of_bind uncommented symbol
    obtain rfl : start = '(' :: middle := reads_literal_iff.1 parenthesis
    obtain ⟨front', whole, balanced'⟩ := body.opening uncommented' later
    exact ⟨front ++ front', by rw [List.append_assoc, ← whole], balanced.append balanced'⟩
  · obtain ⟨-, rfl⟩ := reads_pure_iff.1 later
    exact ⟨[], rfl, .nil⟩

/-- An expression between parentheses. -/
theorem balances_parenthesised : (parenthesised expr).Balances := by
  intro text value rest uncommented reads
  obtain ⟨c, behind, opening, later⟩ := reads_bind_iff.1 reads
  obtain ⟨rfl, isOpening⟩ := reads_satisfy_iff.1 opening
  rw [of_decide_eq_true isOpening] at uncommented ⊢
  exact Closes.opening (balances.bind_closes fun inner => closes_symbol.map (f := fun _ => inner))
    uncommented later

/-- A list. -/
theorem balances_listLiteral : (listLiteral expr).Balances :=
  .bind (.satisfy (by decide)) fun _ =>
    .bind (.separated (balances_symbol (by decide)) balances) fun _ =>
      .bind balances_blanks fun _ => .bind (.optional (.satisfy (by decide))) fun _ =>
        .bind (balances_symbol (by decide)) fun _ => .pure

/-- A primary expression. -/
theorem balances_primary : (primary expr).Balances :=
  .bind balances_blanks fun _ => .expecting (.orElse (balances_parenthesised balances)
    (.orElse (.bind balances_textLiteral fun _ => .pure)
      (.orElse (.bind balances_number fun _ => .pure)
        (.orElse (balances_listLiteral balances) (balances_callOrFeature balances)))))

/-- A comparison. -/
theorem balances_equality : (equality expr).Balances := by
  have sign : equalitySign.Balances :=
    .optional (.bind balances_blanks fun _ => .orElse (.bind (.literal (by decide)) fun _ => .pure)
      (.bind (.literal (by decide)) fun _ => .pure))
  refine .bind (balances_primary balances) fun left => .bind sign fun negated => ?_
  cases negated with
  | none => exact .pure
  | some negated => exact .bind (balances_primary balances) fun _ => .pure

/-- Operands of an operator. -/
theorem balances_leftAssociative (word function : String)
    (unbracketed : ∀ letter ∈ word.toList, IsUnbracketed (·.toLower = letter.toLower)) :
    (leftAssociative word function expr).Balances :=
  .bind balances fun _ => .bind (.further (balances_word word unbracketed) balances) fun _ => .pure

/-- **An expression over balanced ones** is balanced. -/
theorem balances_expressionOver : (expressionOver expr).Balances := by
  have negated : (unary expr).Balances :=
    .bind (.many (balances_word "NOT" (by decide))) fun _ =>
      .bind (balances_equality balances) fun _ => .pure
  have both : (leftAssociative "AND" "and" (unary expr)).Balances :=
    balances_leftAssociative negated "AND" "and" (by decide)
  exact .bind balances_blanks fun _ => balances_leftAssociative both "OR" "or" (by decide)

end

/-- **What is read as an expression is balanced.** -/
theorem balances_expression : expression.Balances := by
  have within : ∀ depth, (expressionWithin depth).Balances := by
    intro depth
    induction depth with
    | zero => exact .fail
    | succ depth ih => exact balances_expressionOver ih
  intro text value rest uncommented reads
  rw [Parser.Reads, expression] at reads
  exact within _ text value rest uncommented reads

/-- **The raw text of a call is cut at boundaries between characters**: in front of its closing
parenthesis and behind it. -/
theorem isValid_rawArguments {text raw rest : List Char}
    (reads : rawArguments.Reads text raw rest) :
    (⟨byteLength raw⟩ : String.Pos.Raw).IsValid (String.ofList text) ∧
      (⟨byteLength raw + 1⟩ : String.Pos.Raw).IsValid (String.ofList text) := by
  obtain ⟨rfl, -⟩ := splitCall?_eq_some_iff.1 (reads_rawArguments_iff.1 reads)
  refine ⟨isValid_byteLength raw _, ?_⟩
  have behind := isValid_byteLength (raw ++ [')']) rest
  rwa [List.append_assoc, byteLength_append] at behind

/-- **Where the arguments of a call end, its raw text does.** -/
theorem exists_reads_rawArguments {text rest : List Char} {args : List Expr}
    (uncommented : Uncommented text) (reads : (arguments expression).Reads text args rest) :
    ∃ raw, rawArguments.Reads text raw rest := by
  obtain ⟨raw, rfl, balanced⟩ :=
    closes_arguments balances_expression text args rest uncommented reads
  exact ⟨raw, reads_rawArguments_iff.2 (balanced.splitCall?_eq rest)⟩

end Source

open Source

/-- **Both ways of reading a call agree on where it ends.** Its raw text is read exactly if a
closing parenthesis outside of texts closes no parenthesis, and ends in front of the first of them.
On the way the depth of the search is the number of parentheses that are open, which is zero only
where such a parenthesis would end it. The text is cut between characters. And arguments that are
read off a text without comments end there too. -/
theorem calls_end_alike (text : List Char) :
    ((∃ raw rest, rawArguments.Reads text raw rest) ↔
      ∃ front rest, text = front ++ ')' :: rest ∧ ClosesCall front) ∧
    (∀ raw rest, rawArguments.Reads text raw rest ↔
      text = raw ++ ')' :: rest ∧ ClosesCall raw ∧
        ∀ front later, text = front ++ ')' :: later → ClosesCall front →
          raw.length ≤ front.length) ∧
    (∀ front rest, text = front ++ rest → Outside front →
      (∀ raw later, front = raw ++ ')' :: later → ¬ClosesCall raw) →
        ∃ depth, Opened depth front ∧ (depth = 0 ↔ ClosesCall front) ∧
          splitCall? (.code 0) text = passOver front (splitCall? (.code depth) rest)) ∧
    (∀ raw rest, rawArguments.Reads text raw rest →
      (⟨byteLength raw⟩ : String.Pos.Raw).IsValid (String.ofList text) ∧
        (⟨byteLength raw + 1⟩ : String.Pos.Raw).IsValid (String.ofList text)) ∧
    (Uncommented text → ∀ args rest, (arguments expression).Reads text args rest →
      ∃ raw, rawArguments.Reads text raw rest) := by
  refine ⟨?_, fun raw rest => ?_, ?_, fun raw rest => isValid_rawArguments,
    fun uncommented args rest => exists_reads_rawArguments uncommented⟩
  · simp only [reads_rawArguments_iff]
    exact exists_splitCall?_iff
  · rw [reads_rawArguments_iff]
    exact splitCall?_eq_some_iff_first
  · rintro front rest rfl outside goesOn
    obtain ⟨depth, opened, zero, behind⟩ := exists_depth_of_outside outside goesOn
    exact ⟨depth, opened, zero, behind rest⟩

/-- A call within a call, with a closing parenthesis and a number sign in a text. -/
theorem calls_end_alike_of_nested_call :
    Uncommented "f(a, \"#)\"), b) AND c".toList ∧
      (arguments expression).Reads "f(a, \"#)\"), b) AND c".toList
        [.call "f" [.feature "a", .const (.text "#)")], .feature "b"] " AND c".toList ∧
      rawArguments.Reads "f(a, \"#)\"), b) AND c".toList "f(a, \"#)\"), b".toList " AND c".toList ∧
      ClosesCall "f(a, \"#)\"), b".toList ∧ (∃ depth, Opened depth "f(".toList ∧ depth ≠ 0) ∧
      (⟨byteLength "f(a, \"#)\"), b".toList⟩ : String.Pos.Raw).IsValid
        (String.ofList "f(a, \"#)\"), b) AND c".toList) := by
  obtain ⟨-, first, depths, boundaries, alike⟩ :=
    calls_end_alike "f(a, \"#)\"), b) AND c".toList
  have uncommented : Uncommented "f(a, \"#)\"), b) AND c".toList := by
    intro front rest whole outside
    have cut : "f(a, \"".toList ++ '#' :: ")\"), b) AND c".toList = front ++ '#' :: rest := whole
    obtain ⟨rfl, -, -⟩ := (List.append_cons_inj_of_notMem (by decide) (by decide)).1 cut
    have before : Outside "f(a, ".toList := .of_notMem (by decide)
    exact Outside.not_quote rfl (before.of_append outside)
  have reads : (arguments expression).Reads "f(a, \"#)\"), b) AND c".toList
      [.call "f" [.feature "a", .const (.text "#)")], .feature "b"] " AND c".toList := by
    unfold Parser.Reads
    decide +kernel
  obtain ⟨raw, rawReads⟩ := alike uncommented _ _ reads
  obtain ⟨whole, closes, -⟩ := (first raw _).1 rawReads
  obtain rfl : "f(a, \"#)\"), b".toList = raw := by
    have cut : "f(a, \"#)\"), b".toList ++ ") AND c".toList = raw ++ ") AND c".toList := whole
    exact List.append_cancel_right cut
  obtain ⟨depth, opened, zero, -⟩ := depths "f(".toList "a, \"#)\"), b) AND c".toList rfl
    (.of_notMem (by decide)) fun before later cut => by
      have member : ')' ∈ "f(".toList := cut ▸ by simp
      exact absurd member (by decide)
  have positive : depth ≠ 0 := fun none =>
    (zero.1 none).unmatched "f".toList [] rfl (.of_notMem (by decide)) .nil
  exact ⟨uncommented, reads, rawReads, closes, ⟨depth, opened, positive⟩,
    (boundaries _ _ rawReads).1⟩

end RuleGraph
