import Offside.Proofs.Rendering.Scans

/-!
The words of core expressions: the tokens that a written tree consists of, with their texts and the
blanks before them. A written form is the text of its words, and every word is scanned as the token that
it is meant to be, whatever the tree.
-/

namespace Offside.Haskell.Core

set_option autoImplicit false

open Offside.Lexical

structure Word where
  token : Token
  text : List Char
  /-- A blank stands before it. -/
  gap : Bool
  deriving DecidableEq

namespace Word

def fixed (token : Token) (gap : Bool) : Word := ⟨token, token.display.toList, gap⟩

def textOf (words : List Word) : List Char := words.flatMap fun word => blankIf word.gap ++ word.text

@[simp] theorem textOf_nil : textOf [] = [] := rfl

@[simp] theorem textOf_cons (word : Word) (later : List Word) :
    textOf (word :: later) = blankIf word.gap ++ (word.text ++ textOf later) := by
  simp [textOf]

@[simp] theorem textOf_append (first second : List Word) :
    textOf (first ++ second) = textOf first ++ textOf second :=
  List.flatMap_append

end Word

/-! The words of names and trees. The flag says whether a blank stands before the first. -/

def qualifiedWords (token : Token) (text : List Char) :
    List (Spelling isConstructorText) → Bool → List Word
  | [], gap => [⟨token, text, gap⟩]
  | qualifier :: later, gap =>
    ⟨.properIdentifier, qualifier.val, gap⟩ :: .fixed .dot false ::
      qualifiedWords token text later false

def wordToken (text : List Char) : Token :=
  if isVariableText text then .identifier else .properIdentifier

def Identifier.words (name : Identifier) (gap : Bool) : List Word :=
  qualifiedWords (wordToken name.last.val) name.last.val name.qualifiers gap

def Operator.words (operator : Operator) (gap : Bool) : List Word :=
  qualifiedWords (symbolToken operator.symbol.val) operator.symbol.val operator.qualifiers gap

def enclosed (opening closing : Token) (gap : Bool) (content : List Word) : List Word :=
  .fixed opening gap :: (content ++ [.fixed closing false])

def Infix.words (operator : Infix) (gap : Bool) : List Word :=
  match operator with
  | .symbol operator => operator.words gap
  | .quoted name => enclosed .backtick .backtick gap (name.words false)

section Words

variable (spacing : Spacing)

mutual

def Atom.words : Atom → Bool → List Word
  | .name name, gap => name.words gap
  | .literal text, gap => [⟨literalToken text.val, text.val, gap⟩]
  | .operator operator, gap => enclosed .openParen .closeParen gap (operator.words false)
  | .unit, gap => enclosed .openParen .closeParen gap []
  | .tuple first second later, gap =>
    enclosed .openParen .closeParen gap (first.words false ++
      (.fixed .comma false :: (second.words spacing.afterComma ++ Chain.laterWords later)))
  | .emptyList, gap => enclosed .openBracket .closeBracket gap []
  | .list first later, gap =>
    enclosed .openBracket .closeBracket gap (first.words false ++ Chain.laterWords later)
  | .parenthesized inner, gap => enclosed .openParen .closeParen gap (inner.words false)
  | .leftSection operand operator, gap =>
    enclosed .openParen .closeParen gap (operand.words false ++ operator.words true)
  | .rightSection operator _ operand, gap =>
    enclosed .openParen .closeParen gap (operator.words false ++ operand.words true)

def Atom.argumentWords : List Atom → List Word
  | [] => []
  | atom :: later => atom.words true ++ Atom.argumentWords later

def Operand.words : Operand → Bool → List Word
  | .applied function arguments, gap => function.words gap ++ Atom.argumentWords arguments
  | .negated function arguments, gap =>
    .fixed .minus gap :: (function.words spacing.afterSign ++ Atom.argumentWords arguments)

def Chain.words : Chain → Bool → List Word
  | .operand operand, gap => operand.words gap
  | .binary left operator right, gap => left.words gap ++ (operator.words true ++ right.words true)

def Chain.laterWords : List Chain → List Word
  | [] => []
  | chain :: later =>
    .fixed .comma false :: (chain.words spacing.afterComma ++ Chain.laterWords later)

end

end Words

/-! The text of the words is the written form. -/

@[simp] theorem blankIf_false : blankIf false = [] := rfl

section Text

variable (spacing : Spacing)

open Core.Word

theorem textOf_qualifiedWords (token : Token) (text : List Char)
    (qualifiers : List (Spelling isConstructorText)) (gap : Bool) :
    textOf (qualifiedWords token text qualifiers gap) =
      blankIf gap ++ renderQualified qualifiers text := by
  induction qualifiers generalizing gap with
  | nil => simp [qualifiedWords, renderQualified]
  | cons qualifier later induction =>
    simp [qualifiedWords, induction, renderQualified, fixed, Token.display, Token.names]

@[simp] theorem Identifier.textOf_words (name : Identifier) (gap : Bool) :
    textOf (name.words gap) = blankIf gap ++ name.render :=
  textOf_qualifiedWords _ _ _ gap

@[simp] theorem Operator.textOf_words (operator : Operator) (gap : Bool) :
    textOf (operator.words gap) = blankIf gap ++ operator.render :=
  textOf_qualifiedWords _ _ _ gap

@[simp] theorem Infix.textOf_words (operator : Infix) (gap : Bool) :
    textOf (operator.words gap) = blankIf gap ++ operator.render := by
  cases operator with
  | symbol operator => exact operator.textOf_words gap
  | quoted name => simp [Infix.words, enclosed, fixed, Token.display, Token.names, Infix.render]

mutual

theorem Atom.textOf_words (atom : Atom) (gap : Bool) :
    textOf (atom.words spacing gap) = blankIf gap ++ atom.render spacing := by
  cases atom with
  | name name => exact name.textOf_words gap
  | literal text => simp [Atom.words, Atom.render]
  | operator operator =>
    simp [Atom.words, Atom.render, enclosed, fixed, Token.display, Token.names]
  | unit => simp [Atom.words, Atom.render, enclosed, fixed, Token.display, Token.names]
  | tuple first second later =>
    simp [Atom.words, Atom.render, enclosed, fixed, Token.display, Token.names, Spacing.comma,
      first.textOf_words, second.textOf_words, Chain.textOf_laterWords later]
  | emptyList => simp [Atom.words, Atom.render, enclosed, fixed, Token.display, Token.names]
  | list first later =>
    simp [Atom.words, Atom.render, enclosed, fixed, Token.display, Token.names, first.textOf_words,
      Chain.textOf_laterWords later]
  | parenthesized inner =>
    simp [Atom.words, Atom.render, enclosed, fixed, Token.display, Token.names, inner.textOf_words]
  | leftSection operand operator =>
    simp [Atom.words, Atom.render, enclosed, fixed, Token.display, Token.names, blankIf,
      operand.textOf_words]
  | rightSection operator unsigned operand =>
    simp [Atom.words, Atom.render, enclosed, fixed, Token.display, Token.names, blankIf,
      operand.textOf_words]

theorem Atom.textOf_argumentWords (arguments : List Atom) :
    textOf (Atom.argumentWords spacing arguments) = Atom.renderArguments spacing arguments := by
  cases arguments with
  | nil => rfl
  | cons atom later =>
    simp [Atom.argumentWords, Atom.renderArguments, blankIf, atom.textOf_words,
      Atom.textOf_argumentWords later]

theorem Operand.textOf_words (operand : Operand) (gap : Bool) :
    textOf (operand.words spacing gap) = blankIf gap ++ operand.render spacing := by
  cases operand with
  | applied function arguments =>
    simp [Operand.words, Operand.render, function.textOf_words,
      Atom.textOf_argumentWords arguments]
  | negated function arguments =>
    simp [Operand.words, Operand.render, fixed, Token.display, Token.names, Spacing.sign,
      function.textOf_words, Atom.textOf_argumentWords arguments]

theorem Chain.textOf_words (chain : Chain) (gap : Bool) :
    textOf (chain.words spacing gap) = blankIf gap ++ chain.render spacing := by
  cases chain with
  | operand operand =>
    simp [Chain.words, Chain.render, operand.textOf_words]
  | binary left operator right =>
    simp [Chain.words, Chain.render, blankIf, left.textOf_words, right.textOf_words]

theorem Chain.textOf_laterWords (chains : List Chain) :
    textOf (Chain.laterWords spacing chains) = Chain.renderLater spacing chains := by
  cases chains with
  | nil => rfl
  | cons chain later =>
    simp [Chain.laterWords, Chain.renderLater, fixed, Token.display, Token.names, Spacing.comma,
      chain.textOf_words, Chain.textOf_laterWords later]

end

end Text

/-! Every word is scanned as the token that it stands for. -/

open Core.Word

/-- Tokens that layout leaves alone in the middle of a line. -/
def isTermToken : Token → Bool
  | .identifier | .properIdentifier | .operatorSymbol | .constructorSymbol | .colon | .minus | .dot
  | .integer | .float | .string | .character | .openParen | .closeParen | .openBracket
  | .closeBracket | .comma | .backtick | .equals | .underscore | .tilde | .atSign | .arrow
  | .kwCase => true
  | _ => false

def isWordToken (token : Token) : Bool := token != .comment && token != .endOfInput

theorem word_of_term {token : Token} (term : isTermToken token = true) :
    isWordToken token = true := by
  cases token <;> first | rfl | cases term

/-- A token that layout leaves alone in the middle of a line, and that stays on its line where it has
to. -/
structure Word.IsTerm (word : Word) (flat : Bool) : Prop where
  token : isTermToken word.token = true
  inLine : flat = true → '\n' ∉ word.text

def fixedTokens : List Token :=
  [.dot, .minus, .equals, .underscore, .tilde, .atSign, .arrow, .kwCase, .kwOf, .openBrace,
    .closeBrace] ++ separators

theorem fixedTokens_plain : ∀ token ∈ fixedTokens,
    isWordToken token = true ∧ '\n' ∉ token.display.toList := by
  decide

theorem fixed_isTerm {token : Token} (known : token ∈ fixedTokens)
    (term : isTermToken token = true) (gap flat : Bool) : (fixed token gap).IsTerm flat :=
  ⟨term, fun _ => (fixedTokens_plain token known).2⟩

/-- Words that a lexer reads back from their text. The flag says that a proper identifier ends right
before the first of them. -/
inductive Legible : Bool → List Word → Prop
  | nil (proper : Bool) : Legible proper []
  | cons {proper : Bool} {word : Word} {later : List Word}
      (shown : isWordToken word.token = true)
      (starts : leads Text.isBlank (word.text ++ textOf later) = false)
      (takes : Takes (scan (proper && !word.gap) (word.text ++ textOf later)) word.token word.text)
      (rest : Legible (word.token == .properIdentifier) later) : Legible proper (word :: later)

/-- Words that may follow any others. -/
structure Parted (words : List Word) : Prop where
  apart : Apart (textOf words)
  legible : ∀ proper, Legible proper words

theorem parted_separator (token : Token) (known : token ∈ separators) (gap : Bool)
    {later : List Word} (rest : Legible false later) : Parted (.fixed token gap :: later) := by
  have facts : (token == .properIdentifier) = false ∧ isWordToken token = true ∧
      ∀ after, leads Text.isBlank (token.display.toList ++ after) = false ∧
        Apart (token.display.toList ++ after) := by
    simp only [separators, List.mem_cons, List.not_mem_nil, or_false] at known
    rcases known with rfl | rfl | rfl | rfl | rfl | rfl <;>
      exact ⟨rfl, rfl, fun after => ⟨rfl, rfl, rfl⟩⟩
  refine ⟨?_, fun proper => .cons facts.2.1 (facts.2.2 _).1 (takes_separator _ known) ?_⟩
  · cases gap with
    | true => exact ⟨rfl, rfl⟩
    | false =>
      rw [textOf_cons]
      exact (facts.2.2 (textOf later)).2
  · rw [show (fixed token gap).token = token from rfl, facts.1]
    exact rest

theorem legible_enclosed {opening closing : Token} {content rest : List Word}
    (opens : opening ∈ separators) (closes : closing ∈ separators) (parted : Parted rest)
    (inside : Parted (.fixed closing false :: rest) →
      Legible false (content ++ .fixed closing false :: rest)) {proper gap : Bool} :
    Legible proper (enclosed opening closing gap content ++ rest) := by
  have closed := parted_separator closing closes false (parted.legible false)
  have opened := parted_separator opening opens gap (inside closed)
  simpa [enclosed] using opened.legible proper

section Names

variable {text : List Char}

theorem isSymbol_of_startsWord {character : Char} (starts : startsWord character = true) :
    isSymbol character = false := by
  by_contra symbol
  rw [Bool.not_eq_false] at symbol
  obtain ⟨-, -, -, -, -, lower, upper, -⟩ :=
    symbols_apart character (List.contains_iff_mem.1 symbol)
  rw [startsWord, lower, upper] at starts
  cases starts

theorem startsWord_of_isWordText (spelled : isWordText text = true) :
    ∃ first rest, text = first :: rest ∧ startsWord first = true := by
  rcases Bool.or_eq_true _ _ ▸ spelled with word | word
  · simp only [isVariableText, Bool.and_eq_true] at word
    obtain ⟨first, rest, rfl, lower⟩ := exists_cons_of_leads word.1.1.1
    exact ⟨first, rest, rfl, by rw [startsWord, lower, Bool.true_or]⟩
  · rw [isConstructorText, Bool.and_eq_true] at word
    obtain ⟨first, rest, rfl, upper⟩ := exists_cons_of_leads word.1
    exact ⟨first, rest, rfl, by rw [startsWord, upper, Bool.or_true]⟩

theorem word_inLine (spelled : isWordText text = true) : '\n' ∉ text := by
  have word : text.all continuesWord = true := by
    rcases Bool.or_eq_true _ _ ▸ spelled with word | word
    · simp only [isVariableText, Bool.and_eq_true] at word
      exact word.1.1.2
    · rw [isConstructorText, Bool.and_eq_true] at word
      exact word.2
  intro member
  exact absurd (List.all_eq_true.1 word _ member) (by decide)

theorem constructor_inLine (spelled : isConstructorText text = true) : '\n' ∉ text :=
  word_inLine (by rw [isWordText, spelled, Bool.or_true])

theorem wordToken_plain (text : List Char) : isTermToken (wordToken text) = true := by
  rw [wordToken]
  split <;> rfl

theorem operator_isTermToken {token : Token} (operator : token.isOperator = true) :
    isTermToken token = true := by
  cases token <;> first | rfl | cases operator

theorem literal_isTermToken {token : Token} (literal : token.isLiteral = true) :
    isTermToken token = true := by
  cases token <;> first | rfl | cases literal

theorem startsWord_of_constructor (spelled : isConstructorText text = true) :
    ∃ first rest, text = first :: rest ∧ startsWord first = true :=
  startsWord_of_isWordText (by rw [isWordText, spelled, Bool.or_true])

theorem startsLiteral_apart (spelled : isWholeLiteral text = true) :
    ∃ first rest, text = first :: rest ∧ isSymbol first = false ∧ Text.isBlank first = false := by
  simp only [isWholeLiteral, Bool.and_eq_true] at spelled
  obtain ⟨first, rest, rfl, kind⟩ := exists_cons_of_leads spelled.1.1
  refine ⟨first, rest, rfl, ?_⟩
  simp only [startsLiteral, Bool.or_eq_true, beq_iff_eq] at kind
  rcases kind with (digit | rfl) | rfl
  · refine ⟨?_, blank_of_isDigit digit⟩
    by_contra symbol
    rw [Bool.not_eq_false] at symbol
    obtain ⟨-, -, -, -, other, -⟩ := symbols_apart first (List.contains_iff_mem.1 symbol)
    rw [other] at digit
    cases digit
  · exact ⟨rfl, by decide⟩
  · exact ⟨rfl, by decide⟩

structure IsLast (token : Token) (text : List Char) (qualified : Bool) : Prop where
  shown : isWordToken token = true
  starts : ∀ after, leads Text.isBlank (text ++ after) = false
  takes : ∀ after, Apart after → Takes (scan false (text ++ after)) token text
  dotted : qualified = true → ∀ after,
    qualifies (text ++ after) = true ∨ leads isSymbol (text ++ after) = false

theorem isLast_word (spelled : isWordText text = true) (qualified : Bool) :
    IsLast (wordToken text) text qualified := by
  obtain ⟨first, rest, rfl, starts⟩ := startsWord_of_isWordText spelled
  refine ⟨word_of_term (wordToken_plain _), fun _ => blank_of_startsWord starts,
    fun after apart => ?_, fun _ _ => Or.inr (isSymbol_of_startsWord starts)⟩
  rw [wordToken]
  split
  · exact takes_variable false ‹_› apart.word
  · rename_i other
    rw [isWordText, Bool.or_eq_true, or_iff_right other] at spelled
    exact takes_constructor false spelled apart.word

theorem isLast_symbol (spelled : isOperatorText text = true) {qualified : Bool}
    (apart : qualified = true → text ≠ ['.']) : IsLast (symbolToken text) text qualified := by
  obtain ⟨run, symbols⟩ := symbols_of_operator spelled
  have token := word_of_term (operator_isTermToken (symbolToken_isOperator spelled).operator)
  obtain ⟨first, rest, rfl⟩ : ∃ first rest, text = first :: rest := by
    cases text with
    | nil => cases run
    | cons first rest => exact ⟨first, rest, rfl⟩
  rw [List.all_cons, Bool.and_eq_true] at symbols
  refine ⟨token, fun _ => blank_of_symbol symbols.1,
    fun after apart => takes_symbols run apart.symbol, fun isQualified after => Or.inl ?_⟩
  by_cases dot : first = '.'
  · subst dot
    cases rest with
    | nil => exact absurd rfl (apart isQualified)
    | cons second rest =>
      rw [List.all_cons, Bool.and_eq_true] at symbols
      exact symbols.2.1
  · have other : (first == '.') = false := beq_eq_false_iff_ne.2 dot
    simpa [qualifies, leads, other] using symbols.1

theorem legible_qualifiedWords {token : Token} (qualifiers : List (Spelling isConstructorText))
    (last : IsLast token text (!qualifiers.isEmpty)) {rest : List Word} (parted : Parted rest)
    {proper gap : Bool} (free : (proper && !gap) = false) :
    Legible proper (qualifiedWords token text qualifiers gap ++ rest) := by
  induction qualifiers generalizing proper gap with
  | nil =>
    refine .cons last.shown (last.starts _) ?_ (parted.legible _)
    rw [free]
    exact last.takes _ parted.apart
  | cons qualifier later induction =>
    have behind : Legible false (qualifiedWords token text later false ++ rest) :=
      induction ⟨last.shown, last.starts, last.takes, fun _ => last.dotted rfl⟩ rfl
    obtain ⟨first, others, spelled, starts⟩ := startsWord_of_constructor qualifier.property
    have dotted : qualifies (textOf (qualifiedWords token text later false ++ rest)) = true ∨
        leads isSymbol (textOf (qualifiedWords token text later false ++ rest)) = false := by
      cases later with
      | nil => exact last.dotted rfl (textOf rest)
      | cons next later =>
        obtain ⟨letter, letters, spelled, starts⟩ := startsWord_of_constructor next.property
        right
        simpa [qualifiedWords, spelled, leads] using isSymbol_of_startsWord starts
    refine .cons rfl ?_ (takes_constructor _ qualifier.property rfl) (.cons rfl rfl ?_ behind)
    · rw [spelled]
      exact blank_of_startsWord starts
    · exact takes_dot true (dotted.imp_left fun qualifying => ⟨rfl, qualifying⟩)

end Names

theorem Identifier.legible (name : Identifier) {rest : List Word} (parted : Parted rest)
    {proper gap : Bool} (free : (proper && !gap) = false) :
    Legible proper (name.words gap ++ rest) :=
  legible_qualifiedWords _ (isLast_word name.last.property _) parted free

theorem Operator.legible (operator : Operator) {rest : List Word} (parted : Parted rest)
    {proper gap : Bool} (free : (proper && !gap) = false) :
    Legible proper (operator.words gap ++ rest) := by
  refine legible_qualifiedWords _ (isLast_symbol operator.symbol.property fun qualified => ?_)
    parted free
  refine operator.apart.resolve_left fun none => ?_
  rw [none] at qualified
  cases qualified

theorem Infix.legible (operator : Infix) {rest : List Word} (parted : Parted rest)
    {proper gap : Bool} (free : (proper && !gap) = false) :
    Legible proper (operator.words gap ++ rest) := by
  cases operator with
  | symbol operator => exact operator.legible parted free
  | quoted name =>
    exact legible_enclosed (by decide) (by decide) parted fun closed => name.legible closed rfl

theorem parted_of_blank {words rest : List Word} {text : List Char}
    (written : textOf words = blankIf true ++ text)
    (legible : ∀ proper, Legible proper (words ++ rest)) : Parted (words ++ rest) := by
  refine ⟨?_, legible⟩
  rw [textOf_append, written]
  exact ⟨rfl, rfl⟩

theorem legible_literal {text : List Char} (spelled : isWholeLiteral text = true)
    {rest : List Word} (parted : Parted rest) {proper gap : Bool} :
    Legible proper (⟨literalToken text, text, gap⟩ :: rest) := by
  refine .cons (word_of_term (literal_isTermToken (literalToken_isLiteral spelled))) ?_
    (takes_literal _ spelled parted.apart) (parted.legible _)
  obtain ⟨first, others, rfl, -, blank⟩ := startsLiteral_apart spelled
  exact blank

theorem Atom.leads_render (spacing : Spacing) (atom : Atom) (after : List Char) :
    leads isSymbol (atom.render spacing ++ after) = false := by
  cases atom with
  | name name =>
    obtain ⟨qualifiers, last⟩ := name
    cases qualifiers with
    | nil =>
      obtain ⟨first, rest, spelled, starts⟩ := startsWord_of_isWordText last.property
      simpa [Atom.render, Identifier.render, renderQualified, spelled, leads] using
        isSymbol_of_startsWord starts
    | cons qualifier later =>
      obtain ⟨first, rest, spelled, starts⟩ := startsWord_of_constructor qualifier.property
      simpa [Atom.render, Identifier.render, renderQualified, spelled, leads] using
        isSymbol_of_startsWord starts
  | literal text =>
    obtain ⟨first, rest, spelled, other, -⟩ :=
      startsLiteral_apart (whole_of_literal text.property).1
    simpa [Atom.render, spelled, leads] using other
  | _ => rfl

section Legible

variable (spacing : Spacing)

mutual

/-- The words of a tree are read back, whatever stands before and behind them. -/
theorem Atom.legible (atom : Atom) {rest : List Word} (parted : Parted rest)
    {proper gap : Bool} (free : (proper && !gap) = false) :
    Legible proper (atom.words spacing gap ++ rest) := by
  cases atom with
  | name name => exact name.legible parted free
  | literal text => exact legible_literal (whole_of_literal text.property).1 parted
  | operator operator =>
    exact legible_enclosed (by decide) (by decide) parted fun closed => operator.legible closed rfl
  | unit =>
    exact legible_enclosed (by decide) (by decide) parted fun closed => closed.legible false
  | tuple first second later =>
    refine legible_enclosed (by decide) (by decide) parted fun closed => ?_
    have behind := Chain.parted_laterWords later closed
    have content : Legible false (second.words spacing spacing.afterComma ++
        (Chain.laterWords spacing later ++ .fixed .closeParen false :: rest)) :=
      second.legible behind rfl
    have elements := parted_separator .comma (by decide) false content
    rw [List.append_assoc, List.cons_append, List.append_assoc]
    exact first.legible elements rfl
  | emptyList =>
    exact legible_enclosed (by decide) (by decide) parted fun closed => closed.legible false
  | list first later =>
    refine legible_enclosed (by decide) (by decide) parted fun closed => ?_
    have behind := Chain.parted_laterWords later closed
    rw [List.append_assoc]
    exact first.legible behind rfl
  | parenthesized inner =>
    exact legible_enclosed (by decide) (by decide) parted fun closed => inner.legible closed rfl
  | leftSection operand operator =>
    refine legible_enclosed (by decide) (by decide) parted fun closed => ?_
    have behind := parted_of_blank (operator.textOf_words true) fun proper =>
      operator.legible closed (Bool.and_false proper)
    rw [List.append_assoc]
    exact operand.legible behind rfl
  | rightSection operator unsigned operand =>
    refine legible_enclosed (by decide) (by decide) parted fun closed => ?_
    have behind := parted_of_blank (operand.textOf_words spacing true) fun proper =>
      operand.legible closed (Bool.and_false proper)
    rw [List.append_assoc]
    exact operator.legible behind rfl

theorem Atom.parted_argumentWords (arguments : List Atom) {rest : List Word}
    (parted : Parted rest) : Parted (Atom.argumentWords spacing arguments ++ rest) := by
  cases arguments with
  | nil => exact parted
  | cons atom later =>
    have behind := Atom.parted_argumentWords later parted
    rw [Atom.argumentWords, List.append_assoc]
    exact parted_of_blank (atom.textOf_words spacing true) fun proper =>
      atom.legible behind (Bool.and_false proper)

theorem Operand.legible (operand : Operand) {rest : List Word} (parted : Parted rest)
    {proper gap : Bool} (free : (proper && !gap) = false) :
    Legible proper (operand.words spacing gap ++ rest) := by
  cases operand with
  | applied function arguments =>
    have behind := Atom.parted_argumentWords arguments parted
    rw [Operand.words, List.append_assoc]
    exact function.legible behind free
  | negated function arguments =>
    have behind := Atom.parted_argumentWords arguments parted
    have content : Legible false (function.words spacing spacing.afterSign ++
        (Atom.argumentWords spacing arguments ++ rest)) := function.legible behind rfl
    rw [Operand.words, List.cons_append, List.append_assoc]
    refine .cons rfl rfl ?_ content
    rw [show (proper && !(fixed .minus gap).gap) = false from free]
    refine @takes_symbols ['-'] _ (by decide) ?_
    rw [textOf_append, function.textOf_words]
    cases spacing.afterSign with
    | true => rfl
    | false =>
      rw [blankIf_false, List.nil_append]
      exact function.leads_render spacing _

theorem Chain.legible (chain : Chain) {rest : List Word} (parted : Parted rest)
    {proper gap : Bool} (free : (proper && !gap) = false) :
    Legible proper (chain.words spacing gap ++ rest) := by
  cases chain with
  | operand operand => exact operand.legible parted free
  | binary left operator right =>
    have operand := parted_of_blank (right.textOf_words spacing true) fun proper =>
      right.legible parted (Bool.and_false proper)
    have behind := parted_of_blank (operator.textOf_words true) fun proper =>
      operator.legible operand (Bool.and_false proper)
    rw [Chain.words, List.append_assoc, List.append_assoc]
    exact left.legible behind free

theorem Chain.parted_laterWords (chains : List Chain) {rest : List Word} (parted : Parted rest) :
    Parted (Chain.laterWords spacing chains ++ rest) := by
  cases chains with
  | nil => exact parted
  | cons chain later =>
    have behind := Chain.parted_laterWords later parted
    rw [Chain.laterWords, List.cons_append, List.append_assoc]
    exact parted_separator .comma (by decide) false (chain.legible behind rfl)

end

end Legible

/-! The words of trees are terms. -/

/-- Terms, which stay on their lines where they have to. -/
def AreTerms (flat : Bool) (words : List Word) : Prop := ∀ word ∈ words, word.IsTerm flat

section AreTerms

variable {flat : Bool}

@[simp] theorem areTerms_nil : AreTerms flat [] := fun _ member => by cases member

@[simp] theorem areTerms_cons (word : Word) (later : List Word) :
    AreTerms flat (word :: later) ↔ word.IsTerm flat ∧ AreTerms flat later :=
  List.forall_mem_cons

@[simp] theorem areTerms_append (first second : List Word) :
    AreTerms flat (first ++ second) ↔ AreTerms flat first ∧ AreTerms flat second :=
  List.forall_mem_append

theorem separator_isTerm {token : Token} (known : token ∈ separators) (gap : Bool) :
    (fixed token gap).IsTerm flat := by
  have facts : ∀ token ∈ separators, token ∈ fixedTokens ∧ isTermToken token = true := by decide
  exact fixed_isTerm (facts token known).1 (facts token known).2 gap flat

theorem areTerms_enclosed {opening closing : Token} {content : List Word} {gap : Bool}
    (opens : opening ∈ separators) (closes : closing ∈ separators)
    (inside : AreTerms flat content) : AreTerms flat (enclosed opening closing gap content) := by
  simp [enclosed, separator_isTerm opens, separator_isTerm closes, inside]

theorem areTerms_qualifiedWords {token : Token} {text : List Char}
    (term : (⟨token, text, false⟩ : Word).IsTerm flat)
    (qualifiers : List (Spelling isConstructorText)) (gap : Bool) :
    AreTerms flat (qualifiedWords token text qualifiers gap) := by
  induction qualifiers generalizing gap with
  | nil => exact List.forall_mem_singleton.2 ⟨term.token, term.inLine⟩
  | cons qualifier later induction =>
    simp only [qualifiedWords, areTerms_cons]
    exact ⟨⟨rfl, fun _ => constructor_inLine qualifier.property⟩,
      fixed_isTerm (by decide) rfl false flat, induction false⟩

theorem symbol_isTerm {text : List Char} (spelled : isOperatorText text = true) (gap : Bool) :
    (⟨symbolToken text, text, gap⟩ : Word).IsTerm flat where
  token := operator_isTermToken (symbolToken_isOperator spelled).operator
  inLine := fun _ member => by
    cases List.all_eq_true.1 (symbols_of_operator spelled).2 _ member

theorem Identifier.areTerms (name : Identifier) (gap : Bool) : AreTerms flat (name.words gap) :=
  areTerms_qualifiedWords ⟨wordToken_plain _, fun _ => word_inLine name.last.property⟩ _ gap

theorem Operator.areTerms (operator : Operator) (gap : Bool) :
    AreTerms flat (operator.words gap) :=
  areTerms_qualifiedWords (symbol_isTerm operator.symbol.property false) _ gap

theorem Infix.areTerms (operator : Infix) (gap : Bool) : AreTerms flat (operator.words gap) := by
  cases operator with
  | symbol operator => exact operator.areTerms gap
  | quoted name => exact areTerms_enclosed (by decide) (by decide) (name.areTerms false)

end AreTerms

section Terms

variable {flat : Bool} (spacing : Spacing)

mutual

theorem Atom.areTerms (atom : Atom) (gap : Bool) : AreTerms flat (atom.words spacing gap) := by
  cases atom with
  | name name => exact name.areTerms gap
  | literal text =>
    have term := literal_isTermToken (literalToken_isLiteral (whole_of_literal text.property).1)
    exact List.forall_mem_singleton.2 ⟨term, fun _ => (whole_of_literal text.property).2⟩
  | operator operator => exact areTerms_enclosed (by decide) (by decide) (operator.areTerms false)
  | unit => exact areTerms_enclosed (by decide) (by decide) areTerms_nil
  | tuple first second later =>
    refine areTerms_enclosed (by decide) (by decide) ?_
    simp only [areTerms_append, areTerms_cons]
    exact ⟨first.areTerms false, separator_isTerm (by decide) false, second.areTerms _, Chain.areTerms_laterWords later⟩
  | emptyList => exact areTerms_enclosed (by decide) (by decide) areTerms_nil
  | list first later =>
    refine areTerms_enclosed (by decide) (by decide) ?_
    rw [areTerms_append]
    exact ⟨first.areTerms false, Chain.areTerms_laterWords later⟩
  | parenthesized inner => exact areTerms_enclosed (by decide) (by decide) (inner.areTerms false)
  | leftSection operand operator =>
    refine areTerms_enclosed (by decide) (by decide) ?_
    rw [areTerms_append]
    exact ⟨operand.areTerms false, operator.areTerms true⟩
  | rightSection operator unsigned operand =>
    refine areTerms_enclosed (by decide) (by decide) ?_
    rw [areTerms_append]
    exact ⟨operator.areTerms false, operand.areTerms true⟩

theorem Atom.areTerms_argumentWords (arguments : List Atom) :
    AreTerms flat (Atom.argumentWords spacing arguments) := by
  cases arguments with
  | nil => exact areTerms_nil
  | cons atom later =>
    rw [Atom.argumentWords, areTerms_append]
    exact ⟨atom.areTerms true, Atom.areTerms_argumentWords later⟩

theorem Operand.areTerms (operand : Operand) (gap : Bool) :
    AreTerms flat (operand.words spacing gap) := by
  cases operand with
  | applied function arguments =>
    rw [Operand.words, areTerms_append]
    exact ⟨function.areTerms gap, Atom.areTerms_argumentWords arguments⟩
  | negated function arguments =>
    rw [Operand.words, areTerms_cons, areTerms_append]
    exact ⟨fixed_isTerm (by decide) rfl gap flat, function.areTerms _, Atom.areTerms_argumentWords arguments⟩

theorem Chain.areTerms (chain : Chain) (gap : Bool) : AreTerms flat (chain.words spacing gap) := by
  cases chain with
  | operand operand => exact operand.areTerms gap
  | binary left operator right =>
    rw [Chain.words, areTerms_append, areTerms_append]
    exact ⟨left.areTerms gap, operator.areTerms true, right.areTerms true⟩

theorem Chain.areTerms_laterWords (chains : List Chain) :
    AreTerms flat (Chain.laterWords spacing chains) := by
  cases chains with
  | nil => exact areTerms_nil
  | cons chain later =>
    rw [Chain.laterWords, areTerms_cons, areTerms_append]
    exact ⟨separator_isTerm (by decide) false, chain.areTerms _, Chain.areTerms_laterWords later⟩

end

end Terms

end Offside.Haskell.Core
