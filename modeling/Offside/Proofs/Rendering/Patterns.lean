import Offside.Proofs.Derivation.Patterns

/-!
The written form of patterns. Single blanks stand around operators and before arguments, a bracket
touches what it encloses, and whether a blank stands at a comma, a sign, an at sign or a tilde is up to
a choice. Two signs never touch, since they would be one operator.
-/

namespace Offside.Haskell.Core

set_option autoImplicit false

open Offside.Lexical Core.Word

/-! Texts that can be written where they stand in a tree. -/

def Dotted.isSpelledConstructor (name : Dotted) : Bool :=
  name.qualifiers.all isConstructorText && name.token == .properIdentifier &&
    isConstructorText name.text

def isSymbolOf (token : Token) (text : List Char) : Bool :=
  isOperatorText text && symbolToken text == token && token.isConstructorOperator

def Dotted.isSpelledSymbol (name : Dotted) : Bool :=
  decide (name.qualifiers.length ≤ 1) && name.qualifiers.all isConstructorText &&
    isSymbolOf name.token name.text

def PatternOperator.isSpelled : PatternOperator → Bool
  | .symbol name => name.isSpelledSymbol
  | .quoted name => name.isSpelledConstructor

def isLiteralOf (token : Token) (text : List Char) : Bool :=
  isWholeLiteral text && literalToken text == token

mutual

def PatternAtom.isSpelled : PatternAtom → Bool
  | .named text => isVariableText text
  | .aliased text atom => isVariableText text && atom.isSpelled
  | .constructor name => name.isSpelledConstructor
  | .literal token text => isLiteralOf token text
  | .irrefutable atom => atom.isSpelled
  | .wildcard | .unit | .tupleConstructor _ | .emptyList => true
  | .symbol token text => isSymbolOf token text
  | .parenthesized inner => inner.isSpelled
  | .tuple first second later =>
    first.isSpelled && second.isSpelled && PatternForm.areSpelled later
  | .list first later => first.isSpelled && PatternForm.areSpelled later

def PatternAtom.areSpelled : List PatternAtom → Bool
  | [] => true
  | atom :: later => atom.isSpelled && PatternAtom.areSpelled later

def PatternOperand.isSpelled : PatternOperand → Bool
  | .negative token text => (token == .integer || token == .float) && isLiteralOf token text
  | .applied function arguments =>
    (function.takesArguments || arguments.isEmpty) && function.isSpelled &&
      PatternAtom.areSpelled arguments

def PatternForm.isSpelled : PatternForm → Bool
  | .operand operand => operand.isSpelled
  | .binary left operator right => left.isSpelled && operator.isSpelled && right.isSpelled

def PatternForm.areSpelled : List PatternForm → Bool
  | [] => true
  | form :: later => form.isSpelled && PatternForm.areSpelled later

end

/-! The written form. -/

/-- Whether a blank stands where none is needed. -/
structure PatternSpacing extends Spacing where
  beforeAt : Bool
  afterAt : Bool
  afterTilde : Bool

def Dotted.render (name : Dotted) : List Char :=
  (name.qualifiers.flatMap fun qualifier => qualifier ++ ['.']) ++ name.text

def PatternOperator.render : PatternOperator → List Char
  | .symbol name => name.render
  | .quoted name => '\x60' :: (name.render ++ ['\x60'])

section Render

variable (spacing : PatternSpacing)

mutual

def PatternAtom.render : PatternAtom → List Char
  | .named text => text
  | .aliased text atom =>
    text ++ (blankIf spacing.beforeAt ++
      ('@' :: (blankIf (spacing.afterAt || atom.isIrrefutable) ++ atom.render)))
  | .constructor name => name.render
  | .literal _ text => text
  | .wildcard => ['_']
  | .irrefutable atom => '~' :: (blankIf (spacing.afterTilde || atom.isIrrefutable) ++ atom.render)
  | .unit => ['(', ')']
  | .tupleConstructor further => '(' :: (List.replicate (further + 1) ',' ++ [')'])
  | .symbol _ text => '(' :: (text ++ [')'])
  | .parenthesized inner => '(' :: (inner.render ++ [')'])
  | .tuple first second later =>
    '(' :: (first.render ++ (spacing.comma ++ (second.render ++
      (PatternForm.renderLater later ++ [')']))))
  | .emptyList => ['[', ']']
  | .list first later => '[' :: (first.render ++ (PatternForm.renderLater later ++ [']']))

def PatternAtom.renderArguments : List PatternAtom → List Char
  | [] => []
  | atom :: later => ' ' :: (atom.render ++ PatternAtom.renderArguments later)

def PatternOperand.render : PatternOperand → List Char
  | .negative _ text => spacing.sign ++ text
  | .applied function arguments => function.render ++ PatternAtom.renderArguments arguments

def PatternForm.render : PatternForm → List Char
  | .operand operand => operand.render
  | .binary left operator right =>
    left.render ++ (' ' :: (operator.render ++ (' ' :: right.render)))

def PatternForm.renderLater : List PatternForm → List Char
  | [] => []
  | form :: later => spacing.comma ++ (form.render ++ PatternForm.renderLater later)

end

end Render

/-! The words of the written form. The flag says whether a blank stands before the first. -/

def dottedWords (token : Token) (text : List Char) : List (List Char) → Bool → List Word
  | [], gap => [⟨token, text, gap⟩]
  | qualifier :: later, gap =>
    ⟨.properIdentifier, qualifier, gap⟩ :: .fixed .dot false :: dottedWords token text later false

def Dotted.words (name : Dotted) (gap : Bool) : List Word :=
  dottedWords name.token name.text name.qualifiers gap

def PatternOperator.words (operator : PatternOperator) (gap : Bool) : List Word :=
  match operator with
  | .symbol name => name.words gap
  | .quoted name => enclosed .backtick .backtick gap (name.words false)

section Words

variable (spacing : PatternSpacing)

mutual

def PatternAtom.words : PatternAtom → Bool → List Word
  | .named text, gap => [⟨.identifier, text, gap⟩]
  | .aliased text atom, gap =>
    ⟨.identifier, text, gap⟩ :: .fixed .atSign spacing.beforeAt ::
      atom.words (spacing.afterAt || atom.isIrrefutable)
  | .constructor name, gap => name.words gap
  | .literal token text, gap => [⟨token, text, gap⟩]
  | .wildcard, gap => [.fixed .underscore gap]
  | .irrefutable atom, gap =>
    .fixed .tilde gap :: atom.words (spacing.afterTilde || atom.isIrrefutable)
  | .unit, gap => enclosed .openParen .closeParen gap []
  | .tupleConstructor further, gap =>
    enclosed .openParen .closeParen gap (List.replicate (further + 1) (.fixed .comma false))
  | .symbol token text, gap => enclosed .openParen .closeParen gap [⟨token, text, false⟩]
  | .parenthesized inner, gap => enclosed .openParen .closeParen gap (inner.words false)
  | .tuple first second later, gap =>
    enclosed .openParen .closeParen gap (first.words false ++
      (.fixed .comma false :: second.words spacing.afterComma ++ PatternForm.laterWords later))
  | .emptyList, gap => enclosed .openBracket .closeBracket gap []
  | .list first later, gap =>
    enclosed .openBracket .closeBracket gap (first.words false ++ PatternForm.laterWords later)

def PatternAtom.argumentWords : List PatternAtom → List Word
  | [] => []
  | atom :: later => atom.words true ++ PatternAtom.argumentWords later

def PatternOperand.words : PatternOperand → Bool → List Word
  | .negative token text, gap => [.fixed .minus gap, ⟨token, text, spacing.afterSign⟩]
  | .applied function arguments, gap =>
    function.words gap ++ PatternAtom.argumentWords arguments

def PatternForm.words : PatternForm → Bool → List Word
  | .operand operand, gap => operand.words gap
  | .binary left operator right, gap => left.words gap ++ (operator.words true ++ right.words true)

def PatternForm.laterWords : List PatternForm → List Word
  | [] => []
  | form :: later =>
    .fixed .comma false :: form.words spacing.afterComma ++ PatternForm.laterWords later

end

end Words

/-! The text of the words is the written form. -/

theorem textOf_dottedWords (token : Token) (text : List Char) (qualifiers : List (List Char))
    (gap : Bool) :
    textOf (dottedWords token text qualifiers gap) =
      blankIf gap ++ ((qualifiers.flatMap fun qualifier => qualifier ++ ['.']) ++ text) := by
  induction qualifiers generalizing gap with
  | nil => simp [dottedWords]
  | cons qualifier later induction =>
    simp [dottedWords, induction, fixed, Token.display, Token.names]

@[simp] theorem Dotted.textOf_words (name : Dotted) (gap : Bool) :
    textOf (name.words gap) = blankIf gap ++ name.render :=
  textOf_dottedWords _ _ _ gap

@[simp] theorem PatternOperator.textOf_words (operator : PatternOperator) (gap : Bool) :
    textOf (operator.words gap) = blankIf gap ++ operator.render := by
  cases operator with
  | symbol name => exact name.textOf_words gap
  | quoted name =>
    simp [PatternOperator.words, enclosed, fixed, Token.display, Token.names,
      PatternOperator.render]

theorem textOf_commas (count : Nat) :
    textOf (List.replicate count (.fixed .comma false)) = List.replicate count ',' := by
  induction count with
  | zero => rfl
  | succ count induction =>
    rw [List.replicate_succ, textOf_cons, induction]
    rfl

section Text

variable (spacing : PatternSpacing)

mutual

theorem PatternAtom.textOf_words (atom : PatternAtom) (gap : Bool) :
    textOf (atom.words spacing gap) = blankIf gap ++ atom.render spacing := by
  cases atom with
  | aliased text atom =>
    simp [PatternAtom.words, PatternAtom.render, fixed, Token.display, Token.names,
      atom.textOf_words]
  | constructor name => exact name.textOf_words gap
  | irrefutable atom =>
    simp [PatternAtom.words, PatternAtom.render, fixed, Token.display, Token.names,
      atom.textOf_words]
  | tupleConstructor further =>
    rw [PatternAtom.words, enclosed, textOf_cons, textOf_append, textOf_commas]
    simp [PatternAtom.render, fixed, Token.display, Token.names]
  | parenthesized inner =>
    simp [PatternAtom.words, PatternAtom.render, enclosed, fixed, Token.display, Token.names,
      inner.textOf_words]
  | tuple first second later =>
    simp [PatternAtom.words, PatternAtom.render, enclosed, fixed, Token.display, Token.names,
      Spacing.comma, first.textOf_words, second.textOf_words, PatternForm.textOf_laterWords later]
  | list first later =>
    simp [PatternAtom.words, PatternAtom.render, enclosed, fixed, Token.display, Token.names,
      first.textOf_words, PatternForm.textOf_laterWords later]
  | _ => simp [PatternAtom.words, PatternAtom.render, enclosed, fixed, Token.display, Token.names]

theorem PatternAtom.textOf_argumentWords (arguments : List PatternAtom) :
    textOf (PatternAtom.argumentWords spacing arguments) =
      PatternAtom.renderArguments spacing arguments := by
  cases arguments with
  | nil => rfl
  | cons atom later =>
    simp [PatternAtom.argumentWords, PatternAtom.renderArguments, blankIf, atom.textOf_words,
      PatternAtom.textOf_argumentWords later]

theorem PatternOperand.textOf_words (operand : PatternOperand) (gap : Bool) :
    textOf (operand.words spacing gap) = blankIf gap ++ operand.render spacing := by
  cases operand with
  | negative token text =>
    simp [PatternOperand.words, PatternOperand.render, fixed, Token.display, Token.names,
      Spacing.sign]
  | applied function arguments =>
    simp [PatternOperand.words, PatternOperand.render, function.textOf_words,
      PatternAtom.textOf_argumentWords arguments]

theorem PatternForm.textOf_words (form : PatternForm) (gap : Bool) :
    textOf (form.words spacing gap) = blankIf gap ++ form.render spacing := by
  cases form with
  | operand operand => simp [PatternForm.words, PatternForm.render, operand.textOf_words]
  | binary left operator right =>
    simp [PatternForm.words, PatternForm.render, blankIf, left.textOf_words, right.textOf_words]

theorem PatternForm.textOf_laterWords (forms : List PatternForm) :
    textOf (PatternForm.laterWords spacing forms) = PatternForm.renderLater spacing forms := by
  cases forms with
  | nil => rfl
  | cons form later =>
    simp [PatternForm.laterWords, PatternForm.renderLater, fixed, Token.display, Token.names,
      Spacing.comma, form.textOf_words, PatternForm.textOf_laterWords later]

end

end Text

/-! The words derive the tree. -/

theorem encloses_enclosed {opening closing : Token} {inside : List Word → Prop}
    {content : List Word} (held : inside content) (gap : Bool) :
    Encloses opening closing inside (enclosed opening closing gap content) :=
  ⟨_, _, rfl, rfl, content, _, rfl, held, _, [], rfl, rfl, rfl⟩

theorem isDotted_dottedWords (token : Token) (text : List Char) (qualifiers : List (List Char))
    (gap : Bool) : IsDotted token text gap qualifiers (dottedWords token text qualifiers gap) := by
  induction qualifiers generalizing gap with
  | nil => exact .last gap
  | cons qualifier later induction => exact .qualified gap qualifier _ (induction false)

theorem Dotted.derives_words (name : Dotted) (gap : Bool) : name.Derives (name.words gap) :=
  ⟨gap, isDotted_dottedWords name.token name.text name.qualifiers gap⟩

theorem Dotted.isConstructor_of_spelled {name : Dotted} (spelled : name.isSpelledConstructor = true) :
    name.isConstructor = true := by
  simp only [isSpelledConstructor, Bool.and_eq_true] at spelled
  rw [isConstructor, spelled.1.2, Bool.true_or]

theorem PatternOperator.derives_words {operator : PatternOperator}
    (spelled : operator.isSpelled = true) (gap : Bool) : operator.Derives (operator.words gap) := by
  cases operator with
  | symbol name =>
    simp only [PatternOperator.isSpelled, Dotted.isSpelledSymbol, isSymbolOf, Bool.and_eq_true]
      at spelled
    refine ⟨?_, name.derives_words gap⟩
    rw [Dotted.isConstructorSymbol, spelled.2.2, spelled.1.1]
    rfl
  | quoted name =>
    exact ⟨name.isConstructor_of_spelled spelled, encloses_enclosed (name.derives_words false) gap⟩

theorem isLiteral_of_spelled {token : Token} {text : List Char}
    (spelled : isLiteralOf token text = true) (gap : Bool) :
    IsLiteral token text [⟨token, text, gap⟩] := by
  rw [isLiteralOf, Bool.and_eq_true, beq_iff_eq] at spelled
  refine ⟨?_, gap, rfl⟩
  have literal := literalToken_isLiteral spelled.1
  rw [spelled.2] at literal
  cases token <;> first | rfl | cases literal

section Derives

variable (spacing : PatternSpacing)

mutual

theorem PatternAtom.derives_words (atom : PatternAtom) (spelled : atom.isSpelled = true)
    (gap : Bool) : atom.Derives (atom.words spacing gap) := by
  cases atom with
  | named text => exact ⟨gap, rfl⟩
  | aliased text atom =>
    rw [PatternAtom.isSpelled, Bool.and_eq_true] at spelled
    exact ⟨gap, _, rfl, _, _, rfl, rfl, atom.derives_words spelled.2 _⟩
  | constructor name => exact ⟨name.isConstructor_of_spelled spelled, name.derives_words gap⟩
  | literal token text => exact isLiteral_of_spelled spelled gap
  | wildcard => exact ⟨_, _, rfl, rfl, rfl⟩
  | irrefutable atom => exact ⟨_, _, rfl, rfl, atom.derives_words spelled _⟩
  | unit => exact @encloses_enclosed _ _ (· = []) _ rfl gap
  | tupleConstructor further =>
    have commas : (List.replicate (further + 1) (fixed .comma false)).map Word.token =
        List.replicate (further + 1) .comma := List.map_replicate
    exact @encloses_enclosed _ _ (fun content => content.map Word.token = _) _ commas gap
  | symbol token text =>
    simp only [PatternAtom.isSpelled, isSymbolOf, Bool.and_eq_true] at spelled
    exact ⟨spelled.2, encloses_enclosed ⟨false, rfl⟩ gap⟩
  | parenthesized inner => exact encloses_enclosed (inner.derives_words spelled false) gap
  | tuple first second later =>
    simp only [PatternAtom.isSpelled, Bool.and_eq_true] at spelled
    refine encloses_enclosed ⟨_, _, rfl, first.derives_words spelled.1.1 false, ?_⟩ gap
    exact ⟨_, _, rfl, ⟨_, _, rfl, rfl, second.derives_words spelled.1.2 _⟩,
      PatternForm.derives_laterWords later spelled.2⟩
  | emptyList => exact @encloses_enclosed _ _ (· = []) _ rfl gap
  | list first later =>
    simp only [PatternAtom.isSpelled, Bool.and_eq_true] at spelled
    exact encloses_enclosed ⟨_, _, rfl, first.derives_words spelled.1 false,
      PatternForm.derives_laterWords later spelled.2⟩ gap

theorem PatternAtom.derives_argumentWords (arguments : List PatternAtom)
    (spelled : PatternAtom.areSpelled arguments = true) :
    PatternAtom.ListDerives arguments (PatternAtom.argumentWords spacing arguments) := by
  cases arguments with
  | nil => rfl
  | cons atom later =>
    rw [PatternAtom.areSpelled, Bool.and_eq_true] at spelled
    exact ⟨_, _, rfl, atom.derives_words spelled.1 true,
      PatternAtom.derives_argumentWords later spelled.2⟩

theorem PatternOperand.derives_words (operand : PatternOperand) (spelled : operand.isSpelled = true)
    (gap : Bool) : operand.Derives (operand.words spacing gap) := by
  cases operand with
  | negative token text =>
    simp only [PatternOperand.isSpelled, Bool.and_eq_true, Bool.or_eq_true, beq_iff_eq] at spelled
    exact ⟨spelled.1, _, _, rfl, rfl, isLiteral_of_spelled spelled.2 _⟩
  | applied function arguments =>
    simp only [PatternOperand.isSpelled, Bool.and_eq_true, Bool.or_eq_true, List.isEmpty_iff]
      at spelled
    exact ⟨spelled.1.1, _, _, rfl, function.derives_words spelled.1.2 gap,
      PatternAtom.derives_argumentWords arguments spelled.2⟩

theorem PatternForm.derives_words (form : PatternForm) (spelled : form.isSpelled = true)
    (gap : Bool) : form.Derives (form.words spacing gap) := by
  cases form with
  | operand operand => exact operand.derives_words spelled gap
  | binary left operator right =>
    simp only [PatternForm.isSpelled, Bool.and_eq_true] at spelled
    exact ⟨_, _, rfl, left.derives_words spelled.1.1 gap, _, _, rfl,
      PatternOperator.derives_words spelled.1.2 true, right.derives_words spelled.2 true⟩

theorem PatternForm.derives_laterWords (forms : List PatternForm)
    (spelled : PatternForm.areSpelled forms = true) :
    PatternForm.LaterDerive forms (PatternForm.laterWords spacing forms) := by
  cases forms with
  | nil => rfl
  | cons form later =>
    rw [PatternForm.areSpelled, Bool.and_eq_true] at spelled
    exact ⟨_, _, rfl, ⟨_, _, rfl, rfl, form.derives_words spelled.1 _⟩,
      PatternForm.derives_laterWords later spelled.2⟩

end

end Derives

/-! The words are terms, though a literal may break its line. -/

/-- Names that can be written are words like those of expressions. -/
theorem Dotted.words_eq_qualifiedWords {name : Dotted}
    (spelled : name.qualifiers.all isConstructorText = true) :
    ∃ qualifiers : List (Spelling isConstructorText), qualifiers.map Subtype.val = name.qualifiers ∧
      ∀ gap, name.words gap = qualifiedWords name.token name.text qualifiers gap := by
  obtain ⟨qualifiers, token, text⟩ := name
  induction qualifiers with
  | nil => exact ⟨[], rfl, fun _ => rfl⟩
  | cons qualifier later induction =>
    rw [List.all_cons, Bool.and_eq_true] at spelled
    obtain ⟨qualifiers, rfl, same⟩ := induction spelled.2
    refine ⟨⟨qualifier, spelled.1⟩ :: qualifiers, rfl, fun gap => ?_⟩
    rw [qualifiedWords, ← same]
    rfl

theorem symbolOf_of_spelled {token : Token} {text : List Char}
    (spelled : isSymbolOf token text = true) :
    isOperatorText text = true ∧ symbolToken text = token ∧ token.isConstructorOperator = true := by
  simpa only [isSymbolOf, Bool.and_eq_true, beq_iff_eq, and_assoc] using spelled

theorem wordToken_of_constructor {text : List Char} (spelled : isConstructorText text = true) :
    wordToken text = .properIdentifier := by
  rw [isConstructorText, Bool.and_eq_true] at spelled
  obtain ⟨first, rest, rfl, upper⟩ := exists_cons_of_leads spelled.1
  have other : isVariableText (first :: rest) = false := by
    simp only [isVariableText, leads, List.head?_cons, Option.any_some, lower_of_upper upper,
      Bool.false_and]
  rw [wordToken, other]
  rfl

theorem Dotted.isLast_of_spelled {name : Dotted}
    (spelled : name.isSpelledConstructor = true ∨ name.isSpelledSymbol = true) (qualified : Bool) :
    name.qualifiers.all isConstructorText = true ∧ IsLast name.token name.text qualified ∧
      isTermToken name.token = true := by
  obtain ⟨qualifiers, token, text⟩ := name
  rcases spelled with word | symbol
  · simp only [isSpelledConstructor, Bool.and_eq_true, beq_iff_eq] at word
    obtain ⟨⟨qualifying, rfl⟩, constructor⟩ := word
    have last := isLast_word (by rw [isWordText, constructor, Bool.or_true]) qualified
    rw [wordToken_of_constructor constructor] at last
    exact ⟨qualifying, last, rfl⟩
  · simp only [isSpelledSymbol, Bool.and_eq_true] at symbol
    obtain ⟨spelled, rfl, constructor⟩ := symbolOf_of_spelled symbol.2
    refine ⟨symbol.1.2, isLast_symbol spelled fun _ dot => ?_,
      operator_isTermToken (symbolToken_isOperator spelled).operator⟩
    subst dot
    cases constructor

theorem Dotted.legible {name : Dotted}
    (spelled : name.isSpelledConstructor = true ∨ name.isSpelledSymbol = true) (gap : Bool) :
    AreTerms false (name.words gap) ∧
      ∀ {rest : List Word}, Parted rest → ∀ {proper : Bool}, (proper && !gap) = false →
        Legible proper (name.words gap ++ rest) := by
  have facts := fun qualified => name.isLast_of_spelled spelled qualified
  obtain ⟨qualifiers, -, same⟩ := Dotted.words_eq_qualifiedWords (facts true).1
  rw [same]
  exact ⟨areTerms_qualifiedWords ⟨(facts true).2.2, fun flat => by cases flat⟩ qualifiers gap,
    fun parted _ free => legible_qualifiedWords qualifiers (facts _).2.1 parted free⟩

theorem PatternOperator.legible {operator : PatternOperator} (spelled : operator.isSpelled = true)
    (gap : Bool) :
    AreTerms false (operator.words gap) ∧
      ∀ {rest : List Word}, Parted rest → ∀ {proper : Bool}, (proper && !gap) = false →
        Legible proper (operator.words gap ++ rest) := by
  cases operator with
  | symbol name => exact name.legible (Or.inr spelled) gap
  | quoted name =>
    obtain ⟨terms, legible⟩ := name.legible (Or.inl spelled) false
    exact ⟨areTerms_enclosed (by decide) (by decide) terms, fun parted _ _ =>
      legible_enclosed (by decide) (by decide) parted fun closed => legible closed rfl⟩

theorem literalOf_isTerm {token : Token} {text : List Char} (spelled : isLiteralOf token text = true)
    (gap : Bool) : (⟨token, text, gap⟩ : Word).IsTerm false where
  token := by
    rw [isLiteralOf, Bool.and_eq_true, beq_iff_eq] at spelled
    rw [← spelled.2]
    exact literal_isTermToken (literalToken_isLiteral spelled.1)
  inLine := fun flat => by cases flat

theorem legible_literalOf {token : Token} {text : List Char}
    (spelled : isLiteralOf token text = true) {rest : List Word} (parted : Parted rest)
    {proper gap : Bool} : Legible proper (⟨token, text, gap⟩ :: rest) := by
  rw [isLiteralOf, Bool.and_eq_true, beq_iff_eq] at spelled
  obtain ⟨spelled, rfl⟩ := spelled
  exact legible_literal spelled parted

theorem areTerms_commas (count : Nat) :
    AreTerms false (List.replicate count (fixed .comma false)) := by
  intro word member
  rw [List.eq_of_mem_replicate member]
  exact separator_isTerm (by decide) false

theorem parted_commas (count : Nat) {rest : List Word} (parted : Parted rest) :
    Parted (List.replicate count (fixed .comma false) ++ rest) := by
  induction count with
  | zero => exact parted
  | succ count induction => exact parted_separator .comma (by decide) false (induction.legible false)

section Terms

variable (spacing : PatternSpacing)

mutual

theorem PatternAtom.areTerms (atom : PatternAtom) (spelled : atom.isSpelled = true) (gap : Bool) :
    AreTerms false (atom.words spacing gap) := by
  cases atom with
  | named text => exact List.forall_mem_singleton.2 ⟨rfl, fun flat => by cases flat⟩
  | aliased text atom =>
    rw [PatternAtom.isSpelled, Bool.and_eq_true] at spelled
    rw [PatternAtom.words, areTerms_cons, areTerms_cons]
    exact ⟨⟨rfl, fun flat => by cases flat⟩, fixed_isTerm (by decide) rfl _ false,
      atom.areTerms spelled.2 _⟩
  | constructor name => exact (name.legible (Or.inl spelled) gap).1
  | literal token text => exact List.forall_mem_singleton.2 (literalOf_isTerm spelled gap)
  | wildcard => exact List.forall_mem_singleton.2 (fixed_isTerm (by decide) rfl gap false)
  | irrefutable atom =>
    rw [PatternAtom.words, areTerms_cons]
    exact ⟨fixed_isTerm (by decide) rfl gap false, atom.areTerms spelled _⟩
  | unit => exact areTerms_enclosed (by decide) (by decide) areTerms_nil
  | tupleConstructor further => exact areTerms_enclosed (by decide) (by decide) (areTerms_commas _)
  | symbol token text =>
    obtain ⟨operator, rfl, -⟩ := symbolOf_of_spelled spelled
    exact areTerms_enclosed (by decide) (by decide)
      (List.forall_mem_singleton.2 (symbol_isTerm operator false))
  | parenthesized inner =>
    exact areTerms_enclosed (by decide) (by decide) (inner.areTerms spelled false)
  | tuple first second later =>
    simp only [PatternAtom.isSpelled, Bool.and_eq_true] at spelled
    refine areTerms_enclosed (by decide) (by decide) ?_
    simp only [areTerms_append, areTerms_cons]
    exact ⟨first.areTerms spelled.1.1 false, ⟨separator_isTerm (by decide) false,
      second.areTerms spelled.1.2 _⟩, PatternForm.areTerms_laterWords later spelled.2⟩
  | emptyList => exact areTerms_enclosed (by decide) (by decide) areTerms_nil
  | list first later =>
    simp only [PatternAtom.isSpelled, Bool.and_eq_true] at spelled
    refine areTerms_enclosed (by decide) (by decide) ?_
    rw [areTerms_append]
    exact ⟨first.areTerms spelled.1 false, PatternForm.areTerms_laterWords later spelled.2⟩

theorem PatternAtom.areTerms_argumentWords (arguments : List PatternAtom)
    (spelled : PatternAtom.areSpelled arguments = true) :
    AreTerms false (PatternAtom.argumentWords spacing arguments) := by
  cases arguments with
  | nil => exact areTerms_nil
  | cons atom later =>
    rw [PatternAtom.areSpelled, Bool.and_eq_true] at spelled
    rw [PatternAtom.argumentWords, areTerms_append]
    exact ⟨atom.areTerms spelled.1 true, PatternAtom.areTerms_argumentWords later spelled.2⟩

theorem PatternOperand.areTerms (operand : PatternOperand) (spelled : operand.isSpelled = true)
    (gap : Bool) : AreTerms false (operand.words spacing gap) := by
  cases operand with
  | negative token text =>
    rw [PatternOperand.isSpelled, Bool.and_eq_true] at spelled
    rw [PatternOperand.words, areTerms_cons]
    exact ⟨fixed_isTerm (by decide) rfl gap false,
      List.forall_mem_singleton.2 (literalOf_isTerm spelled.2 _)⟩
  | applied function arguments =>
    simp only [PatternOperand.isSpelled, Bool.and_eq_true] at spelled
    rw [PatternOperand.words, areTerms_append]
    exact ⟨function.areTerms spelled.1.2 gap,
      PatternAtom.areTerms_argumentWords arguments spelled.2⟩

theorem PatternForm.areTerms (form : PatternForm) (spelled : form.isSpelled = true) (gap : Bool) :
    AreTerms false (form.words spacing gap) := by
  cases form with
  | operand operand => exact operand.areTerms spelled gap
  | binary left operator right =>
    simp only [PatternForm.isSpelled, Bool.and_eq_true] at spelled
    rw [PatternForm.words, areTerms_append, areTerms_append]
    exact ⟨left.areTerms spelled.1.1 gap, (PatternOperator.legible spelled.1.2 true).1,
      right.areTerms spelled.2 true⟩

theorem PatternForm.areTerms_laterWords (forms : List PatternForm)
    (spelled : PatternForm.areSpelled forms = true) :
    AreTerms false (PatternForm.laterWords spacing forms) := by
  cases forms with
  | nil => exact areTerms_nil
  | cons form later =>
    rw [PatternForm.areSpelled, Bool.and_eq_true] at spelled
    simp only [PatternForm.laterWords, areTerms_append, areTerms_cons]
    exact ⟨⟨separator_isTerm (by decide) false, form.areTerms spelled.1 _⟩,
      PatternForm.areTerms_laterWords later spelled.2⟩

end

end Terms

/-! The words are read back. -/

theorem isLast_variable {text : List Char} (spelled : isVariableText text = true)
    (qualified : Bool) : IsLast .identifier text qualified := by
  have last := isLast_word (by rw [isWordText, spelled, Bool.true_or]) qualified
  rwa [wordToken, if_pos spelled] at last

/-- Only an atom behind a tilde starts with a symbol. -/
theorem PatternAtom.leads_render (spacing : PatternSpacing) (atom : PatternAtom)
    (spelled : atom.isSpelled = true) (other : atom.isIrrefutable = false) (after : List Char) :
    leads isSymbol (atom.render spacing ++ after) = false := by
  have word : ∀ {text after : List Char}, isWordText text = true →
      leads isSymbol (text ++ after) = false := by
    intro text after spelled
    obtain ⟨first, rest, rfl, starts⟩ := startsWord_of_isWordText spelled
    exact isSymbol_of_startsWord starts
  have named : ∀ {text after : List Char}, isVariableText text = true →
      leads isSymbol (text ++ after) = false :=
    fun spelled => word (by rw [isWordText, spelled, Bool.true_or])
  have proper : ∀ {text after : List Char}, isConstructorText text = true →
      leads isSymbol (text ++ after) = false :=
    fun spelled => word (by rw [isWordText, spelled, Bool.or_true])
  cases atom with
  | named text => exact named spelled
  | aliased text atom =>
    rw [PatternAtom.isSpelled, Bool.and_eq_true] at spelled
    rw [PatternAtom.render, List.append_assoc]
    exact named spelled.1
  | constructor name =>
    obtain ⟨qualifiers, token, text⟩ := name
    simp only [PatternAtom.isSpelled, Dotted.isSpelledConstructor, Bool.and_eq_true] at spelled
    cases qualifiers with
    | nil => exact proper spelled.2
    | cons qualifier later =>
      have first : isConstructorText qualifier = true := by
        have all := spelled.1.1
        rw [List.all_cons, Bool.and_eq_true] at all
        exact all.1
      simp only [PatternAtom.render, Dotted.render, List.flatMap_cons, List.append_assoc]
      exact proper first
  | literal token text =>
    rw [PatternAtom.isSpelled, isLiteralOf, Bool.and_eq_true] at spelled
    obtain ⟨first, rest, rfl, plain, -⟩ := startsLiteral_apart spelled.1
    exact plain
  | irrefutable atom => cases other
  | _ => rfl

section Legible

variable (spacing : PatternSpacing)

theorem PatternAtom.leads_words (atom : PatternAtom) (spelled : atom.isSpelled = true)
    (chosen : Bool) (rest : List Word) :
    leads isSymbol (textOf (atom.words spacing (chosen || atom.isIrrefutable) ++ rest)) = false := by
  rw [textOf_append, atom.textOf_words]
  cases gap : chosen || atom.isIrrefutable with
  | true => rfl
  | false =>
    rw [blankIf_false, List.nil_append]
    exact atom.leads_render spacing spelled (Bool.or_eq_false_iff.1 gap).2 _

mutual

/-- The words of a tree are read back, whatever stands before and behind them. -/
theorem PatternAtom.legible (atom : PatternAtom) (spelled : atom.isSpelled = true)
    {rest : List Word} (parted : Parted rest) {proper gap : Bool} (free : (proper && !gap) = false) :
    Legible proper (atom.words spacing gap ++ rest) := by
  cases atom with
  | named text =>
    obtain ⟨-, starts, -⟩ := isLast_variable spelled false
    exact .cons rfl (starts _) (takes_variable _ spelled parted.apart.word) (parted.legible _)
  | aliased text atom =>
    rw [PatternAtom.isSpelled, Bool.and_eq_true] at spelled
    obtain ⟨-, starts, -⟩ := isLast_variable spelled.1 false
    have behind : Legible false (fixed .atSign spacing.beforeAt ::
        (atom.words spacing (spacing.afterAt || atom.isIrrefutable) ++ rest)) :=
      .cons rfl rfl (@takes_symbols ['@'] _ (by decide)
        (atom.leads_words spacing spelled.2 spacing.afterAt rest)) (atom.legible spelled.2 parted rfl)
    refine .cons rfl (starts _) (takes_variable _ spelled.1 ?_) behind
    cases spacing.beforeAt <;> rfl
  | constructor name => exact (name.legible (Or.inl spelled) gap).2 parted free
  | literal token text => exact legible_literalOf spelled parted
  | wildcard =>
    exact .cons rfl rfl (@takes_word ['_'] _ _ rfl rfl parted.apart.word) (parted.legible _)
  | irrefutable atom =>
    refine .cons rfl rfl ?_ (atom.legible spelled parted rfl)
    rw [show (proper && !(fixed .tilde gap).gap) = false from free]
    exact @takes_symbols ['~'] _ (by decide) (atom.leads_words spacing spelled spacing.afterTilde rest)
  | unit =>
    exact legible_enclosed (by decide) (by decide) parted fun closed => closed.legible false
  | tupleConstructor further =>
    exact legible_enclosed (by decide) (by decide) parted fun closed =>
      (parted_commas _ closed).legible false
  | symbol token text =>
    obtain ⟨operator, rfl, -⟩ := symbolOf_of_spelled spelled
    have last := isLast_symbol operator fun qualified : false = true => by cases qualified
    exact legible_enclosed (by decide) (by decide) parted fun closed =>
      legible_qualifiedWords [] last closed rfl
  | parenthesized inner =>
    exact legible_enclosed (by decide) (by decide) parted fun closed =>
      inner.legible spelled closed rfl
  | tuple first second later =>
    simp only [PatternAtom.isSpelled, Bool.and_eq_true] at spelled
    refine legible_enclosed (by decide) (by decide) parted fun closed => ?_
    have behind := PatternForm.parted_laterWords later spelled.2 closed
    have content : Legible false (second.words spacing spacing.afterComma ++ _) :=
      second.legible spelled.1.2 behind rfl
    have elements := parted_separator .comma (by decide) false content
    rw [List.append_assoc, List.append_assoc]
    exact first.legible spelled.1.1 elements rfl
  | emptyList =>
    exact legible_enclosed (by decide) (by decide) parted fun closed => closed.legible false
  | list first later =>
    simp only [PatternAtom.isSpelled, Bool.and_eq_true] at spelled
    refine legible_enclosed (by decide) (by decide) parted fun closed => ?_
    rw [List.append_assoc]
    exact first.legible spelled.1 (PatternForm.parted_laterWords later spelled.2 closed) rfl

theorem PatternAtom.parted_argumentWords (arguments : List PatternAtom)
    (spelled : PatternAtom.areSpelled arguments = true) {rest : List Word} (parted : Parted rest) :
    Parted (PatternAtom.argumentWords spacing arguments ++ rest) := by
  cases arguments with
  | nil => exact parted
  | cons atom later =>
    rw [PatternAtom.areSpelled, Bool.and_eq_true] at spelled
    have behind := PatternAtom.parted_argumentWords later spelled.2 parted
    rw [PatternAtom.argumentWords, List.append_assoc]
    exact parted_of_blank (atom.textOf_words spacing true) fun proper =>
      atom.legible spelled.1 behind (Bool.and_false proper)

theorem PatternOperand.legible (operand : PatternOperand) (spelled : operand.isSpelled = true)
    {rest : List Word} (parted : Parted rest) {proper gap : Bool} (free : (proper && !gap) = false) :
    Legible proper (operand.words spacing gap ++ rest) := by
  cases operand with
  | negative token text =>
    rw [PatternOperand.isSpelled, Bool.and_eq_true] at spelled
    refine .cons rfl rfl ?_ (legible_literalOf spelled.2 parted)
    rw [show (proper && !(fixed .minus gap).gap) = false from free]
    have apart := (PatternAtom.literal token text).leads_words spacing spelled.2
      spacing.afterSign rest
    rw [show (PatternAtom.literal token text).isIrrefutable = false from rfl, Bool.or_false] at apart
    exact @takes_symbols ['-'] _ (by decide) apart
  | applied function arguments =>
    simp only [PatternOperand.isSpelled, Bool.and_eq_true] at spelled
    rw [PatternOperand.words, List.append_assoc]
    exact function.legible spelled.1.2
      (PatternAtom.parted_argumentWords arguments spelled.2 parted) free

theorem PatternForm.legible (form : PatternForm) (spelled : form.isSpelled = true)
    {rest : List Word} (parted : Parted rest) {proper gap : Bool} (free : (proper && !gap) = false) :
    Legible proper (form.words spacing gap ++ rest) := by
  cases form with
  | operand operand => exact operand.legible spelled parted free
  | binary left operator right =>
    simp only [PatternForm.isSpelled, Bool.and_eq_true] at spelled
    have operand := parted_of_blank (right.textOf_words spacing true) fun proper =>
      right.legible spelled.2 parted (Bool.and_false proper)
    have behind := parted_of_blank (operator.textOf_words true) fun proper =>
      (PatternOperator.legible spelled.1.2 true).2 operand (Bool.and_false proper)
    rw [PatternForm.words, List.append_assoc, List.append_assoc]
    exact left.legible spelled.1.1 behind free

theorem PatternForm.parted_laterWords (forms : List PatternForm)
    (spelled : PatternForm.areSpelled forms = true) {rest : List Word} (parted : Parted rest) :
    Parted (PatternForm.laterWords spacing forms ++ rest) := by
  cases forms with
  | nil => exact parted
  | cons form later =>
    rw [PatternForm.areSpelled, Bool.and_eq_true] at spelled
    have behind := PatternForm.parted_laterWords later spelled.2 parted
    rw [PatternForm.laterWords, List.append_assoc]
    exact parted_separator .comma (by decide) false (form.legible spelled.1 behind rfl)

end

end Legible

end Offside.Haskell.Core
