import Mathlib.Data.List.Forall2
import Offside.Haskell.Grammar.Patterns
import Offside.Haskell.Scan
import Offside.Proofs.Source.Slices

/-!
Core expressions: names and literals, what parentheses and brackets make of expressions, applications,
negations and chains of operators. A tree holds the texts of its names and literals, and the types admit
only texts that can be written where they stand, so every tree has a written form.

An expression of a program matches a tree if it has the same shape and its spans, wherever they are,
cut the texts of the tree out of the source.
-/

namespace Offside

set_option autoImplicit false

structure Span.Shows (file : FileId) (source : List Char) (span : Span) (text : List Char) :
    Prop where
  file : span.file = file
  slice : span.slice? source = some text

namespace Haskell.Core

open Offside.Lexical

def isConstructorText (text : List Char) : Bool :=
  leads Text.isUppercase text && text.all continuesWord

/-- A word that is neither reserved nor the wildcard. -/
def isVariableText (text : List Char) : Bool :=
  leads (fun first => Text.isLowercase first || first == '_') text && text.all continuesWord &&
    text != ['_'] && (Token.spelled? keywords text).isNone

def isWordText (text : List Char) : Bool := isVariableText text || isConstructorText text

/-- Some symbols that do not start a comment. -/
def isSymbolRun (text : List Char) : Bool :=
  !text.isEmpty && text.all isSymbol && !(decide (2 ≤ text.length) && text.all (· == '-'))

def isReservedText (text : List Char) : Bool :=
  (Token.spelled? reservedOperators text).any fun token => !token.isOperator

def isOperatorText (text : List Char) : Bool := isSymbolRun text && !isReservedText text

def startsLiteral (character : Char) : Bool :=
  character.isDigit || character == '"' || character == '\''

def isLiteralText (text : List Char) : Bool :=
  let found := scan false text
  leads startsLiteral text && found.width == text.length && found.defect.isNone &&
    !text.contains '\n'

abbrev Spelling (accepts : List Char → Bool) : Type := { text : List Char // accepts text = true }

structure Identifier where
  qualifiers : List (Spelling isConstructorText)
  last : Spelling isWordText

/-- An operator of symbols. After a qualifier a single dot would make two dots, which are reserved. -/
structure Operator where
  qualifiers : List (Spelling isConstructorText)
  symbol : Spelling isOperatorText
  apart : qualifiers = [] ∨ symbol.val ≠ ['.']

inductive Infix where
  | symbol (operator : Operator)
  /-- An identifier between backticks. -/
  | quoted (name : Identifier)

def Infix.isSign : Infix → Bool
  | .symbol operator => operator.qualifiers.isEmpty && operator.symbol.val == ['-']
  | .quoted _ => false

mutual

inductive Atom where
  | name (name : Identifier)
  | literal (text : Spelling isLiteralText)
  /-- An operator alone in parentheses. -/
  | operator (operator : Operator)
  | unit
  | tuple (first second : Chain) (later : List Chain)
  | emptyList
  | list (first : Chain) (later : List Chain)
  | parenthesized (inner : Chain)
  | leftSection (operand : Chain) (operator : Infix)
  | rightSection (operator : Infix) (unsigned : operator.isSign = false) (operand : Chain)

inductive Operand where
  | applied (function : Atom) (arguments : List Atom)
  | negated (function : Atom) (arguments : List Atom)

inductive Chain where
  | operand (operand : Operand)
  | binary (left : Chain) (operator : Infix) (right : Operand)

end

/-! How deep brackets are nested. -/

mutual

def Atom.nesting : Atom → Nat
  | .name _ | .literal _ => 0
  | .operator _ | .unit | .emptyList => 1
  | .tuple first second later =>
    max first.nesting (max second.nesting (Chain.listNesting later)) + 1
  | .list first later => max first.nesting (Chain.listNesting later) + 1
  | .parenthesized inner => inner.nesting + 1
  | .leftSection operand _ => operand.nesting + 1
  | .rightSection _ _ operand => operand.nesting + 1

def Atom.listNesting : List Atom → Nat
  | [] => 0
  | atom :: later => max atom.nesting (Atom.listNesting later)

def Operand.nesting : Operand → Nat
  | .applied function arguments => max function.nesting (Atom.listNesting arguments)
  | .negated function arguments => max function.nesting (Atom.listNesting arguments)

def Chain.nesting : Chain → Nat
  | .operand operand => operand.nesting
  | .binary left _ right => max left.nesting right.nesting

def Chain.listNesting : List Chain → Nat
  | [] => 0
  | chain :: later => max chain.nesting (Chain.listNesting later)

end

/-! The written form. Single blanks separate terms, and a bracket touches what it encloses. -/

structure Spacing where
  afterComma : Bool
  afterSign : Bool

def blankIf (gap : Bool) : List Char := if gap then [' '] else []

def Spacing.comma (spacing : Spacing) : List Char := ',' :: blankIf spacing.afterComma

def Spacing.sign (spacing : Spacing) : List Char := '-' :: blankIf spacing.afterSign

def renderQualified (qualifiers : List (Spelling isConstructorText)) (last : List Char) :
    List Char :=
  (qualifiers.flatMap fun qualifier => qualifier.val ++ ['.']) ++ last

def Identifier.render (name : Identifier) : List Char :=
  renderQualified name.qualifiers name.last.val

def Operator.render (operator : Operator) : List Char :=
  renderQualified operator.qualifiers operator.symbol.val

def Infix.render : Infix → List Char
  | .symbol operator => operator.render
  | .quoted name => '\x60' :: (name.render ++ ['\x60'])

section Render

variable (spacing : Spacing)

mutual

def Atom.render : Atom → List Char
  | .name name => name.render
  | .literal text => text.val
  | .operator operator => '(' :: (operator.render ++ [')'])
  | .unit => ['(', ')']
  | .tuple first second later =>
    '(' :: (first.render ++ (spacing.comma ++ (second.render ++ (Chain.renderLater later ++ [')']))))
  | .emptyList => ['[', ']']
  | .list first later => '[' :: (first.render ++ (Chain.renderLater later ++ [']']))
  | .parenthesized inner => '(' :: (inner.render ++ [')'])
  | .leftSection operand operator => '(' :: (operand.render ++ (' ' :: (operator.render ++ [')'])))
  | .rightSection operator _ operand => '(' :: (operator.render ++ (' ' :: (operand.render ++ [')'])))

def Atom.renderArguments : List Atom → List Char
  | [] => []
  | atom :: later => ' ' :: (atom.render ++ Atom.renderArguments later)

def Operand.render : Operand → List Char
  | .applied function arguments => function.render ++ Atom.renderArguments arguments
  | .negated function arguments =>
    spacing.sign ++ (function.render ++ Atom.renderArguments arguments)

def Chain.render : Chain → List Char
  | .operand operand => operand.render
  | .binary left operator right =>
    left.render ++ (' ' :: (operator.render ++ (' ' :: right.render)))

def Chain.renderLater : List Chain → List Char
  | [] => []
  | chain :: later => spacing.comma ++ (chain.render ++ Chain.renderLater later)

end

end Render

/-! The expressions that stand for a tree, with spans anywhere. -/

section Matches

variable (shows : Span → List Char → Prop)

/-- A name with these qualifiers before its last part. -/
def Qualifies (qualifiers : List (Spelling isConstructorText)) (last : Name → Prop) (name : Name) :
    Prop :=
  match qualifiers with
  | [] => last name
  | _ :: _ => ∃ segments final span, name = .qualified (segments ++ [final]) span ∧
      List.Forall₂ (fun (qualifier : Spelling isConstructorText) segment =>
        ∃ span, segment = .simple span ∧ shows span qualifier.val) qualifiers segments ∧
      last final

def Identifier.Matches (identifier : Identifier) : Name → Prop :=
  Qualifies shows identifier.qualifiers fun name =>
    ∃ span, name = .simple span ∧ shows span identifier.last.val

def Operator.Matches (operator : Operator) : Name → Prop :=
  Qualifies shows operator.qualifiers fun name => ∃ span, shows span operator.symbol.val ∧
    name = if leads (· == ':') operator.symbol.val then .special span else .operator span

def Infix.Matches : Infix → Name → Prop
  | .symbol operator => operator.Matches shows
  | .quoted name => name.Matches shows

/-- A function applied to its arguments, or alone. -/
def Applies (isAlone : Bool) (function : Expr → Prop) (arguments : List Expr → Prop) (expr : Expr) :
    Prop :=
  if isAlone then function expr
  else ∃ head others span, expr = .application head others span ∧ function head ∧ arguments others

mutual

def Atom.Matches : Atom → Expr → Prop
  | .name identifier, expr => ∃ name, expr = .identifier name ∧ identifier.Matches shows name
  | .literal text, expr => ∃ kind span, expr = .literal kind span ∧ shows span text.val ∧
      Grammar.literalKind? (scan false text.val).token = some kind
  | .operator operator, expr => ∃ name, expr = .identifier name ∧ operator.Matches shows name
  | .unit, expr => ∃ span, expr = .unit span
  | .tuple first second later, expr => ∃ one other others span,
      expr = .tuple (one :: other :: others) span ∧ first.Matches one ∧ second.Matches other ∧
        Chain.ListMatches later others
  | .emptyList, expr => ∃ span, expr = .list [] span
  | .list first later, expr => ∃ one others span,
      expr = .list (one :: others) span ∧ first.Matches one ∧ Chain.ListMatches later others
  | .parenthesized inner, expr => ∃ content span,
      expr = .parenthesized content span ∧ inner.Matches content
  | .leftSection operand operator, expr => ∃ content name span,
      expr = .leftSection content name span ∧ operand.Matches content ∧
        operator.Matches shows name
  | .rightSection operator _ operand, expr => ∃ name content span,
      expr = .rightSection name content span ∧ operator.Matches shows name ∧
        operand.Matches content

def Atom.ListMatches : List Atom → List Expr → Prop
  | [], exprs => exprs = []
  | atom :: later, exprs => ∃ first others,
      exprs = first :: others ∧ atom.Matches first ∧ Atom.ListMatches later others

def Operand.Matches : Operand → Expr → Prop
  | .applied function arguments, expr =>
    Applies arguments.isEmpty function.Matches (Atom.ListMatches arguments) expr
  | .negated function arguments, expr => ∃ content span, expr = .negation content span ∧
      Applies arguments.isEmpty function.Matches (Atom.ListMatches arguments) content

def Chain.Matches : Chain → Expr → Prop
  | .operand operand, expr => operand.Matches expr
  | .binary left operator right, expr => ∃ one name other span,
      expr = .binary one name other span ∧ left.Matches one ∧ operator.Matches shows name ∧
        right.Matches other

def Chain.ListMatches : List Chain → List Expr → Prop
  | [], exprs => exprs = []
  | chain :: later, exprs => ∃ first others,
      exprs = first :: others ∧ chain.Matches first ∧ Chain.ListMatches later others

end

end Matches

end Haskell.Core

end Offside
