import Offside.Proofs.Derivation.Types

/-!
Patterns as they are derived. A tree stands for a derivation of the grammar

* pattern: an operand, and a constructor operator with a pattern behind it or none,
* operand: a number behind a minus sign, a constructor with arguments, or an atom,
* atom: a variable, one with an at sign and an atom behind it, a constructor, a literal, the wildcard,
  an atom behind a tilde, the unit pattern, a pattern in parentheses, a tuple or list pattern.

A constructor is a name, one of the constructors of tuples, or a constructor symbol in parentheses. A
qualified variable is taken for a constructor.
-/

namespace Offside.Haskell.Core

set_option autoImplicit false

open Offside.Lexical Offside.Parse Offside.Haskell.Grammar

/-- A possibly qualified name: the texts of its qualifiers, and the kind and the text of its last part. -/
structure Dotted where
  qualifiers : List (List Char)
  token : Token
  text : List Char

def Dotted.Derives (name : Dotted) (words : List Word) : Prop :=
  ∃ gap, IsDotted name.token name.text gap name.qualifiers words

def Dotted.isConstructor (name : Dotted) : Bool :=
  name.token == .properIdentifier || name.token == .identifier && !name.qualifiers.isEmpty

/-- A constructor symbol with one qualifier or none. -/
def Dotted.isConstructorSymbol (name : Dotted) : Bool :=
  name.token.isConstructorOperator && decide (name.qualifiers.length ≤ 1)

inductive PatternOperator where
  | symbol (name : Dotted)
  /-- A name between backticks. -/
  | quoted (name : Dotted)

mutual

inductive PatternAtom where
  | named (text : List Char)
  /-- A variable for what the atom behind the at sign matches. -/
  | aliased (text : List Char) (atom : PatternAtom)
  | constructor (name : Dotted)
  | literal (token : Token) (text : List Char)
  | wildcard
  | irrefutable (atom : PatternAtom)
  | unit
  /-- The constructor of tuples, with a comma and further ones. -/
  | tupleConstructor (further : Nat)
  /-- A constructor symbol in parentheses. -/
  | symbol (token : Token) (text : List Char)
  | parenthesized (inner : PatternForm)
  | tuple (first second : PatternForm) (later : List PatternForm)
  | emptyList
  | list (first : PatternForm) (later : List PatternForm)

inductive PatternOperand where
  /-- A number behind a minus sign. -/
  | negative (token : Token) (text : List Char)
  | applied (function : PatternAtom) (arguments : List PatternAtom)

inductive PatternForm where
  | operand (operand : PatternOperand)
  | binary (left : PatternOperand) (operator : PatternOperator) (right : PatternForm)

end

/-- An atom that may stand before arguments. -/
def PatternAtom.takesArguments : PatternAtom → Bool
  | .constructor _ | .tupleConstructor _ | .symbol _ _ => true
  | _ => false

def PatternAtom.isIrrefutable : PatternAtom → Bool
  | .irrefutable _ => true
  | _ => false

/-! How deep brackets, at signs, tildes and the right sides of operators are nested. -/

mutual

def PatternAtom.nesting : PatternAtom → Nat
  | .named _ | .constructor _ | .literal _ _ | .wildcard | .unit | .tupleConstructor _ | .symbol _ _
  | .emptyList => 0
  | .aliased _ atom => atom.nesting + 1
  | .irrefutable atom => atom.nesting + 1
  | .parenthesized inner => inner.nesting + 1
  | .tuple first second later =>
    max first.nesting (max second.nesting (PatternForm.listNesting later)) + 1
  | .list first later => max first.nesting (PatternForm.listNesting later) + 1

def PatternAtom.listNesting : List PatternAtom → Nat
  | [] => 0
  | atom :: later => max atom.nesting (PatternAtom.listNesting later)

def PatternOperand.nesting : PatternOperand → Nat
  | .negative _ _ => 0
  | .applied function arguments => max function.nesting (PatternAtom.listNesting arguments)

def PatternForm.nesting : PatternForm → Nat
  | .operand operand => operand.nesting
  | .binary left _ right => max left.nesting (right.nesting + 1)

def PatternForm.listNesting : List PatternForm → Nat
  | [] => 0
  | form :: later => max form.nesting (PatternForm.listNesting later)

end

/-! The words of a tree. -/

def PatternOperator.Derives : PatternOperator → List Word → Prop
  | .symbol name, words => name.isConstructorSymbol = true ∧ name.Derives words
  | .quoted name, words => name.isConstructor = true ∧ Encloses .backtick .backtick name.Derives words

def IsLiteral (token : Token) (text : List Char) (words : List Word) : Prop :=
  (literalKind? token).isSome = true ∧ ∃ gap, words = [⟨token, text, gap⟩]

mutual

def PatternAtom.Derives : PatternAtom → List Word → Prop
  | .named text, words => ∃ gap, words = [⟨.identifier, text, gap⟩]
  | .aliased text atom, words =>
    ∃ gap rest, words = ⟨.identifier, text, gap⟩ :: rest ∧ Heads .atSign atom.Derives rest
  | .constructor name, words => name.isConstructor = true ∧ name.Derives words
  | .literal token text, words => IsLiteral token text words
  | .wildcard, words => Heads .underscore (· = []) words
  | .irrefutable atom, words => Heads .tilde atom.Derives words
  | .unit, words => Encloses .openParen .closeParen (· = []) words
  | .tupleConstructor further, words =>
    Encloses .openParen .closeParen
      (fun content => content.map Word.token = List.replicate (further + 1) .comma) words
  | .symbol token text, words =>
    token.isConstructorOperator = true ∧
      Encloses .openParen .closeParen (fun content => ∃ gap, content = [⟨token, text, gap⟩]) words
  | .parenthesized inner, words => Encloses .openParen .closeParen inner.Derives words
  | .tuple first second later, words =>
    Encloses .openParen .closeParen
      (Beside first.Derives (Beside (Heads .comma second.Derives)
        (PatternForm.LaterDerive later))) words
  | .emptyList, words => Encloses .openBracket .closeBracket (· = []) words
  | .list first later, words =>
    Encloses .openBracket .closeBracket
      (Beside first.Derives (PatternForm.LaterDerive later)) words

def PatternAtom.ListDerives : List PatternAtom → List Word → Prop
  | [], words => words = []
  | atom :: later, words => Beside atom.Derives (PatternAtom.ListDerives later) words

def PatternOperand.Derives : PatternOperand → List Word → Prop
  | .negative token text, words =>
    (token = .integer ∨ token = .float) ∧ Heads .minus (IsLiteral token text) words
  | .applied function arguments, words =>
    (function.takesArguments = true ∨ arguments = []) ∧
      Beside function.Derives (PatternAtom.ListDerives arguments) words

def PatternForm.Derives : PatternForm → List Word → Prop
  | .operand operand, words => operand.Derives words
  | .binary left operator right, words =>
    Beside left.Derives (Beside operator.Derives right.Derives) words

def PatternForm.LaterDerive : List PatternForm → List Word → Prop
  | [], words => words = []
  | form :: later, words =>
    Beside (Heads .comma form.Derives) (PatternForm.LaterDerive later) words

end

/-! The expressions that stand for a tree as a pattern, with spans anywhere. Operators lean to the
right. -/

section Matches

variable (file : FileId) (source : List Char)

def Dotted.Matches (name : Dotted) : Name → Prop :=
  IsNamed file source name.qualifiers (IsPart file source name.text)

def IsConstructorSymbol (text : List Char) (name : Name) : Prop :=
  ∃ span : Span, name = .special span ∧ span.Shows file source text

def PatternOperator.Matches : PatternOperator → Name → Prop
  | .symbol name, found => IsNamed file source name.qualifiers (IsConstructorSymbol file source name.text) found
  | .quoted name, found => name.Matches file source found

def MatchesLiteral (token : Token) (text : List Char) (expr : Expr) : Prop :=
  ∃ kind span, expr = .literal kind span ∧ literalKind? token = some kind ∧
    span.Shows file source text

mutual

def PatternAtom.Matches : PatternAtom → Expr → Prop
  | .named text, expr => ∃ name, expr = .identifier name ∧ IsPart file source text name
  | .aliased text atom, expr => ∃ name inner span, expr = .asPattern name inner span ∧
      IsPart file source text name ∧ atom.Matches inner
  | .constructor name, expr => ∃ found, expr = .identifier found ∧ name.Matches file source found
  | .literal token text, expr => MatchesLiteral file source token text expr
  | .wildcard, expr => ∃ span, expr = .wildcard span
  | .irrefutable atom, expr => ∃ inner span, expr = .lazyPattern inner span ∧ atom.Matches inner
  | .unit, expr => ∃ span, expr = .unit span
  | .tupleConstructor _, expr => ∃ span, expr = .identifier (.special span)
  | .symbol _ text, expr => ∃ name, expr = .identifier name ∧
      IsConstructorSymbol file source text name
  | .parenthesized inner, expr => ∃ content span, expr = .parenthesized content span ∧
      inner.Matches content
  | .tuple first second later, expr => ∃ one other others span,
      expr = .tuple (one :: other :: others) span ∧ first.Matches one ∧ second.Matches other ∧
        PatternForm.ListMatches later others
  | .emptyList, expr => ∃ span, expr = .list [] span
  | .list first later, expr => ∃ one others span,
      expr = .list (one :: others) span ∧ first.Matches one ∧ PatternForm.ListMatches later others

def PatternAtom.ListMatches : List PatternAtom → List Expr → Prop
  | [], exprs => exprs = []
  | atom :: later, exprs => ∃ first others,
      exprs = first :: others ∧ atom.Matches first ∧ PatternAtom.ListMatches later others

def PatternOperand.Matches : PatternOperand → Expr → Prop
  | .negative token text, expr => ∃ content span, expr = .negation content span ∧
      MatchesLiteral file source token text content
  | .applied function arguments, expr =>
    Applies arguments.isEmpty function.Matches (PatternAtom.ListMatches arguments) expr

def PatternForm.Matches : PatternForm → Expr → Prop
  | .operand operand, expr => operand.Matches expr
  | .binary left operator right, expr => ∃ one name other span,
      expr = .binary one name other span ∧ left.Matches one ∧ operator.Matches file source name ∧
        right.Matches other

def PatternForm.ListMatches : List PatternForm → List Expr → Prop
  | [], exprs => exprs = []
  | form :: later, exprs => ∃ first others,
      exprs = first :: others ∧ form.Matches first ∧ PatternForm.ListMatches later others

end

end Matches

end Offside.Haskell.Core
