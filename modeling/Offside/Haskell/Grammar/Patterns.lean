import Offside.Haskell.Grammar.Level

/-!
Patterns, as expressions are represented. Constructor operators associate to the right.
-/

namespace Offside.Haskell.Grammar

set_option autoImplicit false

open Offside.Parse

def literalKind? : Token → Option LiteralKind
  | .integer => some .integer
  | .float => some .float
  | .character => some .character
  | .string => some .string
  | _ => none

def literal : Parse Expr := do
  match literalKind? (← ahead) with
  | some kind =>
      let span ← aheadSpan
      consume
      return .literal kind span
  | none => return .error (← reject)

def tupleConstructor (start : Span) : Parse Expr := do
  skipAll .comma
  let _ ← expectOrSkipTo .closeParen
  return .identifier (.special (← spanFrom start))

/-- A variable that was read, or one that names a pattern read as given after an at sign. -/
def aliasAfter (atom : Parse Expr) (start : Span) (name : Name) : Parse Expr := do
  if ← accept .atSign then
    let pattern ← atom
    return .asPattern name pattern (← spanFrom start)
  else return .identifier name

def variableOrAlias (atom : Parse Expr) : Parse Expr := do
  let start ← aheadSpan
  let name ← variableIdentifier
  aliasAfter atom start name

def lazyPattern (atom : Parse Expr) : Parse Expr := do
  let start ← aheadSpan
  consume
  let pattern ← atom
  return .lazyPattern pattern (← spanFrom start)

def wildcard : Parse Expr := do
  let span ← aheadSpan
  consume
  return .wildcard span

def constructorThenParen : Parse Bool := do
  if (← ahead).isConstructorOperator then return (← peek 1) = .closeParen else return false

/-- What follows the first term in parentheses: further ones of a tuple, or the closing parenthesis. -/
def enclosed (term : Parse Expr) (start : Span) (first : Expr) : Parse Expr := do
  if ← isAt .comma then
    let later ← many (accept .comma) term
    let _ ← expectOrSkipTo .closeParen
    return .tuple (first :: later) (← spanFrom start)
  else
    let _ ← expectOrSkipTo .closeParen
    return .parenthesized first (← spanFrom start)

def parenthesizedPattern (inner : Level) : Parse Expr := do
  let start ← aheadSpan
  consume
  if ← accept .closeParen then return .unit (← spanFrom start)
  else if ← isAt .comma then tupleConstructor start
  else if ← constructorThenParen then
    let name ← constructorSymbol
    consume
    return .identifier name
  else
    let first ← inner.pattern
    enclosed inner.pattern start first

def listEnd (start : Span) (elements : List Expr) : Parse Expr := do
  let _ ← expectOrSkipTo .closeBracket
  return .list elements (← spanFrom start)

def listPattern (inner : Level) : Parse Expr := do
  let start ← aheadSpan
  consume
  if ← isAt .closeBracket then listEnd start []
  else
    let elements ← separated .comma inner.pattern
    listEnd start elements

def startsPatternAtom : Token → Bool
  | .identifier | .properIdentifier | .underscore | .tilde | .openParen | .openBracket | .integer
  | .float | .string | .character => true
  | _ => false

def patternAtom (inner : Level) : Parse Expr := do
  match ← ahead with
  | .identifier => variableOrAlias inner.patternAtom
  | .properIdentifier => return .identifier (← qualifiedIdentifier)
  | .underscore => wildcard
  | .tilde => lazyPattern inner.patternAtom
  | .integer | .float | .string | .character => literal
  | .openParen => parenthesizedPattern inner
  | .openBracket => listPattern inner
  | _ => return .error (← reject)

def patternAtoms (inner : Level) : Parse (List Expr) :=
  many (return startsPatternAtom (← ahead)) (patternAtom inner)

/-- An argument of a constructor follows. A qualified constructor operator is none. -/
def argumentFollows : Parse Bool := do
  if startsPatternAtom (← ahead) then
    return !(← qualifiedSymbolFollows Token.isConstructorOperator)
  else return false

def constructorPattern (inner : Level) (start : Span) (constructor : Expr) : Parse Expr := do
  let arguments ← many argumentFollows (patternAtom inner)
  if arguments.isEmpty then return constructor
  else return .application constructor arguments (← spanFrom start)

def parenthesizedConstructorFollows : Parse Bool := do
  let next ← peek 1
  if next = .comma then return true
  else if next.isConstructorOperator then return (← peek 2) = .closeParen
  else return false

def numeral : Parse Expr := do
  match ← ahead with
  | .integer | .float => literal
  | _ => return .error (← reject)

def negativeLiteral : Parse Expr := do
  let start ← aheadSpan
  consume
  let operand ← numeral
  return .negation operand (← spanFrom start)

/-- A pattern without a constructor operator outside brackets. -/
def operandPattern (inner : Level) : Parse Expr := do
  let start ← aheadSpan
  match ← ahead with
  | .minus => negativeLiteral
  | .properIdentifier =>
      let name ← qualifiedIdentifier
      constructorPattern inner start (.identifier name)
  | .openParen =>
      if ← parenthesizedConstructorFollows then
        let constructor ← patternAtom inner
        constructorPattern inner start constructor
      else patternAtom inner
  | _ => patternAtom inner

def patternAfter (inner : Level) (start : Span) (left : Expr) : Parse Expr := do
  match ← constructorOperator? with
  | some operator =>
      let right ← inner.pattern
      return .binary left operator right (← spanFrom start)
  | none => return left

def patternProduction (inner : Level) : Parse Expr := do
  let start ← aheadSpan
  let left ← operandPattern inner
  patternAfter inner start left

end Offside.Haskell.Grammar
