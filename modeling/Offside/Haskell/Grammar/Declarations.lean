import Offside.Haskell.Grammar.Patterns

/-!
Declarations: type signatures, fixities, function clauses and pattern bindings, with their right-hand
sides, and the declarations that stand only at the top of a module.
-/

namespace Offside.Haskell.Grammar

set_option autoImplicit false

open Offside.Parse

def guardedExpr (inner : Level) (separator : Token) : Parse GuardedExpr := do
  let start ← aheadSpan
  consume
  let guard ← inner.expression
  let _ ← expect separator
  let body ← inner.expression
  return { guard, body, span := (← spanFrom start) }

def whereDecls? (inner : Level) : Parse (List Decl) := do
  if ← accept .kwWhere then inner.declBlock else return []

def finishRightSide (inner : Level) (start : Span) (body : Body) : Parse RightSide := do
  let whereDecls ← whereDecls? inner
  return { body, whereDecls, span := (← spanFrom start) }

/-- An expression after a separator, or guarded ones. A missing separator is reported and nothing is
consumed, so that the block around can go on at its next item. -/
def rightSide (inner : Level) (separator : Token) : Parse RightSide := do
  let start ← aheadSpan
  if ← isAt .pipe then
    let alternatives ← many (isAt .pipe) (guardedExpr inner separator)
    finishRightSide inner start (.guarded alternatives)
  else if ← accept separator then
    let body ← inner.expression
    finishRightSide inner start (.plain body)
  else
    reportUnexpected
    return { body := .plain (.error start), whereDecls := [], span := start }

def maximalPrecedence : Nat := 9

/-- A precedence as written: decimal digits alone, whatever zeros stand in front. -/
def precedenceOf? (text : String) : Option Nat :=
  let digits := text.toList
  if !digits.isEmpty && digits.all Char.isDigit then
    let value := digits.foldl (fun value digit => 10 * value + (digit.toNat - '0'.toNat)) 0
    if value ≤ maximalPrecedence then some value else none
  else none

def precedenceAhead : Parse (Option Nat) := do
  let parser ← get
  match parser.context.lexemeAt parser.aheadSpan.start with
  | some ⟨.integer, text⟩ => return precedenceOf? text
  | _ => return none

/-- The precedence, if one is written. One out of range is reported and counts as none. -/
def precedence : Parse (Option Nat) := do
  if ← isAt .integer then
    let value ← precedenceAhead
    if value.isNone then reportUnexpected
    consume
    return value
  else return none

def fixityOperator : Parse Name := do
  match ← operator? with
  | some name => return name
  | none => return .error (← reject)

def associativityOf : Token → Associativity
  | .kwFixityLeft => .left
  | .kwFixityRight => .right
  | _ => .none

def fixityDecl : Parse Decl := do
  let start ← aheadSpan
  let associativity := associativityOf (← ahead)
  consume
  let precedence ← precedence
  let operators ← separated .comma fixityOperator
  return .fixity { associativity, precedence, operators, span := (← spanFrom start) }

def typeSignature (inner : Level) (start : Span) (first : Name) : Parse Decl := do
  let later ← many (accept .comma) variableName
  let _ ← expect .doubleColon
  let type ← inner.type
  return .typeSignature { names := first :: later, type, span := (← spanFrom start) }

def operatorClause (inner : Level) (start : Span) (left : Expr) (operator : Name) :
    Parse Decl := do
  let right ← inner.pattern
  let body ← rightSide inner .equals
  return .function operator [left, right] true body (← spanFrom start)

def declAfterPattern (inner : Level) (start : Span) (pattern : Expr) : Parse Decl := do
  match ← variableOperator? with
  | some operator => operatorClause inner start pattern operator
  | none =>
      let body ← rightSide inner .equals
      return .patternBinding pattern body (← spanFrom start)

def patternAfterVariable (inner : Level) (start : Span) (name : Name) : Parse Expr := do
  let left ← aliasAfter inner.patternAtom start name
  patternAfter inner start left

def patternContinues : Parse Bool := do
  let token ← ahead
  if token = .atSign ∨ token.isConstructorOperator then return true
  else quotedFollows .properIdentifier

def functionClause (inner : Level) (start : Span) (name : Name) : Parse Decl := do
  let parameters ← patternAtoms inner
  let body ← rightSide inner .equals
  return .function name parameters false body (← spanFrom start)

def declAfterName (inner : Level) (start : Span) (name : Name) : Parse Decl := do
  if (← isAt .comma) || (← isAt .doubleColon) then typeSignature inner start name
  else if ← patternContinues then
    let pattern ← patternAfterVariable inner start name
    declAfterPattern inner start pattern
  else
    match ← variableOperator? with
    | some operator => operatorClause inner start (.identifier name) operator
    | none => functionClause inner start name

def parenthesizedOperatorFollows : Parse Bool := do
  if (← peek 1).isVariableOperator then return (← peek 2) = .closeParen else return false

def patternDecl (inner : Level) (start : Span) : Parse Decl := do
  let pattern ← inner.pattern
  declAfterPattern inner start pattern

/-- A declaration that starts with neither a separator nor a keyword. -/
def bindingDecl (inner : Level) : Parse Decl := do
  let start ← aheadSpan
  match ← ahead with
  | .identifier =>
      let name ← variableIdentifier
      declAfterName inner start name
  | .openParen =>
      if ← parenthesizedOperatorFollows then
        let name ← parenthesizedSymbol variableSymbol
        declAfterName inner start name
      else patternDecl inner start
  | _ => patternDecl inner start

def decl (inner : Level) : Parse Decl := do
  match ← ahead with
  | .semicolon => return .empty (← aheadSpan)
  | .kwFixity | .kwFixityLeft | .kwFixityRight => fixityDecl
  | _ => bindingDecl inner

end Offside.Haskell.Grammar
