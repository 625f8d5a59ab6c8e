import Offside.Parser.Parse

/-!
Names. Where a name is missing, the token found in its place is reported and an error stands for it.

A qualified name is read from separate tokens. A dot qualifies only when it touches both its
neighbours, so a composition with blanks around its dot stays one. Operators may be qualified too.
-/

namespace Offside.Haskell.Grammar

set_option autoImplicit false

open Offside.Parse

def nameAt (token : Token) : Parse Name := do
  let span ← aheadSpan
  if ← expect token then return .simple span else return .error span

def variableIdentifier : Parse Name := nameAt .identifier

def properIdentifier : Parse Name := nameAt .properIdentifier

def variableSymbol : Parse Name := do
  let span ← aheadSpan
  if (← ahead).isVariableOperator then
    consume
    return .operator span
  else
    fail
    return .error span

def constructorSymbol : Parse Name := do
  let span ← aheadSpan
  if (← ahead).isConstructorOperator then
    consume
    return .special span
  else
    fail
    return .error span

def symbol : Parse Name := do
  if (← ahead).isConstructorOperator then constructorSymbol else variableSymbol

/-- A proper identifier with a dot and something to qualify after it, all touching. -/
def qualifierFollows : Parse Bool := do
  if !(← isAt .properIdentifier) then return false
  else if (← peek 1) != .dot then return false
  else
    let last ← peek 2
    if last = .identifier ∨ last = .properIdentifier ∨ last.isOperator then
      let first ← aheadSpan
      let dot ← peekSpan 1
      let final ← peekSpan 2
      return first.stop = dot.start ∧ dot.stop = final.start
    else return false

def qualifier : Parse Name := do
  let span ← aheadSpan
  consume
  consume
  return .simple span

def ofSegments (segments : List Name) : Parse Name := orRaise (Name.ofSegments segments)

def qualifiedBy (last : Parse Name) : Parse Name := do
  let qualifiers ← many qualifierFollows qualifier
  let name ← last
  ofSegments (qualifiers ++ [name])

def eitherIdentifier : Parse Name := do
  if ← isAt .identifier then variableIdentifier else properIdentifier

def qualifiedIdentifier : Parse Name := qualifiedBy eitherIdentifier

def parenthesizedSymbol (last : Parse Name) : Parse Name := do
  consume
  let name ← qualifiedBy last
  let _ ← expectOrSkipTo .closeParen
  return name

def variableName : Parse Name := do
  if ← isAt .openParen then parenthesizedSymbol variableSymbol else variableIdentifier

def variableOrConstructor : Parse Name := do
  match ← ahead with
  | .openParen => parenthesizedSymbol symbol
  | .properIdentifier => properIdentifier
  | _ => variableIdentifier

/-- The name of a module: proper identifiers with dots between them, blanks allowed. -/
def moduleName : Parse Name := do
  let first ← properIdentifier
  let later ← many
    (do if ← isAt .dot then return (← peek 1) = .properIdentifier else return false)
    (do consume; properIdentifier)
  ofSegments (first :: later)

inductive Term where
  | operand (name : Name)
  | operator (name : Name)

/-- A possibly qualified name that turns out to be an operator when a symbol ends it. -/
def qualifiedTerm : Parse Term := do
  let qualifiers ← many qualifierFollows qualifier
  if (← ahead).isOperator then
    let name ← symbol
    return .operator (← ofSegments (qualifiers ++ [name]))
  else
    let name ← eitherIdentifier
    return .operand (← ofSegments (qualifiers ++ [name]))

def qualifiedSymbolFollows (isKind : Token → Bool) : Parse Bool := do
  if ← qualifierFollows then return isKind (← peek 2) else return false

def quotedOperator : Parse Name := do
  consume
  let name ← qualifiedIdentifier
  let _ ← expectOrSkipTo .backtick
  return name

def operator? : Parse (Option Name) := do
  let token ← ahead
  if token.isOperator then return some (← symbol)
  else if ← qualifiedSymbolFollows Token.isOperator then return some (← qualifiedBy symbol)
  else if token = .backtick then return some (← quotedOperator)
  else return none

def quotedFollows (token : Token) : Parse Bool := do
  if ← isAt .backtick then return (← peek 1) = token else return false

def variableOperator? : Parse (Option Name) := do
  if (← ahead).isVariableOperator then return some (← variableSymbol)
  else if ← quotedFollows .identifier then return some (← quotedOperator)
  else return none

def constructorOperator? : Parse (Option Name) := do
  if (← ahead).isConstructorOperator then return some (← constructorSymbol)
  else if ← qualifiedSymbolFollows Token.isConstructorOperator then
    return some (← qualifiedBy constructorSymbol)
  else if ← quotedFollows .properIdentifier then return some (← quotedOperator)
  else return none

end Offside.Haskell.Grammar
