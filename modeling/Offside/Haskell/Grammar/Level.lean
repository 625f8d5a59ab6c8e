import Offside.Haskell.Grammar.Names

/-!
Nesting levels. A construct that may contain itself does so only through the productions of the next
level, each of which enters a nesting level and leaves it again. The grammar is therefore no recursion
but a tower of levels, and its height is the nesting limit.
-/

namespace Offside.Haskell.Grammar

set_option autoImplicit false

open Offside.Parse

structure Level where
  expression : Parse Expr
  pattern : Parse Expr
  type : Parse TypeTerm
  expressionAtom : Parse Expr
  patternAtom : Parse Expr
  parentheses : Parse Expr
  brackets : Parse Expr
  declBlock : Parse (List Decl)
  alternativeBlock : Parse (List Alternative)
  statementBlock : Parse (List Statement)

/-- The level above the limit, where everything is refused. -/
def Level.refusal : Level where
  expression := refuse .error
  pattern := refuse .error
  type := refuse .error
  expressionAtom := refuse .error
  patternAtom := refuse .error
  parentheses := refuse .error
  brackets := refuse .error
  declBlock := refuse fun _ => []
  alternativeBlock := refuse fun _ => []
  statementBlock := refuse fun _ => []

def closesOperand : Token → Bool
  | .semicolon | .closeBrace | .closeParen | .closeBracket | .comma | .kwThen | .kwElse | .kwOf
  | .kwIn | .kwWhere | .endOfInput => true
  | _ => false

/-- Reports the token found where an operand was due and returns its span. A token that the construct
around it waits for stays in place. -/
def reject : Parse Span := do
  let span ← aheadSpan
  if closesOperand (← ahead) then reportUnexpected else fail
  return span

/-- The separators after an item of a block. Tokens the item left over are reported once and skipped,
so that one malformed item does not take its neighbours along. -/
def endOfItem : Parse Unit := do
  match ← ahead with
  | .semicolon | .closeBrace | .endOfInput => pure ()
  | _ =>
      reportUnexpected
      skipToAny [.semicolon, .closeBrace]
  skipAll .semicolon

def itemFollows : Parse Bool := do
  match ← ahead with
  | .closeBrace | .endOfInput => return false
  | _ => return true

def itemThenEnd {α : Type} (item : Parse α) : Parse α := do
  let value ← item
  endOfItem
  return value

/-- Items between braces, whether these were written or come from layout. -/
def block {α : Type} (item : Parse α) : Parse (List α) := do
  if ← expect .openBrace then
    let items ← many itemFollows (itemThenEnd item)
    let _ ← expectOrSkipTo .closeBrace
    return items
  else return []

end Offside.Haskell.Grammar
