import Offside.Haskell.Grammar.Level

/-!
Types. Arrows associate to the right. What stands before a double arrow is read as a type and becomes
the context of the type after it.
-/

namespace Offside.Haskell.Grammar

set_option autoImplicit false

open Offside.Parse

def arrowConstructor (start : Span) : Parse TypeTerm := do
  skipAll .comma
  let _ ← accept .arrow
  let _ ← expectOrSkipTo .closeParen
  return .constructor (.special (← spanFrom start))

/-- A type in parentheses, or the unit type, a tuple type, or a type constructor made of arrows and
commas alone. -/
def parenthesizedType (inner : Level) : Parse TypeTerm := do
  let start ← aheadSpan
  consume
  if ← accept .closeParen then return .unit (← spanFrom start)
  else if (← isAt .arrow) || (← isAt .comma) then arrowConstructor start
  else
    let first ← inner.type
    if ← isAt .comma then
      let later ← many (accept .comma) inner.type
      let _ ← expectOrSkipTo .closeParen
      return .tuple (first :: later) (← spanFrom start)
    else
      let _ ← expectOrSkipTo .closeParen
      return first

def listType (inner : Level) : Parse TypeTerm := do
  let start ← aheadSpan
  consume
  if ← accept .closeBracket then return .constructor (.special (← spanFrom start))
  else
    let element ← inner.type
    let _ ← expectOrSkipTo .closeBracket
    return .list element (← spanFrom start)

def startsTypeAtom : Token → Bool
  | .properIdentifier | .identifier | .openParen | .openBracket => true
  | _ => false

def typeAtom (inner : Level) : Parse TypeTerm := do
  match ← ahead with
  | .properIdentifier => return .constructor (← qualifiedIdentifier)
  | .identifier => return .typeVariable (← variableIdentifier)
  | .openParen => parenthesizedType inner
  | .openBracket => listType inner
  | _ => return .error (← reject)

def typeApplication (inner : Level) : Parse TypeTerm := do
  let start ← aheadSpan
  let head ← typeAtom inner
  let arguments ← many (return startsTypeAtom (← ahead)) (typeAtom inner)
  if arguments.isEmpty then return head
  else return .application head arguments (← spanFrom start)

/-- Parameters and a result, joined from the right. -/
def arrows : TypeTerm → List TypeTerm → Parse TypeTerm
  | first, [] => return first
  | first, next :: later => do
      let result ← arrows next later
      return .function first result (← join first.span result.span)

def functionType (inner : Level) : Parse TypeTerm := do
  let first ← typeApplication inner
  let later ← many (accept .arrow) (typeApplication inner)
  arrows first later

def typeProduction (inner : Level) : Parse TypeTerm := do
  let start ← aheadSpan
  let type ← functionType inner
  if ← accept .doubleArrow then
    let body ← functionType inner
    return .constrained type body (← spanFrom start)
  else return type

end Offside.Haskell.Grammar
