import Offside.Parser.State

/-!
Productions: computations on the state of a parser that return a piece of a tree. Every production
returns, whatever it finds, and reports what it could not use.

Repetition is the only recursion here. It goes on while its item consumes tokens; an item that was
called for and consumed nothing is a fault, which no grammar of this library commits.
-/

namespace Offside

set_option autoImplicit false

abbrev Parse (α : Type) : Type := StateM Parser α

namespace Parse

def ahead : Parse Token := return (← get).ahead

def aheadSpan : Parse Span := return (← get).aheadSpan

def isAt (token : Token) : Parse Bool := return (← get).ahead = token

def isAtEnd : Parse Bool := return (← get).isAtEnd

def consume : Parse Unit := modify Parser.consume

def peek (distance : Nat) : Parse Token := do
  let next ← modifyGet (Parser.peek distance)
  return next.1

def peekSpan (distance : Nat) : Parse Span := do
  let next ← modifyGet (Parser.peek distance)
  return next.2

def raise (fault : Fault) : Parse Unit := modify (Parser.raise · fault)

/-- The value, or a fault and a stand-in. -/
def orRaise {α : Type} [Inhabited α] : Except Fault α → Parse α
  | .ok value => return value
  | .error fault => do
      raise fault
      return default

def reportUnexpected : Parse Unit := modify Parser.reportUnexpected

def fail : Parse Unit := modify Parser.fail

/-- Consumes the lookahead if it is the given token, and reports it and moves past it otherwise. -/
def expect (token : Token) : Parse Bool := do
  if token = .endOfInput then
    raise .matchEndOfInput
    return false
  else if ← isAt token then
    consume
    return true
  else
    fail
    return false

def accept (token : Token) : Parse Bool := do
  if token = .endOfInput then
    raise .consumeEndOfInput
    return false
  else if ← isAt token then
    consume
    return true
  else return false

def skipTo (token : Token) : Parse Unit := modify (Parser.skipTo token)

def skipToAny (tokens : List Token) : Parse Unit := modify (Parser.skipToAny tokens 0)

def skipAll (token : Token) : Parse Unit := modify (Parser.skipAll token)

/-- Like `expect`, but on a mismatch goes on to the next copy of the token and consumes that. -/
def expectOrSkipTo (token : Token) : Parse Bool := do
  if ← expect token then return true
  else if token = .endOfInput then return false
  else
    skipTo token
    let _ ← accept token
    return false

def enterNesting : Parse (Option Span) := modifyGet Parser.enterNesting

def leaveNesting : Parse Unit := modify Parser.leaveNesting

/-- Runs a production one nesting level deeper, or returns what stands for a refusal. -/
def nested {α : Type} (refused : Span → α) (production : Parse α) : Parse α := do
  match ← enterNesting with
  | some span => return refused span
  | none =>
      let result ← production
      leaveNesting
      return result

def refuse {α : Type} (refused : Span → α) : Parse α := refused <$> modifyGet Parser.refuseNesting

def spanFrom (start : Span) : Parse Span := return (← get).spanFrom start

def join (first last : Span) : Parse Span := orRaise (first.join last)

def isAtWord (word : String) : Parse Bool := return (← get).isAtWord word

def acceptWord (word : String) : Parse Bool := do
  if ← isAtWord word then
    consume
    return true
  else return false

/-- Runs an item for as long as more is asked for and the item is not a last one. The bound is what
remained before the item. -/
def repeatBelow {α β : Type} (more : Parse Bool) (item : Parse (α ⊕ β)) (bound : Nat)
    (parser : Parser) : (List α × Option β) × Parser :=
  match more parser with
  | (false, stopped) => (([], none), stopped)
  | (true, going) =>
      match item going with
      | (.inr last, after) => (([], some last), after)
      | (.inl value, after) =>
          if after.remaining < bound then
            let ((values, last), final) := repeatBelow more item after.remaining after
            ((value :: values, last), final)
          else (([value], none), after.raise .stalled)
termination_by bound

def repeatUntil {α β : Type} (more : Parse Bool) (item : Parse (α ⊕ β)) :
    Parse (List α × Option β) := fun parser =>
  repeatBelow more item parser.remaining parser

def many {α : Type} (more : Parse Bool) (item : Parse α) : Parse (List α) := do
  let (values, _) ← @repeatUntil α Empty more (Sum.inl <$> item)
  return values

def separated {α : Type} (separator : Token) (item : Parse α) : Parse (List α) := do
  let first ← item
  let later ← many (accept separator) item
  return first :: later

end Parse

end Offside
