import Offside.Haskell.Grammar.Declarations
import Offside.Haskell.Grammar.Types

/-!
Expressions. Operator chains lean to the left whatever the fixities. Patterns may stand wherever an
expression may, since the left of a bind is read as an expression first.

A qualified operator looks like an argument until its last token. An application that meets one
returns it beside its value, for the chain around to go on with.
-/

namespace Offside.Haskell.Grammar

set_option autoImplicit false

open Offside.Parse

/-- An operand, with the operator that was read past its end if any. -/
abbrev Operand : Type := Expr × Option Name

def startsAtom : Token → Bool
  | .identifier | .properIdentifier | .underscore | .openParen | .openBracket | .integer | .float
  | .string | .character => true
  | _ => false

def atom (inner : Level) : Parse Expr := do
  match ← ahead with
  | .identifier => variableOrAlias inner.expressionAtom
  | .properIdentifier => return .identifier (← qualifiedIdentifier)
  | .underscore => wildcard
  | .tilde => lazyPattern inner.expressionAtom
  | .integer | .float | .string | .character => literal
  | .openParen => inner.parentheses
  | .openBracket => inner.brackets
  | _ => return .error (← reject)

/-- An argument, or the operator that ends the arguments. -/
def argument (inner : Level) : Parse (Expr ⊕ Name) := do
  if ← isAt .properIdentifier then
    match ← qualifiedTerm with
    | .operand name => return .inl (.identifier name)
    | .operator name => return .inr name
  else return .inl (← atom inner)

def arguments (inner : Level) (start : Span) (function : Expr) : Parse Operand := do
  let (arguments, operator) ← repeatUntil (return startsAtom (← ahead)) (argument inner)
  match arguments.getLast? with
  | none => return (function, operator)
  | some last => return (.application function arguments (← join start last.span), operator)

def application (inner : Level) : Parse Operand := do
  let start ← aheadSpan
  let function ← atom inner
  arguments inner start function

def parameters (inner : Level) : Parse (List Expr) := do
  let parameters ← patternAtoms inner
  if parameters.isEmpty then reportUnexpected
  return parameters

def lambda (inner : Level) : Parse Expr := do
  let start ← aheadSpan
  consume
  let parameters ← parameters inner
  let _ ← expect .arrow
  let body ← inner.expression
  return .lambda parameters body (← spanFrom start)

def letExpression (inner : Level) : Parse Expr := do
  let start ← aheadSpan
  consume
  let decls ← inner.declBlock
  let _ ← expect .kwIn
  let body ← inner.expression
  return .letIn decls body (← spanFrom start)

/-- A branch of a conditional. Inside a block a separator may stand before its keyword. -/
def branch (inner : Level) (keyword : Token) : Parse Expr := do
  let _ ← accept .semicolon
  let _ ← expect keyword
  inner.expression

def conditional (inner : Level) : Parse Expr := do
  let start ← aheadSpan
  consume
  let condition ← inner.expression
  let thenBranch ← branch inner .kwThen
  let elseBranch ← branch inner .kwElse
  return .conditional condition thenBranch elseBranch (← spanFrom start)

def caseExpression (inner : Level) : Parse Expr := do
  let start ← aheadSpan
  consume
  let scrutinee ← inner.expression
  let _ ← expect .kwOf
  let alternatives ← inner.alternativeBlock
  return .caseOf scrutinee alternatives (← spanFrom start)

def doExpression (inner : Level) : Parse Expr := do
  let start ← aheadSpan
  consume
  let statements ← inner.statementBlock
  return .doBlock statements (← spanFrom start)

def operand (inner : Level) : Parse Operand := do
  match ← ahead with
  | .backslash => return (← lambda inner, none)
  | .kwLet => return (← letExpression inner, none)
  | .kwIf => return (← conditional inner, none)
  | .kwCase => return (← caseExpression inner, none)
  | .kwDo => return (← doExpression inner, none)
  | _ => application inner

def signedOperand (inner : Level) : Parse Operand := do
  if ← isAt .minus then
    let start ← aheadSpan
    consume
    let (value, operator) ← operand inner
    return (.negation value (← join start value.span), operator)
  else operand inner

/-- The operator read past an operand, or the next one. -/
def pendingOperator : Option Name → Parse (Option Name)
  | some name => return some name
  | none => operator?

/-- What a chain still has before it: the tokens, and the operator read past the last operand. -/
def chainRemaining (pending : Option Name) (parser : Parser) : Nat :=
  2 * parser.remaining + pending.isSome.toNat

/-- Goes on with an operator chain after an operand. Where a section may end, an operator right before
the closing parenthesis ends the chain and is returned beside it. The bound is what remained before
the operator. -/
def chainBelow (inner : Level) (inSection : Bool) (start : Span) (bound : Nat) (left : Expr)
    (pending : Option Name) (parser : Parser) : Operand × Parser :=
  match pendingOperator pending parser with
  | (none, stopped) => ((left, none), stopped)
  | (some operator, going) =>
      if inSection && going.ahead = .closeParen then ((left, some operator), going)
      else
        let ((right, next), after) := signedOperand inner going
        let (span, joined) := join start right.span after
        let chain := Expr.binary left operator right span
        if chainRemaining next joined < bound then
          chainBelow inner inSection start (chainRemaining next joined) chain next joined
        else ((chain, next), joined.raise .stalled)
termination_by bound

def chainFrom (inner : Level) (inSection : Bool) (start : Span) (left : Expr)
    (pending : Option Name) : Parse Operand := fun parser =>
  chainBelow inner inSection start (chainRemaining pending parser) left pending parser

def chain (inner : Level) : Parse Expr := do
  let start ← aheadSpan
  let (first, pending) ← signedOperand inner
  let (value, _) ← chainFrom inner false start first pending
  return value

def annotated (inner : Level) (start : Span) (expr : Expr) : Parse Expr := do
  if ← accept .doubleColon then
    let type ← inner.type
    return .annotated expr type (← spanFrom start)
  else return expr

def expressionProduction (inner : Level) : Parse Expr := do
  let start ← aheadSpan
  let expr ← chain inner
  annotated inner start expr

def alternative (inner : Level) : Parse Alternative := do
  let start ← aheadSpan
  let pattern ← inner.pattern
  let body ← rightSide inner .arrow
  return { pattern, rightSide := body, span := (← spanFrom start) }

def statement (inner : Level) : Parse Statement := do
  let start ← aheadSpan
  if ← accept .kwLet then
    let decls ← inner.declBlock
    if ← accept .kwIn then
      let body ← inner.expression
      return .expression (.letIn decls body (← spanFrom start))
    else return .letDecls decls (← spanFrom start)
  else
    let expr ← inner.expression
    if ← accept .leftArrow then
      let source ← inner.expression
      return .bind expr source (← spanFrom start)
    else return .expression expr

/-- What follows an operator after an opening parenthesis: the operator alone, or a section. -/
def afterLeadingOperator (inner : Level) (start : Span) (operator : Name) : Parse Expr := do
  if ← accept .closeParen then return .identifier operator
  else
    let operand ← chain inner
    let _ ← expectOrSkipTo .closeParen
    return .rightSection operator operand (← spanFrom start)

/-- An operator follows an opening parenthesis. A minus sign is one only when it stands alone. -/
def operatorLeads : Parse Bool := do
  let token ← ahead
  if token.isConstructorOperator ∨ token = .backtick then return true
  else if token = .minus then return (← peek 1) = .closeParen
  else return token.isVariableOperator

/-- What follows the first operand after an opening parenthesis: a section, a tuple, or the closing
parenthesis. -/
def afterFirstOperand (inner : Level) (start firstStart : Span) (first : Operand) :
    Parse Expr := do
  let (value, dangling) ← chainFrom inner true firstStart first.1 first.2
  match dangling with
  | some operator =>
      consume
      return .leftSection value operator (← spanFrom start)
  | none =>
      let element ← annotated inner firstStart value
      enclosed inner.expression start element

def parentheses (inner : Level) : Parse Expr := do
  let start ← aheadSpan
  consume
  if ← accept .closeParen then return .unit (← spanFrom start)
  else if ← isAt .comma then tupleConstructor start
  else if ← operatorLeads then
    match ← operator? with
    | some operator => afterLeadingOperator inner start operator
    | none => return .error (← reject)
  else
    let firstStart ← aheadSpan
    if ← isAt .properIdentifier then
      match ← qualifiedTerm with
      | .operator operator => afterLeadingOperator inner start operator
      | .operand name =>
          let first ← arguments inner firstStart (.identifier name)
          afterFirstOperand inner start firstStart first
    else
      let first ← signedOperand inner
      afterFirstOperand inner start firstStart first

def lastElement? (inner : Level) : Parse (Option Expr) := do
  if ← isAt .closeBracket then return none else some <$> inner.expression

def sequenceEnd (inner : Level) (start : Span) (first : Expr) (second : Option Expr) :
    Parse Expr := do
  let last ← lastElement? inner
  let _ ← expectOrSkipTo .closeBracket
  return .sequence first second last (← spanFrom start)

def comprehensionEnd (inner : Level) (start : Span) (element : Expr) : Parse Expr := do
  let qualifiers ← separated .comma (statement inner)
  let _ ← expectOrSkipTo .closeBracket
  return .comprehension element qualifiers (← spanFrom start)

def brackets (inner : Level) : Parse Expr := do
  let start ← aheadSpan
  consume
  if ← accept .closeBracket then return .list [] (← spanFrom start)
  else
    let first ← inner.expression
    if ← accept .doubleDot then sequenceEnd inner start first none
    else if ← accept .pipe then comprehensionEnd inner start first
    else if ← accept .comma then
      let second ← inner.expression
      if ← accept .doubleDot then sequenceEnd inner start first (some second)
      else
        let later ← many (accept .comma) inner.expression
        listEnd start (first :: second :: later)
    else listEnd start [first]

end Offside.Haskell.Grammar
