import Offside.Source.Span

/-!
Diagnostics: what is wrong with a source text and where. Reading never stops at one, it reports the
problem and goes on.
-/

namespace Offside

set_option autoImplicit false

inductive Problem where
  /-- A token that no rule can use at its place. -/
  | unexpectedToken
  /-- A literal or block comment cut off by the end of its line or of the text. -/
  | unterminatedLiteral
  /-- A line that returns to a width at which no block is open. -/
  | inconsistentIndentation
  /-- A character that starts no token. -/
  | unexpectedCharacter
  /-- A radix announced without digits after it. -/
  | malformedNumber
  /-- Constructs nested beyond the limit. -/
  | nestingTooDeep
deriving DecidableEq, Repr

namespace Problem

def all : List Problem :=
  [.unexpectedToken, .unterminatedLiteral, .inconsistentIndentation, .unexpectedCharacter,
   .malformedNumber, .nestingTooDeep]

def tag : Problem → String
  | .unexpectedToken => "unexpected_token"
  | .unterminatedLiteral => "unterminated_literal"
  | .inconsistentIndentation => "inconsistent_indentation"
  | .unexpectedCharacter => "unexpected_character"
  | .malformedNumber => "malformed_number"
  | .nestingTooDeep => "nesting_too_deep"

def ofTag? (tag : String) : Option Problem := all.find? fun problem => problem.tag == tag

def message : Problem → String
  | .unexpectedToken => "unexpected token"
  | .unterminatedLiteral => "unterminated literal"
  | .inconsistentIndentation => "inconsistent indentation"
  | .unexpectedCharacter => "unexpected character"
  | .malformedNumber => "malformed number literal"
  | .nestingTooDeep => "nesting is too deep"

def code (problem : Problem) : String := "frontkit::" ++ problem.tag

def isLexical : Problem → Bool
  | .unterminatedLiteral | .inconsistentIndentation | .unexpectedCharacter | .malformedNumber =>
      true
  | .unexpectedToken | .nestingTooDeep => false

end Problem

structure Diagnostic where
  problem : Problem
  span : Span
deriving DecidableEq, Repr

def Diagnostic.render (diagnostic : Diagnostic) : String :=
  diagnostic.span.render ++ ": " ++ diagnostic.problem.message

end Offside
