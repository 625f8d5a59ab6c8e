import Offside.Context
import Offside.Lexical.TokenStream

/-!
The state of a parser over a token stream: one token of lookahead, up to three more that were peeked
at, and the context that collects diagnostics and lexemes. The effects of reading a token reach the
context when the token is pulled from the stream, which peeking may do early. Comments are pulled and
dropped.

A fault is kept, the first one alone, and parsing goes on; whoever runs a parser looks for it at the
end.
-/

namespace Offside

set_option autoImplicit false

open Offside.Lexical

structure Parser where
  /-- What was not yet pulled. -/
  input : TokenStream
  context : Context
  ahead : Token
  aheadSpan : Span
  /-- Tokens pulled by peeking, next first. -/
  buffered : List (Token × Span)
  /-- The last consumed token of some width. -/
  previous : Span
  /-- Nesting levels entered and not left. -/
  depth : Nat
  consumed : Nat
  /-- How many tokens had been consumed when the lookahead was last reported. -/
  reportedAt : Option Nat
  fault : Option Fault

namespace Parser

/-- How far past the lookahead a grammar may peek. -/
def reach : Nat := 3

/-- How many nesting levels may be entered. -/
def nestingLimit : Nat := 64

def raise (parser : Parser) (fault : Fault) : Parser :=
  { parser with fault := parser.fault <|> some fault }

/-- The next token that is no comment, the stream after it and the context with what was read. -/
def pullFrom (stream : TokenStream) (context : Context) :
    (Token × Span) × TokenStream × Context :=
  let next := stream.afterComments.next
  ((next.1.token, next.1.span), next.2, (context.absorbAll stream.comments).absorb next.1)

def pull (parser : Parser) : (Token × Span) × Parser :=
  let pulled := pullFrom parser.input parser.context
  (pulled.1, { parser with input := pulled.2.1, context := pulled.2.2 })

def start (stream : TokenStream) (context : Context) : Parser :=
  let pulled := pullFrom stream context
  { input := pulled.2.1
    context := pulled.2.2
    ahead := pulled.1.1
    aheadSpan := pulled.1.2
    buffered := []
    previous := .zero
    depth := 0
    consumed := 0
    reportedAt := none
    fault := none }

def isAtEnd (parser : Parser) : Bool := parser.ahead = .endOfInput

def consume (parser : Parser) : Parser :=
  let passed :=
    { parser with
      previous := if parser.aheadSpan.isPoint then parser.previous else parser.aheadSpan
      consumed := parser.consumed + 1 }
  match parser.buffered with
  | (token, span) :: later => { passed with ahead := token, aheadSpan := span, buffered := later }
  | [] =>
      let pulled := passed.pull
      { pulled.2 with ahead := pulled.1.1, aheadSpan := pulled.1.2 }

def fill : Nat → Parser → Parser
  | 0, parser => parser
  | count + 1, parser =>
      let pulled := parser.pull
      fill count { pulled.2 with buffered := pulled.2.buffered ++ [pulled.1] }

def peek (distance : Nat) (parser : Parser) : (Token × Span) × Parser :=
  if 1 ≤ distance ∧ distance ≤ reach then
    let filled := parser.fill (distance - parser.buffered.length)
    (filled.buffered.getD (distance - 1) (.endOfInput, filled.aheadSpan), filled)
  else ((.endOfInput, parser.aheadSpan), parser.raise (.peekOutOfReach distance))

/-- The end of input was reported before, under the name of a token at the same place. -/
def endAlreadyReported (parser : Parser) : Bool :=
  parser.isAtEnd &&
    parser.context.diagnostics.back? == some ⟨.unexpectedToken, parser.aheadSpan⟩

/-- Reports the lookahead as unexpected, once. -/
def reportUnexpected (parser : Parser) : Parser :=
  if parser.reportedAt = some parser.consumed ∨ parser.endAlreadyReported then parser
  else
    { parser with
      reportedAt := some parser.consumed
      context := parser.context.report .unexpectedToken parser.aheadSpan }

def consumeInner (parser : Parser) : Parser :=
  if parser.isAtEnd then parser else parser.consume

def fail (parser : Parser) : Parser := parser.reportUnexpected.consumeInner

def refuseNesting (parser : Parser) : Span × Parser :=
  let reported :=
    { parser with context := parser.context.report .nestingTooDeep parser.aheadSpan }
  (parser.aheadSpan, reported.consumeInner)

/-- Enters a nesting level; beyond the limit the span of the lookahead is returned instead. -/
def enterNesting (parser : Parser) : Option Span × Parser :=
  if parser.depth < nestingLimit then (none, { parser with depth := parser.depth + 1 })
  else
    let (span, refused) := parser.refuseNesting
    (some span, refused)

def leaveNesting (parser : Parser) : Parser :=
  if 0 < parser.depth then { parser with depth := parser.depth - 1 }
  else parser.raise .leaveWithoutEnter

/-- From the start of a span to the end of the last token consumed, or the span itself if nothing
after it was consumed. -/
def spanFrom (parser : Parser) (start : Span) : Span :=
  if parser.previous.file = start.file ∧ start.stop ≤ parser.previous.stop then
    start.through parser.previous
  else start

def isAtWord (parser : Parser) (word : String) : Bool :=
  parser.ahead = .identifier && parser.context.identifierAt parser.aheadSpan == some word

def isInner (token : Token) : Bool := token != .endOfInput

/-- A bound on the tokens still to be consumed before the stream ends for good. -/
def remaining (parser : Parser) : Nat :=
  (isInner parser.ahead).toNat + parser.buffered.countP (fun next => isInner next.1) +
    parser.input.size

theorem pullFrom_size (stream : TokenStream) (context : Context) :
    (isInner (pullFrom stream context).1.1).toNat + (pullFrom stream context).2.1.size ≤
      stream.size := by
  have skipped := stream.size_drop_le stream.comments.length
  change (isInner stream.afterComments.next.1.token).toNat + stream.afterComments.next.2.size ≤ _
  cases inner : isInner stream.afterComments.next.1.token with
  | false =>
      have taken := stream.afterComments.size_next_le
      rw [Bool.toNat_false, Nat.zero_add]
      exact Nat.le_trans taken skipped
  | true =>
      have taken := stream.afterComments.size_next (by
        simpa [isInner, Lexed.isFinal] using inner)
      rw [Bool.toNat_true, Nat.add_comm]
      exact Nat.le_trans taken skipped

theorem remaining_consume_lt {parser : Parser} (inner : parser.isAtEnd = false) :
    parser.consume.remaining < parser.remaining := by
  have ahead : isInner parser.ahead = true := by
    simpa [isInner, isAtEnd] using inner
  cases found : parser.buffered with
  | nil =>
      have pulled := pullFrom_size parser.input parser.context
      simp only [consume, remaining, pull, found, ahead, List.countP_nil, Bool.toNat_true]
      omega
  | cons next later =>
      simp only [consume, remaining, found, ahead, List.countP_cons, Bool.toNat_true]
      cases isInner next.1 with
      | false =>
          simp only [Bool.toNat_false, Bool.false_eq_true, if_false]
          omega
      | true =>
          simp only [Bool.toNat_true, if_true]
          omega

def skipTo (token : Token) (parser : Parser) : Parser :=
  if ended : parser.isAtEnd = true then parser
  else if parser.ahead = token then parser
  else
    have fewer := remaining_consume_lt (by simpa using ended)
    parser.consume.skipTo token
termination_by parser.remaining

def braceDepthAfter (depth : Nat) : Token → Nat
  | .openBrace => depth + 1
  | .closeBrace => depth - 1
  | _ => depth

/-- Consumes tokens up to one of the given ones or the end of input, braced blocks being passed over
whole. -/
def skipToAny (tokens : List Token) (depth : Nat) (parser : Parser) : Parser :=
  if ended : parser.isAtEnd = true then parser
  else if depth = 0 ∧ tokens.contains parser.ahead then parser
  else
    have fewer := remaining_consume_lt (by simpa using ended)
    parser.consume.skipToAny tokens (braceDepthAfter depth parser.ahead)
termination_by parser.remaining

def skipAll (token : Token) (parser : Parser) : Parser :=
  if ended : parser.isAtEnd = true then parser
  else if parser.ahead = token then
    have fewer := remaining_consume_lt (by simpa using ended)
    parser.consume.skipAll token
  else parser
termination_by parser.remaining

def describe (parser : Parser) : String :=
  s!"Parser \x7b ahead: {parser.ahead.tag}, ahead_loc: {describeSpan parser.aheadSpan}, " ++
    s!"prev_loc: {describeSpan parser.previous}, .. \x7d"
where
  describePosition (place : Position) : String :=
    s!"LineCol \x7b line: {place.line}, col: {place.column} \x7d"
  describeSpan (span : Span) : String :=
    s!"SourceLoc \x7b file: FileId({span.file.number}), " ++
      s!"start: {describePosition span.start}, end: {describePosition span.stop} \x7d"

end Parser

end Offside
