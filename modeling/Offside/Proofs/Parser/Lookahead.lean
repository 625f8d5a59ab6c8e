import Mathlib.Data.Stream.Init
import Mathlib.Logic.Function.Iterate
import Offside.Proofs.Parser.Ends

/-!
Lookahead is transparent. A grammar drives the parser through a dozen operations, some of which pull
tokens early and put them by. In whatever order they are called, what was consumed, the lookahead, the
tokens that were put by and what was not yet pulled make up the stream as it came, without its
comments, and a peek tells what consuming would bring.

A stream is read here as the infinite stream that it stands for, which ends in the end of input for
ever.
-/

namespace Offside

set_option autoImplicit false

open Offside.Lexical

def Lexical.TokenStream.shows (stream : TokenStream) : Stream' (Token × Span) :=
  stream.visible ++ₛ Stream'.const (.endOfInput, stream.finish)

namespace Parser

/-- What a parser will have for its lookahead, now and each time it consumes. -/
def upcoming (parser : Parser) : Stream' (Token × Span) :=
  ((parser.ahead, parser.aheadSpan) :: parser.buffered) ++ₛ parser.input.shows

/-- With no token left, the end of input is found where the stream finishes. -/
theorem pullFrom_of_hidden {stream : TokenStream} (hidden : stream.visible = [])
    (context : Context) : (pullFrom stream context).1 = (.endOfInput, stream.finish) := by
  unfold pullFrom TokenStream.next
  cases found : stream.afterComments.items with
  | nil => rfl
  | cons item later =>
    have written := List.head?_dropWhile_not Lexed.isComment stream.items
    rw [← stream.items_afterComments, found] at written
    rw [← stream.visible_afterComments, TokenStream.visible, found, List.map_eq_nil_iff,
      List.filter_eq_nil_iff] at hidden
    exact absurd written (by simpa using hidden item List.mem_cons_self)

theorem shows_pullFrom (stream : TokenStream) (context : Context) :
    stream.shows = Stream'.cons (pullFrom stream context).1 (pullFrom stream context).2.1.shows := by
  unfold TokenStream.shows
  rw [finish_pullFrom]
  rcases pullFrom_visible stream context with taken | ⟨hidden, -, after⟩
  · rw [taken, Stream'.cons_append_stream]
  · rw [hidden, after, pullFrom_of_hidden hidden, Stream'.nil_append_stream, ← Stream'.const_eq]

theorem upcoming_start (stream : TokenStream) (context : Context) :
    (start stream context).upcoming = stream.shows :=
  (shows_pullFrom stream context).symm

theorem upcoming_consume (parser : Parser) :
    parser.upcoming = Stream'.cons (parser.ahead, parser.aheadSpan) parser.consume.upcoming := by
  unfold upcoming consume
  rw [Stream'.cons_append_stream]
  cases parser.buffered with
  | nil =>
    rw [Stream'.nil_append_stream, shows_pullFrom parser.input parser.context]
    rfl
  | cons next later => rfl

theorem upcoming_fill (parser : Parser) : (parser.fill 1).upcoming = parser.upcoming := by
  unfold upcoming
  rw [shows_pullFrom parser.input parser.context, ← Stream'.nil_append_stream (Stream'.cons _ _)]
  simp only [fill, pull, Stream'.cons_append_stream, Stream'.append_append_stream,
    Stream'.nil_append_stream]

theorem upcoming_iterate (parser : Parser) (count : Nat) :
    (Parser.consume^[count] parser).upcoming = parser.upcoming.drop count := by
  induction count generalizing parser with
  | zero => rfl
  | succ count induction =>
    rw [Function.iterate_succ_apply, induction, upcoming_consume parser]
    rfl

theorem ahead_iterate (parser : Parser) (count : Nat) :
    ((Parser.consume^[count] parser).ahead, (Parser.consume^[count] parser).aheadSpan) =
      parser.upcoming.get count := by
  rw [← Stream'.head_drop, ← upcoming_iterate]
  rfl

theorem getD_buffered_eq {parser : Parser} {place : Nat} (near : place < parser.buffered.length)
    (other : Token × Span) : parser.buffered.getD place other = parser.upcoming.get (place + 1) := by
  rw [List.getD_eq_getElem?_getD, List.getElem?_eq_getElem near, upcoming,
    Stream'.get_append_left _ _ _ (by simpa using near)]
  rfl

/-- What is consumed between two states, each token as it stood when it was the lookahead. Consuming
is the one thing that passes a token; peeking puts tokens by as long as there is room, and everything
else that an operation does leaves the tokens alone. -/
inductive Passes : Parser → List (Token × Span) → Parser → Prop
  | refl (parser : Parser) : Passes parser [] parser
  | trans {first second third : Parser} {passed later : List (Token × Span)} :
      Passes first passed second → Passes second later third →
        Passes first (passed ++ later) third
  | consume (parser : Parser) :
      Passes parser [(parser.ahead, parser.aheadSpan)] parser.consume
  | putBy {parser : Parser} : parser.buffered.length < reach → Passes parser [] (parser.fill 1)
  | aside {parser : Parser} (context : Context) (depth : Nat) (reportedAt : Option Nat)
      (fault : Option Fault) : Passes parser [] { parser with context, depth, reportedAt, fault }

namespace Passes

variable {before after : Parser} {passed : List (Token × Span)}

/-- Nothing is lost, doubled or moved. -/
theorem upcoming (passes : Passes before passed after) :
    before.upcoming = passed ++ₛ after.upcoming := by
  induction passes with
  | refl parser => rfl
  | trans _ _ first second => rw [first, second, Stream'.append_append_stream]
  | consume parser => exact upcoming_consume parser
  | putBy _ => exact (upcoming_fill _).symm
  | aside context depth reportedAt fault => rfl

theorem consumed (passes : Passes before passed after) :
    after.consumed = before.consumed + passed.length := by
  induction passes with
  | refl parser => rfl
  | trans _ _ first second => rw [second, first, List.length_append, Nat.add_assoc]
  | consume parser => exact (consume_keeps parser).1
  | putBy _ => rfl
  | aside context depth reportedAt fault => rfl

theorem length_buffered_le (passes : Passes before passed after)
    (small : before.buffered.length ≤ reach) : after.buffered.length ≤ reach := by
  induction passes with
  | refl parser => exact small
  | trans _ _ first second => exact second (first small)
  | consume parser =>
    unfold Parser.consume
    cases found : parser.buffered with
    | nil =>
      simp [pull]
    | cons next later =>
      rw [found, List.length_cons] at small
      exact Nat.le_of_succ_le small
  | putBy room =>
    rw [length_buffered_fill]
    exact room
  | aside context depth reportedAt fault => exact small

theorem raise (parser : Parser) (fault : Fault) : Passes parser [] (parser.raise fault) :=
  aside parser.context parser.depth parser.reportedAt (parser.fault <|> some fault)

theorem report (parser : Parser) : Passes parser [] parser.reportUnexpected := by
  rcases reportUnexpected_cases parser with same | reported
  · rw [same]
    exact refl parser
  · rw [reported]
    exact aside _ parser.depth _ parser.fault

theorem leaveNesting (parser : Parser) : Passes parser [] parser.leaveNesting := by
  unfold Parser.leaveNesting
  split
  · exact aside parser.context _ parser.reportedAt parser.fault
  · exact raise parser .leaveWithoutEnter

theorem of_run {files : FileId → Prop} (run : Run files before passed after) :
    Passes before passed after := by
  induction run with
  | refl parser => exact refl parser
  | trans _ _ first second => exact first.trans second
  | consume _ => exact consume _
  | fill room => exact putBy room
  | report parser => exact report parser
  | consumeReporting _ =>
    exact (consume _).trans (aside _ _ _ _)
  | refuse _ => exact aside _ _ _ _
  | nested _ _ inside =>
    have entered := (aside _ _ _ _).trans inside
    simpa using entered.trans (leaveNesting _)
  | raise _ _ _ => exact raise _ _

theorem of_leads (leads : Leads (fun _ => True) before after) :
    ∃ passed, Passes before passed after := by
  obtain ⟨passed, run⟩ := leads
  exact ⟨passed, of_run run⟩

end Passes

inductive Operation
  | consume
  | peek (distance : Nat)
  | peekSpan (distance : Nat)
  | expect (token : Token)
  | accept (token : Token)
  | expectOrSkipTo (token : Token)
  | fail
  | reportUnexpected
  | skipTo (token : Token)
  | skipToAny (tokens : List Token)
  | enterNesting
  | leaveNesting

namespace Operation

def perform : Operation → Parser → Parser
  | consume, parser => (Parse.consume parser).2
  | peek distance, parser => (Parse.peek distance parser).2
  | peekSpan distance, parser => (Parse.peekSpan distance parser).2
  | expect token, parser => (Parse.expect token parser).2
  | accept token, parser => (Parse.accept token parser).2
  | expectOrSkipTo token, parser => (Parse.expectOrSkipTo token parser).2
  | fail, parser => (Parse.fail parser).2
  | reportUnexpected, parser => (Parse.reportUnexpected parser).2
  | skipTo token, parser => (Parse.skipTo token parser).2
  | skipToAny tokens, parser => (Parse.skipToAny tokens parser).2
  | enterNesting, parser => (Parse.enterNesting parser).2
  | leaveNesting, parser => (Parse.leaveNesting parser).2

/-- Peeks stay within reach, the end of input is not asked for as a token to consume, and only a level
that was entered is left. -/
def Legal : Operation → Parser → Prop
  | peek distance, _ | peekSpan distance, _ => 1 ≤ distance ∧ distance ≤ reach
  | expect token, _ | accept token, _ | expectOrSkipTo token, _ => token ≠ .endOfInput
  | leaveNesting, parser => 0 < parser.depth
  | _, _ => True

instance Legal.decidable : (operation : Operation) → (parser : Parser) →
    Decidable (operation.Legal parser)
  | peek distance, _ | peekSpan distance, _ =>
    inferInstanceAs (Decidable (1 ≤ distance ∧ distance ≤ reach))
  | expect token, _ | accept token, _ | expectOrSkipTo token, _ =>
    inferInstanceAs (Decidable (token ≠ .endOfInput))
  | leaveNesting, parser => inferInstanceAs (Decidable (0 < parser.depth))
  | consume, _ | fail, _ | reportUnexpected, _ | skipTo _, _ | skipToAny _, _
  | enterNesting, _ => isTrue trivial

theorem passes_accept {token : Token} (inner : token ≠ .endOfInput) (parser : Parser) :
    ∃ passed, Passes parser passed (Parse.accept token parser).2 := by
  rw [Parse.accept_apply inner]
  split
  · exact ⟨_, Passes.consume parser⟩
  · exact ⟨_, Passes.refl parser⟩

theorem passes_expect {token : Token} (inner : token ≠ .endOfInput) (parser : Parser) :
    ∃ passed, Passes parser passed (Parse.expect token parser).2 := by
  rw [Parse.expect_apply inner]
  split
  · exact ⟨_, Passes.consume parser⟩
  · exact Passes.of_leads (Leads.fail parser)

theorem passes_expectOrSkipTo {token : Token} (inner : token ≠ .endOfInput) (parser : Parser) :
    ∃ passed, Passes parser passed (Parse.expectOrSkipTo token parser).2 := by
  obtain ⟨passed, first⟩ := passes_expect inner parser
  unfold Parse.expectOrSkipTo
  rw [Parse.bind_apply]
  cases (Parse.expect token parser).1 with
  | true => exact ⟨passed, first⟩
  | false =>
    rw [if_neg Bool.false_ne_true, if_neg inner]
    obtain ⟨skipped, second⟩ :=
      Passes.of_leads (Leads.skipTo token (Parse.expect token parser).2)
    obtain ⟨taken, third⟩ := passes_accept inner ((Parse.expect token parser).2.skipTo token)
    exact ⟨_, (first.trans second).trans third⟩

theorem passes_enterNesting (parser : Parser) :
    ∃ passed, Passes parser passed parser.enterNesting.2 := by
  unfold Parser.enterNesting
  split
  · exact ⟨[], Passes.aside parser.context _ parser.reportedAt parser.fault⟩
  · obtain ⟨passed, moved⟩ := Passes.of_leads (Leads.consumeInner
      { parser with context := parser.context.report .nestingTooDeep parser.aheadSpan })
    exact ⟨passed, (Passes.aside _ parser.depth parser.reportedAt parser.fault).trans moved⟩

theorem passes {operation : Operation} {parser : Parser} (legal : operation.Legal parser) :
    ∃ passed, Passes parser passed (operation.perform parser) := by
  cases operation with
  | consume => exact ⟨_, Passes.consume parser⟩
  | peek distance | peekSpan distance => exact Passes.of_leads (Leads.peek legal.1 legal.2 parser)
  | expect token => exact passes_expect legal parser
  | accept token => exact passes_accept legal parser
  | expectOrSkipTo token => exact passes_expectOrSkipTo legal parser
  | fail => exact Passes.of_leads (Leads.fail parser)
  | reportUnexpected => exact ⟨[], Passes.report parser⟩
  | skipTo token => exact Passes.of_leads (Leads.skipTo token parser)
  | skipToAny tokens => exact Passes.of_leads (Leads.skipToAny tokens 0 parser)
  | enterNesting => exact passes_enterNesting parser
  | leaveNesting => exact ⟨[], Passes.leaveNesting parser⟩

end Operation

def performAll : List Operation → Parser → Parser
  | [], parser => parser
  | operation :: later, parser => performAll later (operation.perform parser)

/-- Each operation is legal when its turn comes. -/
def AllLegal : List Operation → Parser → Prop
  | [], _ => True
  | operation :: later, parser =>
    operation.Legal parser ∧ AllLegal later (operation.perform parser)

instance AllLegal.decidable : (operations : List Operation) → (parser : Parser) →
    Decidable (AllLegal operations parser)
  | [], _ => isTrue trivial
  | operation :: later, parser =>
    @instDecidableAnd _ _ _ (decidable later (operation.perform parser))

theorem passes_performAll {operations : List Operation} {parser : Parser}
    (legal : AllLegal operations parser) :
    ∃ passed, Passes parser passed (performAll operations parser) := by
  induction operations generalizing parser with
  | nil => exact ⟨[], Passes.refl parser⟩
  | cons operation later induction =>
    obtain ⟨passed, first⟩ := Operation.passes legal.1
    obtain ⟨further, second⟩ := induction legal.2
    exact ⟨passed ++ further, first.trans second⟩

theorem upcoming_fill_many (parser : Parser) (count : Nat) :
    (parser.fill count).upcoming = parser.upcoming := by
  induction count generalizing parser with
  | zero => rfl
  | succ count induction => exact (induction (parser.fill 1)).trans (upcoming_fill parser)

/-- A peek within reach finds what would be the lookahead once so many tokens were consumed. -/
theorem peek_eq {distance : Nat} (near : 1 ≤ distance) (within : distance ≤ reach)
    (parser : Parser) :
    (parser.peek distance).1 =
      ((Parser.consume^[distance] parser).ahead, (Parser.consume^[distance] parser).aheadSpan) := by
  have room := length_buffered_fill (distance - parser.buffered.length) parser
  obtain ⟨place, rfl⟩ : ∃ place, distance = place + 1 := ⟨distance - 1, by omega⟩
  rw [peek_apply near within, ahead_iterate,
    ← upcoming_fill_many parser (place + 1 - parser.buffered.length)]
  exact getD_buffered_eq (by omega) _

/-- Whatever legal operations were performed, what they consumed, the lookahead, the tokens put by and
the tokens not yet pulled are the tokens of the stream in their order; at most three tokens are put
by, and a peek tells the lookahead that consuming would bring. -/
theorem lookahead_transparent (stream : TokenStream) (context : Context)
    (operations : List Operation) (legal : AllLegal operations (start stream context))
    {after : Parser} (reached : performAll operations (start stream context) = after) :
    ∃ passed, Passes (start stream context) passed after ∧ passed.length = after.consumed ∧
      stream.shows =
        passed ++ₛ (((after.ahead, after.aheadSpan) :: after.buffered) ++ₛ after.input.shows) ∧
      after.buffered.length ≤ 3 ∧
      ∀ distance, 1 ≤ distance → distance ≤ 3 →
        (Parse.peek distance after).1 = (Parser.consume^[distance] after).ahead ∧
          (Parse.peekSpan distance after).1 = (Parser.consume^[distance] after).aheadSpan := by
  obtain ⟨passed, passes⟩ := passes_performAll legal
  rw [reached] at passes
  refine ⟨passed, passes, ?_, ?_, passes.length_buffered_le (Nat.zero_le _), ?_⟩
  · exact (passes.consumed.trans (Nat.zero_add _)).symm
  · exact (upcoming_start stream context).symm.trans passes.upcoming
  · intro distance near within
    have told := peek_eq near within after
    exact ⟨congrArg Prod.fst told, congrArg Prod.snd told⟩

/-- Peeking past a comment, to the end and beyond a token that is then skipped. -/
theorem lookahead_transparent_past_comment :
    let place (column : Nat) : Span := ⟨.single, ⟨0, column⟩, ⟨0, column + 1⟩⟩
    let stream : TokenStream := .ofItems [.silent .identifier (place 0),
      .silent .comment (place 1), .silent .comma (place 2), .silent .equals (place 3)]
    let operations : List Operation := [.peek 1, .enterNesting, .expect .identifier, .peekSpan 3,
      .fail, .leaveNesting, .skipTo .endOfInput, .consume]
    let after := performAll operations (start stream {})
    AllLegal operations (start stream {}) ∧
      ∃ passed, Passes (start stream {}) passed after ∧ passed.length = after.consumed ∧
        stream.shows =
          passed ++ₛ (((after.ahead, after.aheadSpan) :: after.buffered) ++ₛ after.input.shows) := by
  intro place stream operations after
  have legal : AllLegal operations (start stream {}) := by decide
  obtain ⟨passed, passes, length, whole, -⟩ :=
    lookahead_transparent stream {} operations legal (show _ = after from rfl)
  exact ⟨legal, passed, passes, length, whole⟩

end Parser

end Offside
