import Offside.Proofs.Lexical.Recording
import Offside.Proofs.Parser.Ends

/-!
Which texts a parser finds recorded. Tokens are pulled early where a grammar peeks, so the text of the
lookahead is looked up after later tokens were recorded too. No run of a parser changes what will be
recorded once all is read, and the texts of the tokens in sight are final where the stream keeps the
places of its tokens apart.
-/

namespace Offside

set_option autoImplicit false

open Offside.Lexical

namespace Lexical.Lexed

def Spares (place : Position) (item : Lexed) : Prop := ∀ entry ∈ item.entries, entry.place ≠ place

end Lexical.Lexed

def Token.isLookedUp (token : Token) : Bool := token = .identifier || token = .integer

namespace Lexical.TokenStream

/-- The text of a token that a grammar may look at is not replaced by what comes later. -/
def Settled (items : List Lexed) : Prop :=
  items.Pairwise fun earlier later =>
    earlier.token.isLookedUp = true → later.Spares earlier.span.start

end Lexical.TokenStream

namespace Context

theorem lexemeAt_recordEntry {entry : Entry} {place : Position} (spared : entry.place ≠ place)
    (context : Context) : (context.recordEntry entry).lexemeAt place = context.lexemeAt place := by
  unfold recordEntry
  split
  · unfold lexemeAt
    cases category : Lexeme.Category.ofToken? entry.token with
    | none => rw [LexemeTable.record_of_fixed _ _ _ _ category]
    | some category' => rw [LexemeTable.get?_record _ _ _ _ _ _ category, if_neg spared]
  · rfl

theorem lexemeAt_absorb {item : Lexed} {place : Position} (spared : item.Spares place)
    (context : Context) : (context.absorb item).lexemeAt place = context.lexemeAt place := by
  have folded : ∀ (entries : List Entry) (context : Context),
      (∀ entry ∈ entries, entry.place ≠ place) →
        (entries.foldl recordEntry context).lexemeAt place = context.lexemeAt place := by
    intro entries
    induction entries with
    | nil => exact fun context _ => rfl
    | cons entry later induction =>
      intro context others
      rw [List.forall_mem_cons] at others
      rw [List.foldl_cons, induction _ others.2, lexemeAt_recordEntry others.1]
  exact folded item.entries _ spared

theorem lexemeAt_absorbAll {items : List Lexed} {place : Position}
    (spared : ∀ item ∈ items, item.Spares place) (context : Context) :
    (context.absorbAll items).lexemeAt place = context.lexemeAt place := by
  induction items generalizing context with
  | nil => rfl
  | cons item later induction =>
    rw [List.forall_mem_cons] at spared
    exact (induction spared.2 (context.absorb item)).trans (lexemeAt_absorb spared.1 context)

structure Agrees (left right : Context) : Prop where
  lexemes : left.lexemes = right.lexemes
  keepComments : left.keepComments = right.keepComments

namespace Agrees

variable {left right : Context}

theorem lexemeAt (agrees : Agrees left right) (place : Position) :
    left.lexemeAt place = right.lexemeAt place := by
  rw [Context.lexemeAt, agrees.lexemes]
  rfl

theorem recordEntry (agrees : Agrees left right) (entry : Entry) :
    Agrees (left.recordEntry entry) (right.recordEntry entry) := by
  have same : left.records entry = right.records entry := by
    rw [records, agrees.keepComments]
    rfl
  unfold Context.recordEntry
  rw [same]
  split
  · exact ⟨by simp only [agrees.lexemes], agrees.keepComments⟩
  · exact agrees

theorem absorb (agrees : Agrees left right) (item : Lexed) :
    Agrees (left.absorb item) (right.absorb item) := by
  have folded : ∀ (entries : List Entry) (left right : Context), Agrees left right →
      Agrees (entries.foldl Context.recordEntry left) (entries.foldl Context.recordEntry right) := by
    intro entries
    induction entries with
    | nil => exact fun _ _ agrees => agrees
    | cons entry later induction =>
      exact fun left right agrees => induction _ _ (agrees.recordEntry entry)
  exact folded item.entries _ _ ⟨agrees.lexemes, agrees.keepComments⟩

theorem absorbAll (agrees : Agrees left right) (items : List Lexed) :
    Agrees (left.absorbAll items) (right.absorbAll items) := by
  induction items generalizing left right with
  | nil => exact agrees
  | cons item later induction => exact induction (agrees.absorb item)

end Agrees

end Context

namespace Parser

/-- Once all is read the given texts are recorded, and those of the tokens in sight are already. -/
structure Steady (texts : Position → Option Lexeme) (parser : Parser) : Prop where
  texts : ∀ place, (parser.context.absorbAll parser.input.items).lexemeAt place = texts place
  ahead : parser.ahead.isLookedUp = true →
    ∀ item ∈ parser.input.items, item.Spares parser.aheadSpan.start
  buffered : ∀ found ∈ parser.buffered, found.1.isLookedUp = true →
    ∀ item ∈ parser.input.items, item.Spares found.2.start
  input : TokenStream.Settled parser.input.items

variable {texts : Position → Option Lexeme} {files : FileId → Prop} {parser : Parser}

theorem Steady.lexemeAt (steady : parser.Steady texts) (lookedUp : parser.ahead.isLookedUp = true) :
    parser.context.lexemeAt parser.aheadSpan.start = texts parser.aheadSpan.start := by
  rw [← steady.texts, Context.lexemeAt_absorbAll (steady.ahead lookedUp)]

theorem diagnostics_pullFrom (stream : TokenStream) (context : Context) :
    (pullFrom stream context).2.2.diagnostics =
      context.diagnostics ++ reportsOf stream.comments ++ stream.afterComments.next.1.reports := by
  unfold pullFrom
  simp only [Context.absorb_eq, Context.diagnostics_absorbAll]

theorem pullFrom_items (stream : TokenStream) (context : Context) :
    (∃ comments item, stream.items = comments ++ item :: (pullFrom stream context).2.1.items ∧
      (pullFrom stream context).1 = (item.token, item.span) ∧
        (pullFrom stream context).2.2 = context.absorbAll (comments ++ [item])) ∨
      (pullFrom stream context).1.1 = .endOfInput ∧
        (pullFrom stream context).2.1.items = [] ∧
          (pullFrom stream context).2.2.Agrees (context.absorbAll stream.items) := by
  have split : stream.items = stream.comments ++ stream.afterComments.items := by
    rw [stream.items_afterComments]
    exact List.takeWhile_append_dropWhile.symm
  unfold pullFrom
  simp only [TokenStream.next]
  cases found : stream.afterComments.items with
  | nil =>
    right
    rw [found, List.append_nil] at split
    refine ⟨rfl, found, ?_⟩
    rw [split]
    exact ⟨rfl, rfl⟩
  | cons item later =>
    left
    refine ⟨stream.comments, item, ?_, rfl, ?_⟩
    · rw [split, found]
      simp [TokenStream.drop, found]
    · simp [Context.absorbAll]

structure Pulled (stream : TokenStream) (context : Context)
    (pulled : (Token × Span) × TokenStream × Context) : Prop where
  texts : ∀ place, (pulled.2.2.absorbAll pulled.2.1.items).lexemeAt place =
    (context.absorbAll stream.items).lexemeAt place
  suffix : pulled.2.1.items <:+ stream.items
  settled : TokenStream.Settled stream.items → pulled.1.1.isLookedUp = true →
    ∀ item ∈ pulled.2.1.items, item.Spares pulled.1.2.start

theorem pullFrom_pulled (stream : TokenStream) (context : Context) :
    Pulled stream context (pullFrom stream context) := by
  rcases pullFrom_items stream context with ⟨comments, item, split, token, after⟩ |
    ⟨final, none, agrees⟩
  · refine ⟨?_, ?_, ?_⟩
    · intro place
      rw [after, split]
      simp [Context.absorbAll]
    · rw [split]
      exact ⟨comments ++ [item], by simp⟩
    · intro settled lookedUp later member
      rw [split] at settled
      have apart := (List.pairwise_cons.1 (List.pairwise_append.1 settled).2.1).1 later member
      rw [token] at lookedUp ⊢
      exact apart lookedUp
  · refine ⟨?_, ?_, ?_⟩
    · intro place
      rw [none]
      exact agrees.lexemeAt place
    · rw [none]
      exact List.nil_suffix
    · rw [none]
      simp

theorem Steady.consume (steady : parser.Steady texts) : parser.consume.Steady texts := by
  have members := steady.buffered
  unfold Parser.consume
  cases found : parser.buffered with
  | nil =>
    have pulled := pullFrom_pulled parser.input parser.context
    exact
      { texts := fun place => (pulled.texts place).trans (steady.texts place)
        ahead := pulled.settled steady.input
        buffered := by simp [pull]
        input := steady.input.sublist pulled.suffix.sublist }
  | cons next later =>
    rw [found, List.forall_mem_cons] at members
    exact
      { texts := steady.texts
        ahead := members.1
        buffered := members.2
        input := steady.input }

theorem Steady.fill (steady : parser.Steady texts) : (parser.fill 1).Steady texts := by
  have pulled := pullFrom_pulled parser.input parser.context
  have spared : ∀ place, (∀ item ∈ parser.input.items, item.Spares place) →
      ∀ item ∈ (parser.fill 1).input.items, item.Spares place :=
    fun place spares item member => spares item (pulled.suffix.subset member)
  refine
    { texts := fun place => (pulled.texts place).trans (steady.texts place)
      ahead := fun lookedUp => spared _ (steady.ahead lookedUp)
      buffered := ?_
      input := steady.input.sublist pulled.suffix.sublist }
  intro found member lookedUp
  rcases List.mem_append.1 member with buffered | new
  · exact spared _ (steady.buffered found buffered lookedUp)
  · rw [List.mem_singleton.1 new] at lookedUp ⊢
    exact pulled.settled steady.input lookedUp

theorem Steady.report (steady : parser.Steady texts) (problem : Problem) (span : Span) :
    ({ parser with context := parser.context.report problem span } : Parser).Steady texts := by
  have agrees : (parser.context.report problem span).Agrees parser.context := ⟨rfl, rfl⟩
  exact
    { steady with
      texts := fun place => ((agrees.absorbAll _).lexemeAt place).trans (steady.texts place) }

theorem Steady.reportUnexpected (steady : parser.Steady texts) :
    parser.reportUnexpected.Steady texts := by
  rcases reportUnexpected_cases parser with same | reported
  · rw [same]
    exact steady
  · rw [reported]
    exact { steady.report .unexpectedToken parser.aheadSpan with }

theorem Steady.leaveNesting (steady : parser.Steady texts) : parser.leaveNesting.Steady texts := by
  unfold Parser.leaveNesting
  split
  · exact { steady with }
  · exact { steady with }

/-- One case for each move, from what that move does to the texts. -/
theorem Run.steady {before after : Parser} {passed : List (Token × Span)}
    (run : Run files before passed after) (steady : before.Steady texts) :
    after.Steady texts := by
  induction run with
  | refl parser => exact steady
  | trans _ _ first second => exact second (first steady)
  | consume _ => exact steady.consume
  | fill _ => exact steady.fill
  | report parser => exact steady.reportUnexpected
  | consumeReporting _ => exact steady.consume.report _ _
  | refuse _ => exact steady.report _ _
  | nested _ _ inside => exact (inside { steady with }).leaveNesting
  | raise _ _ _ => exact { steady with }

theorem Leads.steady {before after : Parser} (leads : Leads files before after)
    (steady : before.Steady texts) : after.Steady texts := by
  obtain ⟨passed, run⟩ := leads
  exact run.steady steady

theorem Steady.fail (steady : parser.Steady texts) : parser.fail.Steady texts := by
  have leads : Leads (fun _ => True) parser parser.fail := Leads.fail parser
  exact leads.steady steady

theorem Steady.refuseNesting (steady : parser.Steady texts) :
    parser.refuseNesting.2.Steady texts := by
  have leads : Leads (fun _ => True)
      { parser with context := parser.context.report .nestingTooDeep parser.aheadSpan }
      parser.refuseNesting.2 := Leads.consumeInner _
  exact leads.steady (steady.report _ _)

end Parser

end Offside
