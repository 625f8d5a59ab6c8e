import Offside.Proofs.Grammar.Types
import Offside.Proofs.Reading.Names

/-!
What the productions of a nesting level read, the blocks that are shared by all of them, and types.
The separators and braces of a block leave no mark. A type constructor made of brackets alone leaves
one for all its tokens.
-/

namespace Offside

set_option autoImplicit false

theorem Parser.start_spanFrom (parser : Parser) (start : Span) :
    (parser.spanFrom start).start = start.start := by
  unfold spanFrom
  split
  · rfl
  · rfl

/-- A constructor made of an opening bracket, separators and a closing bracket. -/
theorem Spells.brackets {texts : Position → Option Lexeme} {opening closing : Token × Span}
    {middle : List (Token × Span)} (brackets : IsBracketed opening middle closing)
    (parser : Parser) :
    Spells texts [.leaf (.name (parser.spanFrom opening.2))] (opening :: (middle ++ [closing])) :=
  .bracketed brackets (parser.start_spanFrom opening.2) .nil

namespace Haskell.Grammar

open Offside.Parser Offside.Parse

variable {texts : Position → Option Lexeme} {parser : Parser} {inner : Level}

structure Level.Reads (texts : Position → Option Lexeme) (inner : Level) : Prop where
  expression : ∀ parser, Parse.Reads texts [] inner.expression Expr.marks parser
  pattern : ∀ parser, Parse.Reads texts [] inner.pattern Expr.marks parser
  type : ∀ parser, Parse.Reads texts [] inner.type TypeTerm.marks parser
  expressionAtom : ∀ parser, Parse.Reads texts [] inner.expressionAtom Expr.marks parser
  patternAtom : ∀ parser, Parse.Reads texts [] inner.patternAtom Expr.marks parser
  parentheses : ∀ parser, parser.ahead = .openParen →
    Parse.Reads texts [] inner.parentheses Expr.marks parser
  brackets : ∀ parser, parser.ahead = .openBracket →
    Parse.Reads texts [] inner.brackets Expr.marks parser
  declBlock : ∀ parser, Parse.Reads texts [] inner.declBlock (List.flatMap Decl.marks) parser
  alternativeBlock : ∀ parser,
    Parse.Reads texts [] inner.alternativeBlock (List.flatMap Alternative.marks) parser
  statementBlock : ∀ parser,
    Parse.Reads texts [] inner.statementBlock (List.flatMap Statement.marks) parser

/-- A rejected token was reported, so nothing is promised. -/
theorem reject_reads {owed : List Mark} {marks : Span → List Mark} (parser : Parser) :
    Reads texts owed reject marks parser := by
  unfold reject
  simp only [reads_aheadSpan, reads_ahead]
  split
  · apply Reads.reportUnexpected
    exact Reads.pure_of_unclean (reportUnexpected_spoils parser)
  · apply Reads.fail
    exact Reads.pure_of_unclean (fail_spoils parser)

theorem rejected_reads {α : Type} {owed : List Mark} {marks : α → List Mark} {build : Span → α}
    (parser : Parser) : Reads texts owed (do return build (← reject)) marks parser :=
  Reads.chain (reject_reads parser) fun _ _ => Reads.pure rfl

theorem separators_read (parser : Parser) :
    Reads texts [] (Parse.skipAll .semicolon) (fun _ => []) parser := by
  intro steady
  obtain ⟨passed, same, run⟩ : ∃ passed, (∀ found ∈ passed, found.1 = .semicolon) ∧
      Run (fun _ => True) parser passed (parser.skipAll .semicolon) := Run.skipAll _ parser
  refine ⟨run.steady steady, fun clean => ⟨run.clean clean, passed, [], run.effect.rest, ?_, rfl⟩⟩
  apply Spells.silent_all
  intro found member
  rw [same found member]
  rfl

theorem endOfItem_reads (parser : Parser) : Reads texts [] endOfItem (fun _ => []) parser := by
  unfold endOfItem
  simp only [reads_ahead]
  split
  · exact separators_read parser
  · exact separators_read parser
  · exact separators_read parser
  · apply Reads.reportUnexpected
    have skips : Leads (fun _ => True) parser.reportUnexpected
        ((parser.reportUnexpected.skipToAny [.semicolon, .closeBrace] 0).skipAll .semicolon) :=
      (Leads.skipToAny _ 0 _).trans (Leads.skipAll _ _)
    exact ReadsFrom.of_unclean skips fun clean =>
      reportUnexpected_spoils parser (skips.clean clean)

theorem itemThenEnd_reads {α : Type} {item : Parse α} {marks : α → List Mark}
    (reads : Reads texts [] item marks parser) :
    Reads texts [] (itemThenEnd item) marks parser := by
  unfold itemThenEnd
  apply Reads.bind reads
  intro value middle
  apply Reads.bind (endOfItem_reads middle)
  intro _ after
  exact Reads.pure (by simp)

theorem items_reads {α : Type} {item : Parse α} {marks : α → List Mark}
    (each : ∀ start, Reads texts [] item marks start) (parser : Parser) :
    Reads texts [] (many itemFollows (itemThenEnd item)) (List.flatMap marks) parser := by
  apply many_reads
  intro start
  unfold oneRound itemFollows
  simp only [reads_bind_assoc, reads_ahead]
  split
  · exact Reads.pure rfl
  · exact Reads.pure rfl
  · simp only [reads_pure_bind, if_true]
    apply Reads.bind (itemThenEnd_reads (each start))
    intro value after
    exact Reads.pure rfl

theorem block_reads {α : Type} {item : Parse α} {marks : α → List Mark}
    (each : ∀ start, Reads texts [] item marks start) (parser : Parser) :
    Reads texts [] (block item) (List.flatMap marks) parser := by
  unfold block
  apply ReadsFrom.expect (by decide)
  · intro _
    apply ReadsFrom.drop (Spells.quiet rfl)
    apply Reads.bind (items_reads each parser.consume)
    intro values after
    apply Reads.expectOrSkipTo rfl
    intro _ final
    exact Reads.pure rfl
  · exact Reads.pure_of_unclean (fail_spoils parser)

/-- The closing parenthesis after the separators of a constructor that is made of them. -/
theorem closing_reads {α : Type} {build : Span → α} {marks : α → List Mark} {opening : Span}
    {middle : List (Token × Span)} (named : ∀ span, marks (build span) = [.leaf (.name span)])
    (separators : ∀ found ∈ middle, found.1 = .comma ∨ found.1 = .arrow) (parser : Parser) :
    ReadsFrom texts [] ((.openParen, opening) :: middle)
      (do
        let _ ← expectOrSkipTo .closeParen
        return build (← spanFrom opening))
      marks parser := by
  apply ReadsFrom.expectOrSkipTo (by decide)
  intro _ after
  have brackets : IsBracketed (.openParen, opening) middle (.closeParen, parser.aheadSpan) :=
    ⟨Or.inl rfl, separators, Or.inl rfl⟩
  apply ReadsFrom.settle (Spells.brackets brackets after)
  exact Reads.pure (named _)

theorem parenthesizedType_reads (reads : inner.Reads texts) (found : parser.ahead = .openParen) :
    Reads texts [] (parenthesizedType inner) TypeTerm.marks parser := by
  have opened : Spells texts [] [(Token.openParen, parser.aheadSpan)] := Spells.quiet rfl
  unfold parenthesizedType
  simp only [reads_aheadSpan]
  apply ReadsFrom.consume (isAtEnd_of_ahead (by decide) found)
  rw [found]
  apply ReadsFrom.accept (by decide)
  · intro _
    apply ReadsFrom.drop (opened.append (Spells.quiet rfl))
    exact Reads.pure rfl
  · intro _
    simp only [reads_isAt, if_neg Bool.false_ne_true]
    split
    · apply ReadsFrom.skipAll
      intro commas same
      have separators : ∀ found ∈ commas, found.1 = .comma ∨ found.1 = .arrow :=
        fun found member => Or.inl (same found member)
      apply ReadsFrom.accept (by decide)
      · intro _
        apply closing_reads (by simp)
        intro found member
        rcases List.mem_append.1 member with member | member
        · exact separators found member
        · rw [List.mem_singleton.1 member]
          exact Or.inr rfl
      · intro _
        exact closing_reads (by simp) separators _
    · apply ReadsFrom.drop opened
      apply Reads.bind (reads.type _)
      intro first afterFirst
      simp only [reads_isAt]
      split
      · apply Reads.bind (many_accept_reads rfl reads.type afterFirst)
        intro later afterLater
        apply Reads.expectOrSkipTo rfl
        intro _ after
        exact Reads.pure (by simp)
      · apply Reads.expectOrSkipTo rfl
        intro _ after
        exact Reads.pure rfl

theorem listType_reads (reads : inner.Reads texts) (found : parser.ahead = .openBracket) :
    Reads texts [] (listType inner) TypeTerm.marks parser := by
  unfold listType
  simp only [reads_aheadSpan]
  apply ReadsFrom.consume (isAtEnd_of_ahead (by decide) found)
  rw [found]
  apply ReadsFrom.accept (by decide)
  · intro _
    have brackets : IsBracketed (.openBracket, parser.aheadSpan) []
        (.closeBracket, parser.consume.aheadSpan) := ⟨Or.inr rfl, by simp, Or.inr rfl⟩
    apply ReadsFrom.settle (Spells.brackets brackets parser.consume.consume)
    exact Reads.pure (by simp)
  · intro _
    apply ReadsFrom.drop (Spells.quiet rfl)
    apply Reads.bind (reads.type _)
    intro element afterElement
    apply Reads.expectOrSkipTo rfl
    intro _ after
    exact Reads.pure (by simp)

theorem typeAtom_reads (reads : inner.Reads texts) (parser : Parser) :
    Reads texts [] (typeAtom inner) TypeTerm.marks parser := by
  unfold typeAtom
  simp only [reads_ahead]
  split
  · apply Reads.bind (qualifiedIdentifier_reads parser)
    intro name after
    exact Reads.pure (by simp)
  · apply Reads.bind (variableIdentifier_reads parser)
    intro name after
    exact Reads.pure (by simp)
  · rename_i found
    exact parenthesizedType_reads reads found
  · rename_i found
    exact listType_reads reads found
  · exact rejected_reads parser

theorem typeApplication_reads (reads : inner.Reads texts) (parser : Parser) :
    Reads texts [] (typeApplication inner) TypeTerm.marks parser := by
  unfold typeApplication
  simp only [reads_aheadSpan]
  apply Reads.bind (typeAtom_reads reads parser)
  intro head afterHead
  apply Reads.bind (many_while_reads (typeAtom_reads reads) afterHead)
  intro arguments after
  split
  · rename_i none
    exact Reads.pure (by simp [List.isEmpty_iff.1 none])
  · exact Reads.pure (by simp)

theorem arrows_reads (owed : List Mark) (first : TypeTerm) (later : List TypeTerm)
    (parser : Parser) :
    Reads texts (owed ++ (first :: later).flatMap TypeTerm.marks) (arrows first later)
      (fun type => owed ++ type.marks) parser := by
  induction later generalizing owed first parser with
  | nil => exact Reads.pure (by simp)
  | cons next later induction =>
    have result : Reads texts (owed ++ (first :: next :: later).flatMap TypeTerm.marks)
        (arrows next later) (fun type => owed ++ first.marks ++ type.marks) parser := by
      simpa using induction (owed ++ first.marks) next parser
    apply Reads.chain result
    intro result after
    apply Reads.join
    intro span final
    exact Reads.pure (by simp)

theorem functionType_reads (reads : inner.Reads texts) (parser : Parser) :
    Reads texts [] (functionType inner) TypeTerm.marks parser := by
  unfold functionType
  apply Reads.bind (typeApplication_reads reads parser)
  intro first afterFirst
  apply Reads.bind (many_accept_reads rfl (typeApplication_reads reads) afterFirst)
  intro later after
  exact arrows_reads [] first later after

theorem typeProduction_reads (reads : inner.Reads texts) (parser : Parser) :
    Reads texts [] (typeProduction inner) TypeTerm.marks parser := by
  unfold typeProduction
  simp only [reads_aheadSpan]
  apply Reads.bind (functionType_reads reads parser)
  intro type afterType
  apply Reads.accept rfl
  · intro _
    apply Reads.bind (functionType_reads reads _)
    intro body after
    exact Reads.pure (by simp)
  · intro _
    exact Reads.pure rfl

end Haskell.Grammar

end Offside
