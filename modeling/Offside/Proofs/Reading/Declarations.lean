import Offside.Proofs.Grammar.Declarations
import Offside.Proofs.Reading.Types

/-!
Patterns and declarations are read with one mark for each name, literal and wildcard in them. A minus
sign before a literal leaves none. In a clause of an operator the first operand comes before the
operator.
-/

namespace Offside.Haskell.Grammar

set_option autoImplicit false

open Offside.Parser Offside.Parse

variable {texts : Position → Option Lexeme} {parser : Parser} {inner : Level}

theorem ofKind_literal {token : Token} {kind : LiteralKind} (known : literalKind? token = some kind) :
    Leaf.ofKind? token = some (.literal kind) := by
  unfold literalKind? at known
  split at known
  · cases known
    rfl
  · cases known
    rfl
  · cases known
    rfl
  · cases known
    rfl
  · cases known

theorem literal_reads (parser : Parser) : Reads texts [] literal Expr.marks parser := by
  unfold literal
  simp only [reads_ahead]
  split
  · rename_i kind known
    simp only [reads_aheadSpan]
    have same := ofKind_literal known
    have inside : parser.isAtEnd = false := by
      simp only [Parser.isAtEnd, decide_eq_false_iff_not]
      intro ended
      rw [ended] at same
      cases same
    have spelled : Spells texts [.leaf (.literal kind parser.aheadSpan)]
        [(parser.ahead, parser.aheadSpan)] := .leaf (by simp [Leaf.ofToken?, same]) .nil
    apply Reads.consume inside spelled
    exact Reads.pure (by simp)
  · exact rejected_reads parser

theorem wildcard_reads (found : parser.ahead = .underscore) :
    Reads texts [] wildcard Expr.marks parser := by
  unfold wildcard
  simp only [reads_aheadSpan]
  have spelled : Spells texts [.leaf (.wildcard parser.aheadSpan)]
      [(parser.ahead, parser.aheadSpan)] := .leaf (by simp [Leaf.ofToken?, found, Leaf.ofKind?]) .nil
  apply Reads.consume (isAtEnd_of_ahead (by decide) found) spelled
  exact Reads.pure (by simp)

/-- The opening parenthesis is held until the constructor is closed. -/
theorem tupleConstructor_reads {start : Span} (parser : Parser) :
    ReadsFrom texts [] [(.openParen, start)] (tupleConstructor start) Expr.marks parser := by
  unfold tupleConstructor
  apply ReadsFrom.skipAll
  intro commas same
  exact closing_reads (by simp) (fun found member => Or.inl (same found member)) _

theorem aliasAfter_reads {atom : Parse Expr} {start : Span}
    (atomReads : ∀ start, Reads texts [] atom Expr.marks start) (name : Name) (parser : Parser) :
    Reads texts name.marks (aliasAfter atom start name) Expr.marks parser := by
  unfold aliasAfter
  apply Reads.accept rfl
  · intro _
    apply Reads.bind (atomReads parser.consume)
    intro pattern after
    exact Reads.pure (by simp)
  · intro _
    exact Reads.pure (by simp)

theorem variableOrAlias_reads {atom : Parse Expr}
    (atomReads : ∀ start, Reads texts [] atom Expr.marks start) (parser : Parser) :
    Reads texts [] (variableOrAlias atom) Expr.marks parser := by
  unfold variableOrAlias
  simp only [reads_aheadSpan]
  apply Reads.bind (variableIdentifier_reads parser)
  exact aliasAfter_reads atomReads

theorem lazyPattern_reads {atom : Parse Expr}
    (atomReads : ∀ start, Reads texts [] atom Expr.marks start) (found : parser.ahead = .tilde) :
    Reads texts [] (lazyPattern atom) Expr.marks parser := by
  unfold lazyPattern
  simp only [reads_aheadSpan]
  apply Reads.pass found rfl
  apply Reads.bind (atomReads parser.consume)
  intro pattern after
  exact Reads.pure (by simp)

theorem enclosed_reads {term : Parse Expr} {start : Span}
    (termReads : ∀ start, Reads texts [] term Expr.marks start) (first : Expr) (parser : Parser) :
    Reads texts first.marks (enclosed term start first) Expr.marks parser := by
  unfold enclosed
  simp only [reads_isAt]
  split
  · apply Reads.bind (many_accept_reads rfl termReads parser)
    intro later afterLater
    apply Reads.expectOrSkipTo rfl
    intro _ after
    exact Reads.pure (by simp)
  · apply Reads.expectOrSkipTo rfl
    intro _ after
    exact Reads.pure (by simp)

theorem parenthesizedPattern_reads (reads : inner.Reads texts)
    (found : parser.ahead = .openParen) :
    Reads texts [] (parenthesizedPattern inner) Expr.marks parser := by
  have opened : Spells texts [] [(Token.openParen, parser.aheadSpan)] := Spells.quiet rfl
  unfold parenthesizedPattern constructorThenParen
  simp only [reads_aheadSpan]
  apply ReadsFrom.consume (isAtEnd_of_ahead (by decide) found)
  rw [found]
  apply ReadsFrom.accept (by decide)
  · intro _
    apply ReadsFrom.drop (opened.append (Spells.quiet rfl))
    exact Reads.pure (by simp)
  · intro _
    simp only [reads_isAt, if_neg Bool.false_ne_true]
    split
    · exact tupleConstructor_reads parser.consume
    · apply ReadsFrom.drop opened
      simp only [reads_bind_assoc, reads_ahead]
      have plain : ∀ start, Reads texts []
          (inner.pattern >>= enclosed inner.pattern parser.aheadSpan) Expr.marks start :=
        fun start => Reads.bind (reads.pattern start) (enclosed_reads reads.pattern)
      split
      · rename_i isConstructor
        simp only [reads_bind_assoc]
        apply ReadsFrom.peek (Nat.le_refl 1) (by decide)
        intro next after alike follows
        simp only [reads_pure_bind]
        split
        · rename_i closes
          have closes : parser.consume.consume.ahead = .closeParen := by
            rw [← follows rfl]
            simpa using closes
          rw [← alike.ahead] at isConstructor
          apply ReadsFrom.step (constructorSymbol_apply isConstructor)
            (Run.consume (isAtEnd_of_kind rfl isConstructor))
          apply ReadsFrom.settle (spells_constructorOperator isConstructor)
          apply Reads.pass (alike.next.trans closes) rfl
          exact Reads.pure (by simp)
        · exact plain after
      · exact plain parser.consume

theorem listEnd_reads {start : Span} (elements : List Expr) (parser : Parser) :
    Reads texts (elements.flatMap Expr.marks) (listEnd start elements) Expr.marks parser := by
  unfold listEnd
  apply Reads.expectOrSkipTo rfl
  intro _ after
  exact Reads.pure (by simp)

theorem listPattern_reads (reads : inner.Reads texts) (found : parser.ahead = .openBracket) :
    Reads texts [] (listPattern inner) Expr.marks parser := by
  unfold listPattern
  simp only [reads_aheadSpan]
  apply Reads.pass found rfl
  simp only [reads_isAt]
  split
  · exact listEnd_reads [] parser.consume
  · apply Reads.bind (separated_reads rfl reads.pattern parser.consume)
    exact listEnd_reads

section

variable (reads : inner.Reads texts)

include reads

theorem patternAtom_reads (parser : Parser) :
    Reads texts [] (patternAtom inner) Expr.marks parser := by
  unfold patternAtom
  simp only [reads_ahead]
  split
  · exact variableOrAlias_reads reads.patternAtom parser
  · apply Reads.bind (qualifiedIdentifier_reads parser)
    intro name after
    exact Reads.pure (by simp)
  · rename_i found
    exact wildcard_reads found
  · rename_i found
    exact lazyPattern_reads reads.patternAtom found
  · exact literal_reads parser
  · exact literal_reads parser
  · exact literal_reads parser
  · exact literal_reads parser
  · rename_i found
    exact parenthesizedPattern_reads reads found
  · rename_i found
    exact listPattern_reads reads found
  · exact rejected_reads parser

theorem patternAtoms_reads (parser : Parser) :
    Reads texts [] (patternAtoms inner) (List.flatMap Expr.marks) parser :=
  many_while_reads (patternAtom_reads reads) parser

theorem constructorPattern_reads {start : Span} (constructor : Expr) (parser : Parser) :
    Reads texts constructor.marks (constructorPattern inner start constructor) Expr.marks parser := by
  unfold constructorPattern
  have arguments : Reads texts [] (many argumentFollows (patternAtom inner))
      (List.flatMap Expr.marks) parser := by
    apply many_reads
    intro start
    unfold oneRound argumentFollows
    simp only [reads_bind_assoc, reads_ahead]
    split
    · simp only [reads_bind_assoc]
      apply reads_qualifiedSymbolFollows
      intro follows after _
      simp only [reads_pure_bind]
      split
      · apply Reads.bind (patternAtom_reads reads after)
        intro value final
        exact Reads.pure rfl
      · exact Reads.pure rfl
    · exact Reads.pure rfl
  apply Reads.bind arguments
  intro arguments after
  split
  · rename_i none
    exact Reads.pure (by simp [List.isEmpty_iff.1 none])
  · exact Reads.pure (by simp)

omit reads in
theorem numeral_reads (parser : Parser) : Reads texts [] numeral Expr.marks parser := by
  unfold numeral
  simp only [reads_ahead]
  split
  · exact literal_reads parser
  · exact literal_reads parser
  · exact rejected_reads parser

omit reads in
theorem negativeLiteral_reads (found : parser.ahead = .minus) :
    Reads texts [] negativeLiteral Expr.marks parser := by
  unfold negativeLiteral
  simp only [reads_aheadSpan]
  apply Reads.pass found rfl
  apply Reads.bind (numeral_reads parser.consume)
  intro operand after
  exact Reads.pure (by simp)

theorem operandPattern_reads (parser : Parser) :
    Reads texts [] (operandPattern inner) Expr.marks parser := by
  unfold operandPattern
  simp only [reads_aheadSpan, reads_ahead]
  split
  · rename_i found
    exact negativeLiteral_reads found
  · apply Reads.bind (qualifiedIdentifier_reads parser)
    intro name after
    simpa using constructorPattern_reads reads (.identifier name) after
  · unfold parenthesizedConstructorFollows
    have chooses : ∀ (follows : Bool) after, Reads texts []
        (do
          if follows then
            let constructor ← patternAtom inner
            constructorPattern inner parser.aheadSpan constructor
          else patternAtom inner)
        Expr.marks after := by
      intro follows after
      split
      · apply Reads.bind (patternAtom_reads reads after)
        intro constructor final
        exact constructorPattern_reads reads constructor final
      · exact patternAtom_reads reads after
    simp only [reads_bind_assoc]
    apply ReadsFrom.peek (Nat.le_refl 1) (by decide)
    intro next after _ _
    split
    · exact chooses true after
    · split
      · simp only [reads_bind_assoc]
        apply ReadsFrom.peek (by decide) (by decide)
        intro last final _ _
        exact chooses _ final
      · exact chooses false after
  · exact patternAtom_reads reads parser

theorem patternAfter_reads {start : Span} (left : Expr) (parser : Parser) :
    Reads texts left.marks (patternAfter inner start left) Expr.marks parser := by
  unfold patternAfter
  apply Reads.bind (constructorOperator?_reads parser)
  intro found after
  cases found with
  | none => exact Reads.pure (by simp)
  | some operator =>
    apply Reads.bind (reads.pattern after)
    intro right final
    exact Reads.pure (by simp)

theorem patternProduction_reads (parser : Parser) :
    Reads texts [] (patternProduction inner) Expr.marks parser := by
  unfold patternProduction
  simp only [reads_aheadSpan]
  apply Reads.bind (operandPattern_reads reads parser)
  intro left after
  exact patternAfter_reads reads left after

theorem guardedExpr_reads {separator : Token} (quiet : separator.isQuiet = true)
    (found : parser.ahead = .pipe) :
    Reads texts [] (guardedExpr inner separator) GuardedExpr.marks parser := by
  unfold guardedExpr
  simp only [reads_aheadSpan]
  apply Reads.pass found rfl
  apply Reads.bind (reads.expression parser.consume)
  intro guard afterGuard
  apply Reads.expect quiet
  intro _ afterSeparator
  apply Reads.bind (reads.expression afterSeparator)
  intro body after
  exact Reads.pure (by simp)

theorem whereDecls?_reads (parser : Parser) :
    Reads texts [] (whereDecls? inner) (List.flatMap Decl.marks) parser := by
  unfold whereDecls?
  apply Reads.accept rfl
  · intro _
    exact reads.declBlock parser.consume
  · intro _
    exact Reads.pure rfl

theorem finishRightSide_reads {start : Span} (body : Body) (parser : Parser) :
    Reads texts body.marks (finishRightSide inner start body) RightSide.marks parser := by
  unfold finishRightSide
  apply Reads.bind (whereDecls?_reads reads parser)
  intro decls after
  exact Reads.pure (by simp)

theorem rightSide_reads {separator : Token} (quiet : separator.isQuiet = true) (parser : Parser) :
    Reads texts [] (rightSide inner separator) RightSide.marks parser := by
  unfold rightSide
  simp only [reads_aheadSpan, reads_isAt]
  split
  · have alternatives : Reads texts [] (many (isAt .pipe) (guardedExpr inner separator))
        (List.flatMap GuardedExpr.marks) parser := by
      apply many_reads
      intro start
      unfold oneRound
      simp only [reads_isAt]
      split
      · rename_i found
        apply Reads.bind (guardedExpr_reads reads quiet (by simpa using found))
        intro value after
        exact Reads.pure rfl
      · exact Reads.pure rfl
    apply Reads.bind alternatives
    intro alternatives after
    simpa using finishRightSide_reads reads (.guarded alternatives) after
  · apply Reads.accept quiet
    · intro _
      apply Reads.bind (reads.expression parser.consume)
      intro body after
      simpa using finishRightSide_reads reads (.plain body) after
    · intro _
      apply Reads.reportUnexpected
      exact Reads.pure_of_unclean (reportUnexpected_spoils parser)

abbrev precedenceMarks (found : Option Nat) : List Mark :=
  found.elim [] fun value => [.word (.precedence value)]

end

theorem reads_precedenceAhead {β : Type} {owed : List Mark} {marks : β → List Mark}
    {next : Option Nat → Parse β}
    (reads : ∀ found, (∀ value ∈ found, ∃ text,
        parser.context.lexemeAt parser.aheadSpan.start = some ⟨.integer, text⟩ ∧
          precedenceOf? text = some value) →
      Reads texts owed (next found) marks parser) :
    Reads texts owed (precedenceAhead >>= next) marks parser := by
  unfold precedenceAhead
  simp only [reads_bind_assoc, reads_get]
  split
  · rename_i text recorded
    exact reads _ fun value member => ⟨text, recorded, member⟩
  · exact reads none (by simp)

theorem precedence_reads (parser : Parser) :
    Reads texts [] precedence precedenceMarks parser := by
  unfold precedence
  simp only [reads_isAt]
  split
  · rename_i found
    have found : parser.ahead = .integer := by simpa using found
    have inside := isAtEnd_of_ahead (by decide) found
    apply ReadsFrom.of_steady
    intro steady
    apply reads_precedenceAhead
    intro value written
    cases value with
    | none =>
      apply Reads.reportUnexpected
      have passes : Leads (fun _ => True) parser.reportUnexpected
          parser.reportUnexpected.consume :=
        Leads.consume ((isAtEnd_reportUnexpected parser).trans inside)
      exact ReadsFrom.of_unclean passes fun clean =>
        reportUnexpected_spoils parser (passes.clean clean)
    | some value =>
      obtain ⟨text, recorded, known⟩ := written value rfl
      rw [steady.lexemeAt (by rw [found]; rfl)] at recorded
      have spelled : Word.Spelled texts (parser.ahead, parser.aheadSpan) (.precedence value) :=
        ⟨found, text, recorded, known⟩
      apply Reads.consume inside (.word spelled .nil)
      exact Reads.pure rfl
  · exact Reads.pure rfl

theorem fixityOperator_reads (parser : Parser) :
    Reads texts [] fixityOperator Name.marks parser := by
  unfold fixityOperator
  apply Reads.bind (operator?_reads parser)
  intro found after
  cases found with
  | none => exact rejected_reads after
  | some name => exact Reads.pure rfl

theorem fixityDecl_reads (inside : parser.ahead.isQuiet = true) :
    Reads texts [] fixityDecl Decl.marks parser := by
  unfold fixityDecl
  simp only [reads_aheadSpan, reads_ahead]
  apply Reads.pass rfl inside
  apply Reads.bind (precedence_reads parser.consume)
  intro precedence afterPrecedence
  apply Reads.bind (separated_reads rfl fixityOperator_reads afterPrecedence)
  intro operators after
  exact Reads.pure (by simp)

variable (reads : inner.Reads texts)

include reads

theorem typeSignature_reads {start : Span} (first : Name) (parser : Parser) :
    Reads texts first.marks (typeSignature inner start first) Decl.marks parser := by
  unfold typeSignature
  apply Reads.bind (many_accept_reads rfl variableName_reads parser)
  intro later afterNames
  apply Reads.expect rfl
  intro _ afterSign
  apply Reads.bind (reads.type afterSign)
  intro type after
  exact Reads.pure (by simp)

theorem operatorClause_reads {start : Span} (left : Expr) (operator : Name) (parser : Parser) :
    Reads texts (left.marks ++ operator.marks) (operatorClause inner start left operator) Decl.marks
      parser := by
  unfold operatorClause
  apply Reads.bind (reads.pattern parser)
  intro right afterRight
  apply Reads.bind (rightSide_reads reads rfl afterRight)
  intro body after
  exact Reads.pure (by simp)

theorem declAfterPattern_reads {start : Span} (pattern : Expr) (parser : Parser) :
    Reads texts pattern.marks (declAfterPattern inner start pattern) Decl.marks parser := by
  unfold declAfterPattern
  apply Reads.bind (variableOperator?_reads parser)
  intro found afterOperator
  cases found with
  | some operator => exact operatorClause_reads reads pattern operator afterOperator
  | none =>
    apply Reads.bind (rightSide_reads reads rfl afterOperator)
    intro body after
    exact Reads.pure (by simp)

theorem patternAfterVariable_reads {start : Span} (name : Name) (parser : Parser) :
    Reads texts name.marks (patternAfterVariable inner start name) Expr.marks parser := by
  unfold patternAfterVariable
  exact Reads.chain (aliasAfter_reads reads.patternAtom name parser) (patternAfter_reads reads)

omit reads in
theorem reads_patternContinues {β : Type} {owed : List Mark} {next : Bool → Parse β}
    {marks : β → List Mark} {parser : Parser}
    (reads : ∀ continues after, Reads texts owed (next continues) marks after) :
    Reads texts owed (patternContinues >>= next) marks parser := by
  unfold patternContinues
  simp only [reads_bind_assoc, reads_ahead]
  split
  · exact reads true parser
  · apply reads_quotedFollows
    intro follows after _ _
    exact reads follows after

theorem functionClause_reads {start : Span} (name : Name) (parser : Parser) :
    Reads texts name.marks (functionClause inner start name) Decl.marks parser := by
  unfold functionClause
  apply Reads.bind (patternAtoms_reads reads parser)
  intro parameters afterParameters
  apply Reads.bind (rightSide_reads reads rfl afterParameters)
  intro body after
  exact Reads.pure (by simp)

theorem declAfterName_reads {start : Span} (name : Name) (parser : Parser) :
    Reads texts name.marks (declAfterName inner start name) Decl.marks parser := by
  unfold declAfterName
  simp only [reads_isAt]
  split
  · exact typeSignature_reads reads name parser
  · apply reads_patternContinues
    intro continues after
    split
    · apply Reads.chain (patternAfterVariable_reads reads name after)
      intro pattern final
      exact declAfterPattern_reads reads pattern final
    · apply Reads.bind (variableOperator?_reads after)
      intro found afterOperator
      cases found with
      | some operator =>
        simpa using operatorClause_reads reads (.identifier name) operator afterOperator
      | none => simpa using functionClause_reads reads name afterOperator

theorem patternDecl_reads {start : Span} (parser : Parser) :
    Reads texts [] (patternDecl inner start) Decl.marks parser :=
  Reads.bind (reads.pattern parser) (declAfterPattern_reads reads)

omit reads in
theorem reads_parenthesizedOperatorFollows {β : Type} {marks : β → List Mark}
    {next : Bool → Parse β}
    (later : ∀ follows after, after.ahead = parser.ahead → Reads texts [] (next follows) marks after) :
    Reads texts [] (parenthesizedOperatorFollows >>= next) marks parser := by
  unfold parenthesizedOperatorFollows
  simp only [reads_bind_assoc]
  apply ReadsFrom.peek (Nat.le_refl 1) (by decide)
  intro token after alike _
  split
  · simp only [reads_bind_assoc]
    apply ReadsFrom.peek (by decide) (by decide)
    intro last final alikeLast _
    exact later _ final (alike.trans alikeLast).ahead
  · exact later false after alike.ahead

theorem bindingDecl_reads (parser : Parser) :
    Reads texts [] (bindingDecl inner) Decl.marks parser := by
  unfold bindingDecl
  simp only [reads_aheadSpan, reads_ahead]
  split
  · apply Reads.bind (variableIdentifier_reads parser)
    intro name after
    exact declAfterName_reads reads name after
  · rename_i found
    apply reads_parenthesizedOperatorFollows
    intro follows after same
    split
    · apply Reads.bind (parenthesizedSymbol_reads (same.trans found) variableSymbol_reads)
      exact declAfterName_reads reads
    · exact patternDecl_reads reads after
  · exact patternDecl_reads reads parser

theorem decl_reads (parser : Parser) : Reads texts [] (decl inner) Decl.marks parser := by
  unfold decl
  simp only [reads_ahead]
  split
  · exact Reads.pure (by simp)
  · rename_i found
    exact fixityDecl_reads (by rw [found]; rfl)
  · rename_i found
    exact fixityDecl_reads (by rw [found]; rfl)
  · rename_i found
    exact fixityDecl_reads (by rw [found]; rfl)
  · exact bindingDecl_reads reads parser

end Offside.Haskell.Grammar
