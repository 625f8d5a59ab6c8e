import Offside.Haskell.Grammar.Declarations
import Offside.Proofs.Grammar.Patterns

/-!
Declarations end with every missing part reported, and their spans begin where they do. A declaration
need not pass a token: at a separator it is empty.
-/

namespace Offside

set_option autoImplicit false

namespace Parser

@[simp] theorem accounts_decls {parser : Parser} {decls : List Decl} :
    parser.Accounts (Decl.listErrors decls) ↔ ∀ decl ∈ decls, parser.Accounts decl.errors :=
  accounts_collected (fun _ => Decl.mem_listErrors) parser

@[simp] theorem accounts_guarded {parser : Parser} {alternatives : List GuardedExpr} :
    parser.Accounts (GuardedExpr.listErrors alternatives) ↔
      ∀ alternative ∈ alternatives, parser.Accounts alternative.errors :=
  accounts_collected (fun _ => GuardedExpr.mem_listErrors) parser

theorem spanFrom_start (parser : Parser) (start : Span) :
    (parser.spanFrom start).start = start.start := by
  unfold spanFrom
  split <;> rfl

end Parser

structure Decl.Backed (start : Span) (decl : Decl) (parser : Parser) : Prop where
  accounted : parser.Accounts decl.errors
  begins : decl.span.start = start.start

namespace Haskell.Grammar

open Offside.Parser Offside.Parse

variable {files : FileId → Prop} {further : Nat} {inner : Level} {parser : Parser}

theorem guardedExpr_ends (sound : inner.Sound files further) {separator : Token}
    (inside : parser.isAtEnd = false) (known : separator ≠ .endOfInput) :
    Ends files further (guardedExpr inner separator) parser fun guarded after =>
      after.Accounts guarded.errors ∧ after.remaining < parser.remaining := by
  unfold guardedExpr
  simp only [ends_aheadSpan]
  apply Ends.passing inside
  intro _
  apply Ends.bind (sound.expression parser.consume)
  intro guard afterGuard _ backedGuard
  apply Ends.expect known
  intro _ afterMark leadsMark
  apply Ends.bind (sound.expression afterMark)
  intro body after leads backedBody
  simp only [ends_spanFrom]
  refine Ends.pure ?_
  have guardEnd := (leadsMark.trans leads).accounts backedGuard.accounted
  simpa using And.intro guardEnd backedBody.accounted

variable (sound : inner.Sound files further)

include sound

theorem whereDecls?_ends (parser : Parser) :
    Ends files further (whereDecls? inner) parser fun decls after =>
      after.Accounts (Decl.listErrors decls) := by
  unfold whereDecls?
  apply Ends.accept (by decide)
  · intro _ _
    exact sound.declBlock parser.consume
  · intro _
    exact Ends.pure (by simp [Decl.listErrors])

theorem finishRightSide_ends {start : Span} {body : Body} (accounted : parser.Accounts body.errors) :
    Ends files further (finishRightSide inner start body) parser fun rightSide after =>
      after.Accounts rightSide.errors := by
  unfold finishRightSide
  apply Ends.bind (whereDecls?_ends sound parser)
  intro decls after leads accountedDecls
  simp only [ends_spanFrom]
  refine Ends.pure ?_
  rw [RightSide.errors, accounts_append]
  exact ⟨leads.accounts accounted, accountedDecls⟩

theorem rightSide_ends {separator : Token} (known : separator ≠ .endOfInput) (parser : Parser) :
    Ends files further (rightSide inner separator) parser fun rightSide after =>
      after.Accounts rightSide.errors := by
  unfold rightSide
  apply Ends.of_ready
  intro ready
  simp only [ends_aheadSpan, ends_isAt]
  split
  · have alternatives : Ends files further (many (isAt .pipe) (guardedExpr inner separator)) parser
        fun alternatives after => ∀ guarded ∈ alternatives, after.Accounts guarded.errors := by
      apply many_ends (stable_accounts GuardedExpr.errors)
      intro start _
      refine ⟨Leads.refl start, fun pipe => ?_⟩
      have found : start.ahead = .pipe := of_decide_eq_true pipe
      have inside := isAtEnd_of_ahead (by decide) found
      exact (guardedExpr_ends sound inside known).mono fun _ _ _ read => read.symm
    apply Ends.bind alternatives
    intro alternatives middle _ accounted
    apply finishRightSide_ends sound
    simpa using accounted
  · apply Ends.accept known
    · intro _ _
      apply Ends.bind (sound.expression parser.consume)
      intro body middle _ backed
      apply finishRightSide_ends sound
      simpa using backed.accounted
    · intro _
      apply Ends.reportUnexpected
      intro _
      refine Ends.pure ?_
      have reported := reportUnexpected_accounts ready.toValid
      simpa [Decl.listErrors] using reported

omit sound in
theorem precedenceAhead_ends (parser : Parser) :
    Ends files further precedenceAhead parser fun _ after => after = parser := by
  unfold precedenceAhead
  simp only [ends_get]
  split
  · exact Ends.pure rfl
  · exact Ends.pure rfl

omit sound in
theorem precedence_ends (parser : Parser) :
    Ends files further precedence parser fun _ _ => True := by
  unfold precedence
  simp only [ends_isAt]
  split
  · rename_i found
    have integer : parser.ahead = .integer := by simpa using found
    have inside := isAtEnd_of_ahead (by decide) integer
    apply Ends.bind (precedenceAhead_ends parser)
    rintro value _ _ rfl
    split
    · apply Ends.reportUnexpected
      intro _
      apply Ends.consume ((isAtEnd_reportUnexpected _).trans inside)
      intro _
      exact Ends.pure trivial
    · apply Ends.consume inside
      intro _
      exact Ends.pure trivial
  · exact Ends.pure trivial

omit sound in
theorem fixityOperator_ends (parser : Parser) :
    Ends files further fixityOperator parser (Name.Backed files) := by
  unfold fixityOperator
  apply Ends.bind (operator?_ends parser)
  intro found middle _ read
  cases found with
  | some name => exact Ends.pure (read name rfl).1
  | none =>
    apply Ends.bind (reject_ends middle)
    intro span after _ rejected
    exact Ends.pure (Name.backed_error rejected.1.accounted rejected.1.placed)

omit sound in
theorem fixityDecl_ends (inside : parser.isAtEnd = false) :
    Ends files further fixityDecl parser (Decl.Backed parser.aheadSpan) := by
  unfold fixityDecl
  simp only [ends_aheadSpan, ends_ahead]
  apply Ends.consume inside
  intro _
  apply Ends.bind (precedence_ends parser.consume)
  intro precedence middle _ _
  apply Ends.bind (separated_ends (by decide) (Name.stable_backed files) fixityOperator_ends middle)
  intro operators after _ backed
  refine Ends.pure ⟨?_, spanFrom_start after parser.aheadSpan⟩
  rw [Decl.errors, FixityDecl.errors, accounts_names]
  exact fun name member => (backed name member).accounted

theorem typeSignature_ends {start : Span} {first : Name} (backed : first.Backed files parser) :
    Ends files further (typeSignature inner start first) parser (Decl.Backed start) := by
  unfold typeSignature
  have variableNames : ∀ parser, Ends files further variableName parser (Name.Backed files) :=
    fun parser => (variableName_ends parser).mono fun name after _ read => read.1
  apply Ends.bind (many_accept_ends (by decide) (Name.stable_backed files) variableNames parser)
  intro later afterLater leadsLater backedLater
  apply Ends.expect (by decide)
  intro _ afterMark leadsMark
  apply Ends.bind (sound.type afterMark)
  intro type after leads backedType
  refine Ends.pure ⟨?_, spanFrom_start after start⟩
  rw [Decl.errors, TypeSignature.errors, accounts_append, accounts_names]
  refine ⟨?_, backedType.accounted⟩
  intro name member
  rcases List.mem_cons.1 member with rfl | member
  · exact ((leadsLater.trans leadsMark).trans leads).accounts backed.accounted
  · exact (leadsMark.trans leads).accounts (backedLater name member).accounted

theorem operatorClause_ends {start : Span} {left : Expr} {operator : Name}
    (backedLeft : left.Backed files parser) (backedOperator : operator.Backed files parser) :
    Ends files further (operatorClause inner start left operator) parser (Decl.Backed start) := by
  unfold operatorClause
  apply Ends.bind (sound.pattern parser)
  intro right middle leads backedRight
  apply Ends.bind (rightSide_ends sound (by decide) middle)
  intro body after goesOn accounted
  refine Ends.pure ⟨?_, spanFrom_start after start⟩
  have nameEnd := (leads.trans goesOn).accounts backedOperator.accounted
  have leftEnd := (leads.trans goesOn).accounts backedLeft.accounted
  have rightEnd := goesOn.accounts backedRight.accounted
  simpa [Expr.listErrors] using
    And.intro nameEnd (And.intro leftEnd (And.intro rightEnd accounted))

theorem declAfterPattern_ends {start : Span} {pattern : Expr} (backed : pattern.Backed files parser) :
    Ends files further (declAfterPattern inner start pattern) parser (Decl.Backed start) := by
  unfold declAfterPattern
  apply Ends.bind (variableOperator?_ends parser)
  intro found middle leads read
  cases found with
  | some operator =>
    exact operatorClause_ends sound (leads.backs backed) (read operator rfl).1
  | none =>
    apply Ends.bind (rightSide_ends sound (by decide) middle)
    intro body after goesOn accounted
    refine Ends.pure ⟨?_, spanFrom_start after start⟩
    have patternEnd := (leads.trans goesOn).accounts backed.accounted
    simpa using And.intro patternEnd accounted

theorem patternAfterVariable_ends {start : Span} {name : Name} (placed : parser.Places files start)
    (backed : name.Backed files parser) :
    Ends files further (patternAfterVariable inner start name) parser (Expr.Backed files) := by
  unfold patternAfterVariable
  apply Ends.bind (aliasAfter_ends sound.patternAtom placed backed)
  intro left middle leads backedLeft
  exact patternAfter_ends sound (leads.places placed) backedLeft

omit sound in
theorem patternContinues_ends (parser : Parser) :
    Ends files further patternContinues parser fun _ _ => True := by
  unfold patternContinues
  simp only [ends_ahead]
  split
  · exact Ends.pure trivial
  · exact (quotedFollows_ends parser).mono fun _ _ _ _ => trivial

theorem functionClause_ends {start : Span} {name : Name} (backed : name.Backed files parser) :
    Ends files further (functionClause inner start name) parser (Decl.Backed start) := by
  unfold functionClause
  apply Ends.bind (patternAtoms_ends sound parser)
  intro parameters middle leads backedParameters
  apply Ends.bind (rightSide_ends sound (by decide) middle)
  intro body after goesOn accounted
  refine Ends.pure ⟨?_, spanFrom_start after start⟩
  have nameEnd := (leads.trans goesOn).accounts backed.accounted
  have parametersEnd : ∀ expr ∈ parameters, after.Accounts expr.errors :=
    fun expr member => goesOn.accounts (backedParameters expr member).accounted
  simpa using And.intro nameEnd (And.intro parametersEnd accounted)

theorem declAfterName_ends {start : Span} {name : Name} (placed : parser.Places files start)
    (backed : name.Backed files parser) :
    Ends files further (declAfterName inner start name) parser (Decl.Backed start) := by
  unfold declAfterName
  simp only [ends_isAt]
  split
  · exact typeSignature_ends sound backed
  · apply Ends.bind (patternContinues_ends parser)
    intro continues afterPeek leadsPeek _
    cases continues with
    | true =>
      apply Ends.bind (patternAfterVariable_ends sound (leadsPeek.places placed)
        (leadsPeek.backs backed))
      intro pattern middle _ backedPattern
      exact declAfterPattern_ends sound backedPattern
    | false =>
      rw [if_neg Bool.false_ne_true]
      apply Ends.bind (variableOperator?_ends afterPeek)
      intro found middle leads read
      have backedMiddle := (leadsPeek.trans leads).backs backed
      cases found with
      | some operator =>
        exact operatorClause_ends sound (backed_identifier backedMiddle) (read operator rfl).1
      | none => exact functionClause_ends sound backedMiddle

omit sound in
theorem parenthesizedOperatorFollows_ends (parser : Parser) :
    Ends files further parenthesizedOperatorFollows parser fun _ after => Alike parser after := by
  unfold parenthesizedOperatorFollows
  apply Ends.peek (Nat.le_refl 1) (by decide)
  intro next middle _ alike _
  split
  · apply Ends.peek (by decide) (by decide)
    intro last after _ alikeLast _
    exact Ends.pure (alike.trans alikeLast)
  · exact Ends.pure alike

theorem patternDecl_ends (start : Span) (parser : Parser) :
    Ends files further (patternDecl inner start) parser (Decl.Backed start) := by
  unfold patternDecl
  apply Ends.bind (sound.pattern parser)
  intro pattern middle _ backed
  exact declAfterPattern_ends sound backed

theorem bindingDecl_ends (parser : Parser) :
    Ends files further (bindingDecl inner) parser (Decl.Backed parser.aheadSpan) := by
  unfold bindingDecl
  apply Ends.of_ready
  intro ready
  simp only [ends_aheadSpan, ends_ahead]
  split
  · apply Ends.bind (variableIdentifier_ends parser)
    intro name middle leads read
    exact declAfterName_ends sound (leads.places ready.toValid.placed) read.1
  · rename_i found
    apply Ends.bind (parenthesizedOperatorFollows_ends parser)
    intro follows middle leads alike
    cases follows with
    | true =>
      have inside := alike.isAtEnd.trans (isAtEnd_of_ahead (by decide) found)
      apply Ends.bind (parenthesizedSymbol_ends variableSymbol_ends inside)
      intro name afterName leadsName read
      exact declAfterName_ends sound ((leads.trans leadsName).places ready.toValid.placed) read.1
    | false => exact patternDecl_ends sound parser.aheadSpan middle
  · exact patternDecl_ends sound parser.aheadSpan parser

theorem decl_ends (parser : Parser) :
    Ends files further (decl inner) parser (Decl.Backed parser.aheadSpan) := by
  unfold decl
  simp only [ends_ahead]
  split
  · exact Ends.pure ⟨by simp, rfl⟩
  iterate 3
    · rename_i found
      exact fixityDecl_ends (isAtEnd_of_ahead (by decide) found)
  · exact bindingDecl_ends sound parser

end Haskell.Grammar

end Offside
