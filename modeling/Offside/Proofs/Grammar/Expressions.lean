import Offside.Haskell.Grammar.Expressions
import Offside.Proofs.Grammar.Declarations

/-!
Expressions end with every missing part reported. An operator chain goes on although an operand may
pass no token: then the operator before it did, or was read past the operand before that.
-/

namespace Offside

set_option autoImplicit false

namespace Parser

@[simp] theorem accounts_alternatives {parser : Parser} {alternatives : List Alternative} :
    parser.Accounts (Alternative.listErrors alternatives) ↔
      ∀ alternative ∈ alternatives, parser.Accounts alternative.errors :=
  accounts_collected (fun _ => Alternative.mem_listErrors) parser

@[simp] theorem accounts_statements {parser : Parser} {statements : List Statement} :
    parser.Accounts (Statement.listErrors statements) ↔
      ∀ statement ∈ statements, parser.Accounts statement.errors :=
  accounts_collected (fun _ => Statement.mem_listErrors) parser

end Parser

namespace Haskell.Grammar

open Offside.Parser Offside.Parse

variable {files : FileId → Prop} {further : Nat} {inner : Level} {parser : Parser}

theorem closesOperand_of_startsAtom {token : Token} (starts : startsAtom token = true) :
    closesOperand token = false := by
  cases token <;> first | rfl | cases starts

variable (sound : inner.Sound files further)

include sound

theorem atom_ends (parser : Parser) :
    Ends files further (atom inner) parser fun expr after =>
      expr.Backed files after ∧
        (startsAtom parser.ahead = true → after.remaining < parser.remaining) := by
  have always : ∀ {production : Parse Expr},
      Ends files further production parser (readsExpr files parser) →
      Ends files further production parser fun expr after =>
        expr.Backed files after ∧
          (startsAtom parser.ahead = true → after.remaining < parser.remaining) := by
    intro production ends
    exact ends.mono fun expr after _ read => ⟨read.1, fun _ => read.2⟩
  unfold atom
  simp only [ends_ahead]
  split
  · rename_i found
    exact always (variableOrAlias_ends sound.expressionAtom (isAtEnd_of_ahead (by decide) found))
  · rename_i found
    apply Ends.bind (qualifiedIdentifier_ends parser)
    intro name after _ read
    exact Ends.pure ⟨backed_identifier read.1,
      fun _ => read.2 (isAtEnd_of_ahead (by decide) found)⟩
  · rename_i found
    exact always (wildcard_ends (isAtEnd_of_ahead (by decide) found))
  · rename_i found
    exact always (lazyPattern_ends sound.expressionAtom (isAtEnd_of_ahead (by decide) found))
  iterate 4
    · apply (literal_ends parser).mono
      intro expr after _ read
      exact ⟨read.1, fun starts => read.2 (closesOperand_of_startsAtom starts)⟩
  · rename_i found
    exact always (sound.parentheses parser (isAtEnd_of_ahead (by decide) found))
  · rename_i found
    exact always (sound.brackets parser (isAtEnd_of_ahead (by decide) found))
  · apply Ends.bind (reject_ends parser)
    intro span after _ rejected
    exact Ends.pure ⟨backed_error rejected.1,
      fun starts => rejected.2 (closesOperand_of_startsAtom starts)⟩

theorem argument_ends (starts : startsAtom parser.ahead = true) :
    Ends files further (argument inner) parser fun found after =>
      after.remaining < parser.remaining ∧
        found.elim (fun expr => expr.Backed files after) (fun name => name.Backed files after) := by
  have inside := isAtEnd_of_kind rfl starts
  unfold argument
  simp only [ends_isAt]
  split
  · apply Ends.bind (qualifiedTerm_ends parser)
    intro term after _ read
    cases term with
    | operand name => exact Ends.pure ⟨read.2 inside, backed_identifier read.1⟩
    | operator name => exact Ends.pure ⟨read.2 inside, read.1⟩
  · apply Ends.bind (atom_ends sound parser)
    intro expr after _ read
    exact Ends.pure ⟨read.2 starts, read.1⟩

/-- An operand was read. An operator read past its end comes after progress since the given state. -/
structure Operand.Backed (files : FileId → Prop) (start : Parser) (operand : Operand)
    (parser : Parser) : Prop where
  value : operand.1.Backed files parser
  operator : ∀ name ∈ operand.2, name.Backed files parser
  progress : operand.2.isSome = true → parser.remaining < start.remaining

theorem arguments_ends {start : Span} {function : Expr} (placed : parser.Places files start)
    (backed : function.Backed files parser) :
    Ends files further (arguments inner start function) parser (Operand.Backed files parser) := by
  unfold arguments
  have rounds : Ends files further
      (repeatUntil (do return startsAtom (← ahead)) (argument inner)) parser fun found after =>
        (∀ expr ∈ found.1, expr.Backed files after) ∧
          ∀ name ∈ found.2, name.Backed files after ∧ after.remaining < parser.remaining := by
    apply repeatUntil_ends (Expr.stable_backed files)
    intro start leads
    simp only [ends_ahead]
    apply Ends.pure
    intro starts
    apply (argument_ends sound starts).mono
    intro found after _ read
    cases found with
    | inl expr => exact ⟨read.1, read.2⟩
    | inr name => exact ⟨read.2, Nat.lt_of_lt_of_le read.1 leads.remaining_le⟩
  apply Ends.bind rounds
  rintro ⟨exprs, operator⟩ middle leads ⟨backedExprs, backedOperator⟩
  simp only at backedExprs backedOperator ⊢
  have progress : operator.isSome = true → middle.remaining < parser.remaining := by
    intro found
    obtain ⟨name, rfl⟩ := Option.isSome_iff_exists.1 found
    exact (backedOperator name rfl).2
  split
  · exact Ends.pure ⟨leads.backs backed, fun name member => (backedOperator name member).1,
      progress⟩
  · rename_i last found
    have backedLast := backedExprs last (List.mem_of_getLast? found)
    apply Ends.bind (join_ends (leads.places placed) backedLast.placed)
    intro span after goesOn placedSpan
    have functionEnd := (leads.trans goesOn).accounts backed.accounted
    have exprsEnd : ∀ expr ∈ exprs, after.Accounts expr.errors := fun expr member =>
      goesOn.accounts (backedExprs expr member).accounted
    refine Ends.pure ⟨⟨?_, placedSpan⟩, ?_, ?_⟩
    · simpa using And.intro functionEnd exprsEnd
    · exact fun name member => goesOn.backs (backedOperator name member).1
    · exact fun found => Nat.lt_of_le_of_lt goesOn.remaining_le (progress found)

theorem application_ends (parser : Parser) :
    Ends files further (application inner) parser (Operand.Backed files parser) := by
  unfold application
  apply Ends.of_ready
  intro ready
  simp only [ends_aheadSpan]
  apply Ends.bind (atom_ends sound parser)
  intro function middle leads read
  apply (arguments_ends sound (leads.places ready.toValid.placed) read.1).mono
  intro operand after _ backed
  exact ⟨backed.value, backed.operator,
    fun found => Nat.lt_of_lt_of_le (backed.progress found) leads.remaining_le⟩

theorem parameters_ends (parser : Parser) :
    Ends files further (parameters inner) parser fun exprs after =>
      ∀ expr ∈ exprs, expr.Backed files after := by
  unfold parameters
  apply Ends.bind (patternAtoms_ends sound parser)
  intro exprs middle _ backed
  split
  · apply Ends.reportUnexpected
    intro leads
    exact Ends.pure fun expr member => leads.backs (backed expr member)
  · exact Ends.pure backed

theorem lambda_ends (inside : parser.isAtEnd = false) :
    Ends files further (lambda inner) parser (Expr.Backed files) := by
  unfold lambda
  apply Ends.of_ready
  intro ready
  simp only [ends_aheadSpan]
  apply Ends.consume inside
  intro leadsSlash
  apply Ends.bind (parameters_ends sound parser.consume)
  intro parameters middle leads backed
  apply Ends.expect (by decide)
  intro _ afterArrow leadsArrow
  apply Ends.bind (sound.expression afterArrow)
  intro body after leadsBody backedBody
  have goesOn := leadsArrow.trans leadsBody
  have placed := ((leadsSlash.trans leads).trans goesOn).places ready.toValid.placed
  have parametersEnd : ∀ expr ∈ parameters, after.Accounts expr.errors := fun expr member =>
    goesOn.accounts (backed expr member).accounted
  refine Ends.pure ⟨?_, placed.spanFrom⟩
  simpa using And.intro parametersEnd backedBody.accounted

theorem letExpression_ends (inside : parser.isAtEnd = false) :
    Ends files further (letExpression inner) parser (Expr.Backed files) := by
  unfold letExpression
  apply Ends.of_ready
  intro ready
  simp only [ends_aheadSpan]
  apply Ends.consume inside
  intro leadsLet
  apply Ends.bind (sound.declBlock parser.consume)
  intro decls afterDecls leadsDecls accounted
  apply Ends.expect (by decide)
  intro _ afterIn leadsIn
  apply Ends.bind (sound.expression afterIn)
  intro body after leadsBody backedBody
  have placed := (((leadsLet.trans leadsDecls).trans leadsIn).trans leadsBody).places
    ready.toValid.placed
  refine Ends.pure ⟨?_, placed.spanFrom⟩
  rw [Expr.errors, accounts_append]
  exact ⟨(leadsIn.trans leadsBody).accounts accounted, backedBody.accounted⟩

theorem branch_ends {keyword : Token} (known : keyword ≠ .endOfInput) (parser : Parser) :
    Ends files further (branch inner keyword) parser (Expr.Backed files) := by
  unfold branch
  apply Ends.accept_either (by decide)
  intro _ afterMark _
  apply Ends.expect known
  intro _ afterKeyword _
  exact sound.expression afterKeyword

theorem conditional_ends (inside : parser.isAtEnd = false) :
    Ends files further (conditional inner) parser (Expr.Backed files) := by
  unfold conditional
  apply Ends.of_ready
  intro ready
  simp only [ends_aheadSpan]
  apply Ends.consume inside
  intro leadsIf
  apply Ends.bind (sound.expression parser.consume)
  intro condition afterCondition leadsCondition backedCondition
  apply Ends.bind (branch_ends sound (by decide) afterCondition)
  intro thenBranch afterThen leadsThen backedThen
  apply Ends.bind (branch_ends sound (by decide) afterThen)
  intro elseBranch after leadsElse backedElse
  have placed := (((leadsIf.trans leadsCondition).trans leadsThen).trans leadsElse).places
    ready.toValid.placed
  have conditionEnd := (leadsThen.trans leadsElse).accounts backedCondition.accounted
  have thenEnd := leadsElse.accounts backedThen.accounted
  refine Ends.pure ⟨?_, placed.spanFrom⟩
  simpa using
    And.intro conditionEnd (And.intro thenEnd backedElse.accounted)

theorem caseExpression_ends (inside : parser.isAtEnd = false) :
    Ends files further (caseExpression inner) parser (Expr.Backed files) := by
  unfold caseExpression
  apply Ends.of_ready
  intro ready
  simp only [ends_aheadSpan]
  apply Ends.consume inside
  intro leadsCase
  apply Ends.bind (sound.expression parser.consume)
  intro scrutinee afterScrutinee leadsScrutinee backed
  apply Ends.expect (by decide)
  intro _ afterOf leadsOf
  apply Ends.bind (sound.alternativeBlock afterOf)
  intro alternatives after leads accounted
  have placed := (((leadsCase.trans leadsScrutinee).trans leadsOf).trans leads).places
    ready.toValid.placed
  refine Ends.pure ⟨?_, placed.spanFrom⟩
  rw [Expr.errors, accounts_append]
  exact ⟨(leadsOf.trans leads).accounts backed.accounted, accounted⟩

theorem doExpression_ends (inside : parser.isAtEnd = false) :
    Ends files further (doExpression inner) parser (Expr.Backed files) := by
  unfold doExpression
  apply Ends.of_ready
  intro ready
  simp only [ends_aheadSpan]
  apply Ends.consume inside
  intro leadsDo
  apply Ends.bind (sound.statementBlock parser.consume)
  intro statements after leads accounted
  have placed := (leadsDo.trans leads).places ready.toValid.placed
  refine Ends.pure ⟨?_, placed.spanFrom⟩
  rw [Expr.errors]
  exact accounted

theorem operand_ends (parser : Parser) :
    Ends files further (operand inner) parser (Operand.Backed files parser) := by
  have alone : ∀ {production : Parse Expr},
      Ends files further production parser (Expr.Backed files) →
      Ends files further (do return (← production, none)) parser
        (Operand.Backed files parser) := by
    intro production ends
    apply Ends.bind ends
    intro expr after _ backed
    exact Ends.pure ⟨backed, by simp, by simp⟩
  unfold operand
  simp only [ends_ahead]
  split
  · rename_i found
    exact alone (lambda_ends sound (isAtEnd_of_ahead (by decide) found))
  · rename_i found
    exact alone (letExpression_ends sound (isAtEnd_of_ahead (by decide) found))
  · rename_i found
    exact alone (conditional_ends sound (isAtEnd_of_ahead (by decide) found))
  · rename_i found
    exact alone (caseExpression_ends sound (isAtEnd_of_ahead (by decide) found))
  · rename_i found
    exact alone (doExpression_ends sound (isAtEnd_of_ahead (by decide) found))
  · exact application_ends sound parser

theorem signedOperand_ends (parser : Parser) :
    Ends files further (signedOperand inner) parser (Operand.Backed files parser) := by
  unfold signedOperand
  apply Ends.of_ready
  intro ready
  simp only [ends_isAt]
  split
  · rename_i found
    have minus : parser.ahead = .minus := by simpa using found
    have inside := isAtEnd_of_ahead (by decide) minus
    simp only [ends_aheadSpan]
    apply Ends.consume inside
    intro leadsMinus
    apply Ends.bind (operand_ends sound parser.consume)
    rintro ⟨value, operator⟩ middle leads backed
    have placed := (leadsMinus.trans leads).places ready.toValid.placed
    apply Ends.bind (join_ends placed backed.value.placed)
    intro span after goesOn placedSpan
    refine Ends.pure ⟨⟨?_, placedSpan⟩, ?_, fun _ => ?_⟩
    · simpa using goesOn.accounts backed.value.accounted
    · exact fun name member => goesOn.backs (backed.operator name member)
    · exact Nat.lt_of_le_of_lt (leads.trans goesOn).remaining_le (remaining_consume_lt inside)
  · exact operand_ends sound parser

omit sound in
theorem pendingOperator_ends {pending : Option Name}
    (backed : ∀ name ∈ pending, name.Backed files parser) :
    Ends files further (pendingOperator pending) parser fun found after =>
      ∀ name ∈ found, name.Backed files after ∧
        2 * after.remaining < chainRemaining pending parser := by
  cases pending with
  | some operator =>
    apply Ends.pure
    intro name member
    exact ⟨backed name member, Nat.lt_succ_self _⟩
  | none =>
    apply (operator?_ends parser).mono
    intro found after _ read name member
    have passed := (read name member).2
    refine ⟨(read name member).1, ?_⟩
    change 2 * after.remaining < 2 * parser.remaining
    omega

omit sound in
/-- An operand leaves less to a chain than the operator before it did. -/
theorem Operand.Backed.chainRemaining_lt {start : Parser} {operand : Operand} {bound : Nat}
    (backed : operand.Backed files start parser) (leads : Leads files start parser)
    (below : 2 * start.remaining < bound) : chainRemaining operand.2 parser < bound := by
  have fewer := leads.remaining_le
  unfold chainRemaining
  cases found : operand.2 with
  | none =>
    simp only [Option.isSome_none, Bool.toNat_false]
    omega
  | some name =>
    have passed := backed.progress (by rw [found]; rfl)
    simp only [Option.isSome_some, Bool.toNat_true]
    omega

/-- A chain ends with no operator beside it, or with one that a closing parenthesis follows. The
induction is on what remains before the next operator. -/
theorem chainBelow_ends (inSection : Bool) (start : Span) (bound : Nat) (left : Expr)
    (pending : Option Name) (parser : Parser) (bounded : chainRemaining pending parser = bound)
    (placed : parser.Places files start) (backed : left.Backed files parser)
    (backedPending : ∀ name ∈ pending, name.Backed files parser) :
    Ends files further (chainBelow inner inSection start bound left pending) parser
      fun operand after =>
        operand.1.Backed files after ∧
          ∀ name ∈ operand.2, name.Backed files after ∧ after.ahead = .closeParen := by
  induction bound using Nat.strong_induction_on generalizing left pending parser with
  | _ bound induction =>
    intro ready
    obtain ⟨leadsOperator, found⟩ := pendingOperator_ends backedPending ready
    rw [chainBelow]
    rcases answer : pendingOperator pending parser with ⟨operator, going⟩
    rw [answer] at leadsOperator found
    cases operator with
    | none => exact ⟨leadsOperator, leadsOperator.backs backed, by simp⟩
    | some operator =>
      obtain ⟨backedOperator, below⟩ := found operator rfl
      simp only at backedOperator below leadsOperator ⊢
      split
      · rename_i closes
        have closed : going.ahead = .closeParen := by
          simp only [Bool.and_eq_true, decide_eq_true_eq] at closes
          exact closes.2
        refine ⟨leadsOperator, leadsOperator.backs backed, ?_⟩
        intro name member
        rw [← Option.some.inj member]
        exact ⟨backedOperator, closed⟩
      · have readyGoing := leadsOperator.ready ready
        obtain ⟨leadsOperand, backedOperand⟩ := signedOperand_ends sound going readyGoing
        rcases answer : signedOperand inner going with ⟨⟨right, next⟩, after⟩
        rw [answer] at leadsOperand backedOperand
        have placedStart := (leadsOperator.trans leadsOperand).places placed
        obtain ⟨leadsJoin, placedSpan⟩ := join_ends placedStart backedOperand.value.placed
          (leadsOperand.ready readyGoing)
        rcases joining : join start right.span after with ⟨span, joined⟩
        simp only [joining] at leadsJoin placedSpan leadsOperand backedOperand ⊢
        have leads := (leadsOperator.trans leadsOperand).trans leadsJoin
        have operandJoined : Operand.Backed files going (right, next) joined :=
          ⟨leadsJoin.backs backedOperand.value,
            fun name member => leadsJoin.backs (backedOperand.operator name member),
            fun found => Nat.lt_of_le_of_lt leadsJoin.remaining_le
              (backedOperand.progress found)⟩
        have fewer : chainRemaining next joined < bound := by
          rw [← bounded]
          exact operandJoined.chainRemaining_lt (leadsOperand.trans leadsJoin) below
        have backedChain : (Expr.binary left operator right span).Backed files joined := by
          refine ⟨?_, placedSpan⟩
          have leftEnd := leads.accounts backed.accounted
          have operatorEnd := (leadsOperand.trans leadsJoin).accounts backedOperator.accounted
          simpa using
            And.intro leftEnd (And.intro operatorEnd operandJoined.value.accounted)
        rw [if_pos fewer]
        obtain ⟨leadsRest, ended⟩ := induction _ fewer _ next joined rfl
          (leads.places placed) backedChain operandJoined.operator (leads.ready ready)
        exact ⟨leads.trans leadsRest, ended⟩

theorem chainFrom_ends (inSection : Bool) {start : Span} {left : Expr} {pending : Option Name}
    (placed : parser.Places files start) (backed : left.Backed files parser)
    (backedPending : ∀ name ∈ pending, name.Backed files parser) :
    Ends files further (chainFrom inner inSection start left pending) parser fun operand after =>
      operand.1.Backed files after ∧
        ∀ name ∈ operand.2, name.Backed files after ∧ after.ahead = .closeParen :=
  chainBelow_ends sound inSection start _ left pending parser rfl placed backed backedPending

theorem chain_ends (parser : Parser) :
    Ends files further (chain inner) parser (Expr.Backed files) := by
  unfold chain
  apply Ends.of_ready
  intro ready
  simp only [ends_aheadSpan]
  apply Ends.bind (signedOperand_ends sound parser)
  rintro ⟨first, pending⟩ middle leads backed
  have placed := leads.places ready.toValid.placed
  apply Ends.bind (chainFrom_ends sound false placed backed.value backed.operator)
  rintro ⟨value, _⟩ after _ ended
  exact Ends.pure ended.1

theorem annotated_ends {start : Span} {expr : Expr} (placed : parser.Places files start)
    (backed : expr.Backed files parser) :
    Ends files further (annotated inner start expr) parser (Expr.Backed files) := by
  unfold annotated
  apply Ends.accept (by decide)
  · intro _ leadsMark
    apply Ends.bind (sound.type parser.consume)
    intro type after leads backedType
    have exprEnd := (leadsMark.trans leads).accounts backed.accounted
    refine Ends.pure ⟨?_, ((leadsMark.trans leads).places placed).spanFrom⟩
    simpa using And.intro exprEnd backedType.accounted
  · intro _
    exact Ends.pure backed

theorem expressionProduction_ends (parser : Parser) :
    Ends files further (expressionProduction inner) parser (Expr.Backed files) := by
  unfold expressionProduction
  apply Ends.of_ready
  intro ready
  simp only [ends_aheadSpan]
  apply Ends.bind (chain_ends sound parser)
  intro expr middle leads backed
  exact annotated_ends sound (leads.places ready.toValid.placed) backed

theorem alternative_ends (parser : Parser) :
    Ends files further (alternative inner) parser fun alternative after =>
      after.Accounts alternative.errors := by
  unfold alternative
  simp only [ends_aheadSpan]
  apply Ends.bind (sound.pattern parser)
  intro pattern middle _ backed
  apply Ends.bind (rightSide_ends sound (by decide) middle)
  intro body after leads accounted
  simp only [ends_spanFrom]
  refine Ends.pure ?_
  simpa using And.intro (leads.accounts backed.accounted) accounted

theorem statement_ends (parser : Parser) :
    Ends files further (statement inner) parser fun statement after =>
      after.Accounts statement.errors := by
  unfold statement
  simp only [ends_aheadSpan]
  apply Ends.accept (by decide)
  · intro _ _
    apply Ends.bind (sound.declBlock parser.consume)
    intro decls middle _ accounted
    apply Ends.accept (by decide)
    · intro _ leadsIn
      apply Ends.bind (sound.expression middle.consume)
      intro body after leads backed
      simp only [ends_spanFrom]
      refine Ends.pure ?_
      rw [Statement.errors, Expr.errors, accounts_append]
      exact ⟨(leadsIn.trans leads).accounts accounted, backed.accounted⟩
    · intro _
      simp only [Bool.false_eq_true, if_false, ends_spanFrom]
      refine Ends.pure ?_
      rw [Statement.errors]
      exact accounted
  · intro _
    apply Ends.bind (sound.expression parser)
    intro expr middle _ backed
    apply Ends.accept (by decide)
    · intro _ leadsArrow
      apply Ends.bind (sound.expression middle.consume)
      intro source after leads backedSource
      simp only [ends_spanFrom]
      refine Ends.pure ?_
      have exprEnd := (leadsArrow.trans leads).accounts backed.accounted
      simpa using And.intro exprEnd backedSource.accounted
    · intro _
      refine Ends.pure ?_
      simpa using backed.accounted

theorem afterLeadingOperator_ends {start : Span} {operator : Name}
    (placed : parser.Places files start) (backed : operator.Backed files parser) :
    Ends files further (afterLeadingOperator inner start operator) parser (Expr.Backed files) := by
  unfold afterLeadingOperator
  apply Ends.accept (by decide)
  · intro _ leads
    exact Ends.pure (backed_identifier (leads.backs backed))
  · intro _
    apply Ends.bind (chain_ends sound parser)
    intro operand middle leads backedOperand
    apply Ends.expectOrSkipTo (by decide)
    intro _ after leadsClose
    have operatorEnd := (leads.trans leadsClose).accounts backed.accounted
    have operandEnd := leadsClose.accounts backedOperand.accounted
    refine Ends.pure ⟨?_, ((leads.trans leadsClose).places placed).spanFrom⟩
    simpa using And.intro operatorEnd operandEnd

omit sound in
theorem operatorLeads_ends (parser : Parser) :
    Ends files further operatorLeads parser fun _ _ => True := by
  unfold operatorLeads
  simp only [ends_ahead]
  split
  · exact Ends.pure trivial
  · split
    · apply Ends.peek (Nat.le_refl 1) (by decide)
      intro next after _ _ _
      exact Ends.pure trivial
    · exact Ends.pure trivial

theorem afterFirstOperand_ends {start firstStart : Span} {first : Operand} {origin : Parser}
    (placed : parser.Places files start) (placedFirst : parser.Places files firstStart)
    (backed : first.Backed files origin parser) :
    Ends files further (afterFirstOperand inner start firstStart first) parser
      (Expr.Backed files) := by
  unfold afterFirstOperand
  apply Ends.bind (chainFrom_ends sound true placedFirst backed.value backed.operator)
  rintro ⟨value, dangling⟩ middle leads ⟨backedValue, backedDangling⟩
  have placedMiddle := leads.places placed
  cases dangling with
  | some operator =>
    obtain ⟨backedOperator, closed⟩ := backedDangling operator rfl
    apply Ends.consume (isAtEnd_of_ahead (by decide) closed)
    intro leadsClose
    have valueEnd := leadsClose.accounts backedValue.accounted
    have operatorEnd := leadsClose.accounts backedOperator.accounted
    refine Ends.pure ⟨?_, (leadsClose.places placedMiddle).spanFrom⟩
    simpa using And.intro valueEnd operatorEnd
  | none =>
    apply Ends.bind (annotated_ends sound (leads.places placedFirst) backedValue)
    intro element after goesOn backedElement
    have placedEnd := goesOn.places placedMiddle
    exact enclosed_ends sound.expression placedEnd backedElement

theorem parentheses_ends (inside : parser.isAtEnd = false) :
    Ends files further (parentheses inner) parser (readsExpr files parser) := by
  unfold parentheses
  apply Ends.of_ready
  intro ready
  simp only [ends_aheadSpan]
  apply Ends.passing inside
  intro leads
  have placed := leads.places ready.toValid.placed
  apply Ends.accept (by decide)
  · intro _ leadsClose
    exact Ends.pure ⟨by simp, (leadsClose.places placed).spanFrom⟩
  · intro _
    simp only [Bool.false_eq_true, if_false, ends_isAt]
    split
    · exact tupleConstructor_ends placed
    · apply Ends.bind (operatorLeads_ends parser.consume)
      intro operatorFirst middle leadsMiddle _
      have placedMiddle := leadsMiddle.places placed
      cases operatorFirst with
      | true =>
        apply Ends.bind (operator?_ends middle)
        intro found after leadsOperator read
        cases found with
        | some operator =>
          exact afterLeadingOperator_ends sound (leadsOperator.places placedMiddle)
            (read operator rfl).1
        | none =>
          apply Ends.bind (reject_ends after)
          intro span final _ rejected
          exact Ends.pure (backed_error rejected.1)
      | false =>
        apply Ends.of_ready
        intro readyMiddle
        simp only [Bool.false_eq_true, if_false, ends_aheadSpan, ends_isAt]
        split
        · apply Ends.bind (qualifiedTerm_ends middle)
          intro term after leadsTerm read
          have placedAfter := leadsTerm.places placedMiddle
          cases term with
          | operator operator => exact afterLeadingOperator_ends sound placedAfter read.1
          | operand name =>
            have placedFirst := leadsTerm.places readyMiddle.toValid.placed
            apply Ends.bind (arguments_ends sound placedFirst (backed_identifier read.1))
            intro first final goesOn backed
            exact afterFirstOperand_ends sound (goesOn.places placedAfter)
              (goesOn.places placedFirst) backed
        · apply Ends.bind (signedOperand_ends sound middle)
          intro first after goesOn backed
          exact afterFirstOperand_ends sound (goesOn.places placedMiddle)
            (goesOn.places readyMiddle.toValid.placed) backed

theorem lastElement?_ends (parser : Parser) :
    Ends files further (lastElement? inner) parser fun last after =>
      after.Accounts (Expr.optionErrors last) := by
  unfold lastElement?
  simp only [ends_isAt]
  split
  · exact Ends.pure (by simp [Expr.optionErrors])
  · apply Ends.map
    apply (sound.expression parser).mono
    intro expr after _ backed
    simpa [Expr.optionErrors] using backed.accounted

theorem sequenceEnd_ends {start : Span} {first : Expr} {second : Option Expr}
    (placed : parser.Places files start) (firstAccounted : parser.Accounts first.errors)
    (secondAccounted : parser.Accounts (Expr.optionErrors second)) :
    Ends files further (sequenceEnd inner start first second) parser (Expr.Backed files) := by
  unfold sequenceEnd
  apply Ends.bind (lastElement?_ends sound parser)
  intro last middle leads lastAccounted
  apply Ends.expectOrSkipTo (by decide)
  intro _ after leadsClose
  have goesOn := leads.trans leadsClose
  refine Ends.pure ⟨?_, (goesOn.places placed).spanFrom⟩
  rw [Expr.errors, accounts_append, accounts_append]
  exact ⟨⟨goesOn.accounts firstAccounted, goesOn.accounts secondAccounted⟩,
    leadsClose.accounts lastAccounted⟩

theorem comprehensionEnd_ends {start : Span} {element : Expr} (placed : parser.Places files start)
    (accounted : parser.Accounts element.errors) :
    Ends files further (comprehensionEnd inner start element) parser (Expr.Backed files) := by
  unfold comprehensionEnd
  apply Ends.bind (separated_ends (by decide) (stable_accounts Statement.errors)
    (statement_ends sound) parser)
  intro qualifiers middle leads accountedQualifiers
  apply Ends.expectOrSkipTo (by decide)
  intro _ after leadsClose
  have goesOn := leads.trans leadsClose
  have qualifiersEnd : ∀ statement ∈ qualifiers, after.Accounts statement.errors :=
    fun statement member => leadsClose.accounts (accountedQualifiers statement member)
  refine Ends.pure ⟨?_, (goesOn.places placed).spanFrom⟩
  simpa using And.intro (goesOn.accounts accounted) qualifiersEnd

theorem brackets_ends (inside : parser.isAtEnd = false) :
    Ends files further (brackets inner) parser (readsExpr files parser) := by
  unfold brackets
  apply Ends.of_ready
  intro ready
  simp only [ends_aheadSpan]
  apply Ends.passing inside
  intro leads
  have placed := leads.places ready.toValid.placed
  apply Ends.accept (by decide)
  · intro _ leadsClose
    exact Ends.pure ⟨by simp [Expr.listErrors], (leadsClose.places placed).spanFrom⟩
  · intro _
    apply Ends.bind (sound.expression parser.consume)
    intro first afterFirst leadsFirst backedFirst
    have placedFirst := leadsFirst.places placed
    apply Ends.accept (by decide)
    · intro _ leadsDots
      exact sequenceEnd_ends sound (leadsDots.places placedFirst)
        (leadsDots.accounts backedFirst.accounted) (by simp [Expr.optionErrors])
    · intro _
      apply Ends.accept (by decide)
      · intro _ leadsPipe
        exact comprehensionEnd_ends sound (leadsPipe.places placedFirst)
          (leadsPipe.accounts backedFirst.accounted)
      · intro _
        apply Ends.accept (by decide)
        · intro _ leadsComma
          apply Ends.bind (sound.expression afterFirst.consume)
          intro second afterSecond leadsSecond backedSecond
          have placedSecond := (leadsComma.trans leadsSecond).places placedFirst
          have firstSecond := (leadsComma.trans leadsSecond).backs backedFirst
          apply Ends.accept (by decide)
          · intro _ leadsDots
            apply sequenceEnd_ends sound (leadsDots.places placedSecond)
              (leadsDots.accounts firstSecond.accounted)
            simpa [Expr.optionErrors] using leadsDots.accounts backedSecond.accounted
          · intro _
            apply Ends.bind (many_accept_ends (by decide) (Expr.stable_backed files)
              sound.expression afterSecond)
            intro later after goesOn backedLater
            apply listEnd_ends (goesOn.places placedSecond)
            intro expr member
            rcases List.mem_cons.1 member with rfl | member
            · exact goesOn.backs firstSecond
            · rcases List.mem_cons.1 member with rfl | member
              · exact goesOn.backs backedSecond
              · exact backedLater expr member
        · intro _
          apply listEnd_ends placedFirst
          intro expr member
          rw [List.mem_singleton.1 member]
          exact backedFirst

end Haskell.Grammar

end Offside
