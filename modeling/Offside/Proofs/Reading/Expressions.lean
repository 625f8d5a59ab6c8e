import Offside.Proofs.Grammar.Expressions
import Offside.Proofs.Reading.Declarations

/-!
Expressions are read with one mark for each name, operator, literal and wildcard in them. An operator
that was read past the end of an operand is owed until the chain around takes it up. A chain hands one
back only where a section ends, so none is lost.
-/

namespace Offside.Haskell.Grammar

set_option autoImplicit false

open Offside.Parser Offside.Parse

variable {texts : Position → Option Lexeme} {parser : Parser} {inner : Level}

theorem atom_reads (reads : inner.Reads texts) (parser : Parser) :
    Reads texts [] (atom inner) Expr.marks parser := by
  unfold atom
  simp only [reads_ahead]
  split
  · exact variableOrAlias_reads reads.expressionAtom parser
  · apply Reads.bind (qualifiedIdentifier_reads parser)
    intro name after
    exact Reads.pure (by simp)
  · rename_i found
    exact wildcard_reads found
  · rename_i found
    exact lazyPattern_reads reads.expressionAtom found
  · exact literal_reads parser
  · exact literal_reads parser
  · exact literal_reads parser
  · exact literal_reads parser
  · rename_i found
    exact reads.parentheses parser found
  · rename_i found
    exact reads.brackets parser found
  · exact rejected_reads parser

variable (reads : inner.Reads texts)

include reads

theorem argument_reads (parser : Parser) :
    Reads texts [] (argument inner) (Sum.elim Expr.marks Name.marks) parser := by
  unfold argument
  simp only [reads_isAt]
  split
  · apply Reads.bind (qualifiedTerm_reads parser)
    intro term after
    cases term with
    | operand name => exact Reads.pure (by simp [Term.name])
    | operator name => exact Reads.pure rfl
  · apply Reads.bind (atom_reads reads parser)
    intro expr after
    exact Reads.pure rfl

def Operand.marks (operand : Operand) : List Mark := operand.1.marks ++ operatorMarks operand.2

theorem arguments_reads {start : Span} (function : Expr) (parser : Parser) :
    Reads texts function.marks (arguments inner start function) Operand.marks parser := by
  unfold arguments
  have rounds : Reads texts [] (repeatUntil (do return startsAtom (← Parse.ahead)) (argument inner))
      (fun found => found.1.flatMap Expr.marks ++ operatorMarks found.2) parser := by
    apply repeatUntil_reads
    intro start
    unfold oneRound
    simp only [reads_bind_assoc, reads_ahead, reads_pure_bind]
    split
    · apply Reads.bind (argument_reads reads start)
      intro found after
      exact Reads.pure rfl
    · exact Reads.pure rfl
  apply Reads.bind rounds
  rintro ⟨exprs, operator⟩ after
  simp only
  split
  · rename_i none
    rw [List.getLast?_eq_none_iff] at none
    exact Reads.pure (by simp [Operand.marks, none])
  · apply Reads.join
    intro span final
    exact Reads.pure (by simp [Operand.marks])

theorem application_reads (parser : Parser) :
    Reads texts [] (application inner) Operand.marks parser := by
  unfold application
  simp only [reads_aheadSpan]
  apply Reads.bind (atom_reads reads parser)
  intro function after
  exact arguments_reads reads function after

theorem parameters_reads (parser : Parser) :
    Reads texts [] (parameters inner) (List.flatMap Expr.marks) parser := by
  unfold parameters
  apply Reads.bind (patternAtoms_reads reads parser)
  intro parameters middle
  split
  · apply Reads.reportUnexpected
    exact Reads.pure rfl
  · exact Reads.pure rfl

theorem lambda_reads (found : parser.ahead = .backslash) :
    Reads texts [] (lambda inner) Expr.marks parser := by
  unfold lambda
  simp only [reads_aheadSpan]
  apply Reads.pass found rfl
  apply Reads.bind (parameters_reads reads parser.consume)
  intro parameters middle
  apply Reads.expect rfl
  intro _ afterArrow
  apply Reads.bind (reads.expression afterArrow)
  intro body after
  exact Reads.pure (by simp)

theorem letExpression_reads (found : parser.ahead = .kwLet) :
    Reads texts [] (letExpression inner) Expr.marks parser := by
  unfold letExpression
  simp only [reads_aheadSpan]
  apply Reads.pass found rfl
  apply Reads.bind (reads.declBlock parser.consume)
  intro decls afterDecls
  apply Reads.expect rfl
  intro _ afterIn
  apply Reads.bind (reads.expression afterIn)
  intro body after
  exact Reads.pure (by simp)

theorem branch_reads {keyword : Token} (quiet : keyword.isQuiet = true) (parser : Parser) :
    Reads texts [] (branch inner keyword) Expr.marks parser := by
  unfold branch
  apply Reads.accept_either rfl
  intro _ before
  apply Reads.expect quiet
  intro _ after
  exact reads.expression after

theorem conditional_reads (found : parser.ahead = .kwIf) :
    Reads texts [] (conditional inner) Expr.marks parser := by
  unfold conditional
  simp only [reads_aheadSpan]
  apply Reads.pass found rfl
  apply Reads.bind (reads.expression parser.consume)
  intro condition afterCondition
  apply Reads.bind (branch_reads reads rfl afterCondition)
  intro thenBranch afterThen
  apply Reads.bind (branch_reads reads rfl afterThen)
  intro elseBranch after
  exact Reads.pure (by simp)

theorem caseExpression_reads (found : parser.ahead = .kwCase) :
    Reads texts [] (caseExpression inner) Expr.marks parser := by
  unfold caseExpression
  simp only [reads_aheadSpan]
  apply Reads.pass found rfl
  apply Reads.bind (reads.expression parser.consume)
  intro scrutinee afterScrutinee
  apply Reads.expect rfl
  intro _ afterOf
  apply Reads.bind (reads.alternativeBlock afterOf)
  intro alternatives after
  exact Reads.pure (by simp)

theorem doExpression_reads (found : parser.ahead = .kwDo) :
    Reads texts [] (doExpression inner) Expr.marks parser := by
  unfold doExpression
  simp only [reads_aheadSpan]
  apply Reads.pass found rfl
  apply Reads.bind (reads.statementBlock parser.consume)
  intro statements after
  exact Reads.pure (by simp)

omit reads in
theorem alone_reads {production : Parse Expr}
    (reads : Reads texts [] production Expr.marks parser) :
    Reads texts [] (do return (← production, none)) Operand.marks parser := by
  apply Reads.bind reads
  intro expr after
  exact Reads.pure (by simp [Operand.marks])

theorem operand_reads (parser : Parser) : Reads texts [] (operand inner) Operand.marks parser := by
  unfold operand
  simp only [reads_ahead]
  split
  · rename_i found
    exact alone_reads (lambda_reads reads found)
  · rename_i found
    exact alone_reads (letExpression_reads reads found)
  · rename_i found
    exact alone_reads (conditional_reads reads found)
  · rename_i found
    exact alone_reads (caseExpression_reads reads found)
  · rename_i found
    exact alone_reads (doExpression_reads reads found)
  · exact application_reads reads parser

theorem signedOperand_reads (parser : Parser) :
    Reads texts [] (signedOperand inner) Operand.marks parser := by
  unfold signedOperand
  simp only [reads_isAt]
  split
  · rename_i found
    simp only [reads_aheadSpan]
    apply Reads.pass (by simpa using found) rfl
    apply Reads.bind (operand_reads reads parser.consume)
    rintro ⟨value, operator⟩ after
    apply Reads.join
    intro span final
    exact Reads.pure (by simp [Operand.marks])
  · exact operand_reads reads parser

omit reads in
theorem pendingOperator_reads (owed : List Mark) (pending : Option Name) (parser : Parser) :
    Reads texts (owed ++ operatorMarks pending) (pendingOperator pending)
      (fun found => owed ++ operatorMarks found) parser := by
  cases pending with
  | none => exact (operator?_reads parser).finish (by simp)
  | some name => exact Reads.pure rfl

def chainOn (inner : Level) (inSection : Bool) (start : Span) (bound : Nat) (left : Expr)
    (pending : Option Name) : Parse Operand := fun parser =>
  if chainRemaining pending parser < bound then
    chainBelow inner inSection start (chainRemaining pending parser) left pending parser
  else ((left, pending), parser.raise .stalled)

def chainAfter (inner : Level) (inSection : Bool) (start : Span) (bound : Nat) (left : Expr) :
    Option Name → Parse Operand
  | none => return (left, none)
  | some operator => do
      if inSection && (← isAt .closeParen) then return (left, some operator)
      else
        let (right, next) ← signedOperand inner
        let span ← join start right.span
        chainOn inner inSection start bound (.binary left operator right span) next

omit reads in
theorem chainBelow_eq (inSection : Bool) (start : Span) (bound : Nat) (left : Expr)
    (pending : Option Name) (parser : Parser) :
    chainBelow inner inSection start bound left pending parser =
      (pendingOperator pending >>= chainAfter inner inSection start bound left) parser := by
  rw [chainBelow, bind_apply]
  rcases pendingOperator pending parser with ⟨found, going⟩
  cases found with
  | none => rfl
  | some operator =>
    change (if inSection && decide (going.ahead = .closeParen) then _ else _) =
      (if inSection && decide (going.ahead = .closeParen) then _ else _ : Parse Operand) going
    cases inSection && decide (going.ahead = .closeParen) with
    | true => rfl
    | false => rfl

/-- By induction on the bound: each operator goes between the operands around it. -/
theorem chainBelow_reads {inSection : Bool} {start : Span} (bound : Nat) (left : Expr)
    (pending : Option Name) (parser : Parser) :
    Reads texts (Operand.marks (left, pending))
      (chainBelow inner inSection start bound left pending) Operand.marks parser := by
  induction bound using Nat.strong_induction_on generalizing left pending parser with
  | _ bound induction =>
    have goesOn : ∀ (chain : Expr) (next : Option Name) (after : Parser),
        Reads texts (Operand.marks (chain, next)) (chainOn inner inSection start bound chain next)
          Operand.marks after := by
      intro chain next after
      by_cases progress : chainRemaining next after < bound
      · apply ReadsFrom.congr (if_pos progress)
        exact induction _ progress chain next after
      · intro steady
        have stalls : chainOn inner inSection start bound chain next after =
            ((chain, next), after.raise .stalled) := if_neg progress
        rw [stalls]
        exact ⟨{ steady with }, fun clean => absurd clean (raise_spoils after _)⟩
    apply ReadsFrom.congr (chainBelow_eq inSection start bound left pending parser)
    apply Reads.chain (pendingOperator_reads left.marks pending parser)
    intro found going
    cases found with
    | none => exact Reads.pure rfl
    | some operator =>
      unfold chainAfter
      simp only [reads_isAt]
      split
      · exact Reads.pure rfl
      · apply Reads.bind (signedOperand_reads reads going)
        rintro ⟨right, next⟩ afterRight
        apply Reads.join
        intro span after
        simpa [Operand.marks] using goesOn (.binary left operator right span) next after

/-- An operator is handed back only in front of the closing parenthesis of a section. -/
def Hands (inSection : Bool) (result : Operand × Parser) : Prop :=
  result.2.Clean → result.1.2.isSome = true → inSection = true ∧ result.2.ahead = .closeParen

omit reads in
theorem chainAfter_apply (inSection : Bool) (start : Span) (bound : Nat) (left : Expr)
    (operator : Name) (going : Parser) :
    chainAfter inner inSection start bound left (some operator) going =
      if inSection && decide (going.ahead = .closeParen) then ((left, some operator), going)
      else
        let right := signedOperand inner going
        let joined := join start right.1.1.span right.2
        chainOn inner inSection start bound (.binary left operator right.1.1 joined.1) right.1.2
          joined.2 := by
  change (if inSection && decide (going.ahead = .closeParen) then _ else _ : Parse Operand) going = _
  cases inSection && decide (going.ahead = .closeParen) with
  | true => rfl
  | false => rfl

omit reads in
theorem chainBelow_hands {inSection : Bool} {start : Span} (bound : Nat) (left : Expr)
    (pending : Option Name) (parser : Parser) :
    Hands inSection (chainBelow inner inSection start bound left pending parser) := by
  induction bound using Nat.strong_induction_on generalizing left pending parser with
  | _ bound induction =>
    have goesOn : ∀ (chain : Expr) (next : Option Name) (after : Parser),
        Hands inSection (chainOn inner inSection start bound chain next after) := by
      intro chain next after
      unfold chainOn
      split
      · rename_i progress
        exact induction _ progress chain next after
      · exact fun clean => absurd clean (raise_spoils after _)
    rw [chainBelow_eq, bind_apply]
    cases (pendingOperator pending parser).1 with
    | none => exact fun _ dangling => by cases dangling
    | some operator =>
      rw [chainAfter_apply]
      split
      · rename_i closes
        simp only [Bool.and_eq_true, decide_eq_true_eq] at closes
        exact fun _ _ => closes
      · exact goesOn _ _ _

theorem reads_chainFrom {β : Type} {marks : β → List Mark} {inSection : Bool} {start : Span}
    {next : Operand → Parse β} (first : Operand)
    (later : ∀ operand after, Hands inSection (operand, after) →
      Reads texts operand.marks (next operand) marks after) :
    Reads texts first.marks (chainFrom inner inSection start first.1 first.2 >>= next) marks parser :=
  Reads.chain_known (chainBelow_reads reads _ first.1 first.2 parser)
    (fun operand after => Hands inSection (operand, after))
    (chainBelow_hands _ first.1 first.2 parser) later

theorem chain_reads (parser : Parser) : Reads texts [] (chain inner) Expr.marks parser := by
  unfold chain
  simp only [reads_aheadSpan]
  apply Reads.bind (signedOperand_reads reads parser)
  intro first middle
  apply reads_chainFrom reads first
  rintro ⟨value, dangling⟩ after hands
  apply ReadsFrom.of_clean id id
  intro clean
  cases dangling with
  | none => exact Reads.pure (by simp [Operand.marks])
  | some operator => cases (hands clean rfl).1

theorem annotated_reads {start : Span} (expr : Expr) (parser : Parser) :
    Reads texts expr.marks (annotated inner start expr) Expr.marks parser := by
  unfold annotated
  apply Reads.accept rfl
  · intro _
    apply Reads.bind (reads.type parser.consume)
    intro type after
    exact Reads.pure (by simp)
  · intro _
    exact Reads.pure rfl

theorem expressionProduction_reads (parser : Parser) :
    Reads texts [] (expressionProduction inner) Expr.marks parser := by
  unfold expressionProduction
  simp only [reads_aheadSpan]
  apply Reads.bind (chain_reads reads parser)
  intro expr after
  exact annotated_reads reads expr after

theorem alternative_reads (parser : Parser) :
    Reads texts [] (alternative inner) Alternative.marks parser := by
  unfold alternative
  simp only [reads_aheadSpan]
  apply Reads.bind (reads.pattern parser)
  intro pattern afterPattern
  apply Reads.bind (rightSide_reads reads rfl afterPattern)
  intro body after
  exact Reads.pure (by simp)

theorem statement_reads (parser : Parser) :
    Reads texts [] (statement inner) Statement.marks parser := by
  unfold statement
  simp only [reads_aheadSpan]
  apply Reads.accept rfl
  · intro _
    apply Reads.bind (reads.declBlock parser.consume)
    intro decls afterDecls
    apply Reads.accept rfl
    · intro _
      apply Reads.bind (reads.expression afterDecls.consume)
      intro body after
      exact Reads.pure (by simp)
    · intro _
      exact Reads.pure (by simp)
  · intro _
    apply Reads.bind (reads.expression parser)
    intro expr afterExpr
    apply Reads.accept rfl
    · intro _
      apply Reads.bind (reads.expression afterExpr.consume)
      intro source after
      exact Reads.pure (by simp)
    · intro _
      exact Reads.pure (by simp)

theorem afterLeadingOperator_reads {start : Span} (operator : Name) (parser : Parser) :
    Reads texts operator.marks (afterLeadingOperator inner start operator) Expr.marks parser := by
  unfold afterLeadingOperator
  apply Reads.accept rfl
  · intro _
    exact Reads.pure (by simp)
  · intro _
    apply Reads.bind (chain_reads reads parser)
    intro operand afterOperand
    apply Reads.expectOrSkipTo rfl
    intro _ after
    exact Reads.pure (by simp)

omit reads in
theorem reads_operatorLeads {β : Type} {owed : List Mark} {marks : β → List Mark}
    {next : Bool → Parse β}
    (reads : ∀ leads after, Alike parser after → Reads texts owed (next leads) marks after) :
    Reads texts owed (operatorLeads >>= next) marks parser := by
  unfold operatorLeads
  simp only [reads_bind_assoc, reads_ahead]
  split
  · exact reads true parser ⟨rfl, rfl, rfl⟩
  · split
    · simp only [reads_bind_assoc]
      apply ReadsFrom.peek (Nat.le_refl 1) (by decide)
      intro token after alike _
      exact reads _ after alike
    · exact reads _ parser ⟨rfl, rfl, rfl⟩

/-- The closing parenthesis of a section stands where the operator was handed back. -/
theorem afterFirstOperand_reads {start firstStart : Span} (first : Operand) (parser : Parser) :
    Reads texts first.marks (afterFirstOperand inner start firstStart first) Expr.marks parser := by
  unfold afterFirstOperand
  apply reads_chainFrom reads first
  rintro ⟨value, dangling⟩ after hands
  cases dangling with
  | some operator =>
    apply ReadsFrom.of_clean Steady.consume clean_of_consume
    intro clean
    apply Reads.pass (hands clean rfl).2 rfl
    exact Reads.pure (by simp [Operand.marks])
  | none =>
    have annotates : Reads texts (Operand.marks (value, none)) (annotated inner firstStart value)
        Expr.marks after := by
      simpa [Operand.marks] using annotated_reads reads value after
    apply Reads.chain annotates
    intro element afterElement
    exact enclosed_reads reads.expression element afterElement

theorem parentheses_reads (found : parser.ahead = .openParen) :
    Reads texts [] (parentheses inner) Expr.marks parser := by
  have opened : Spells texts [] [(Token.openParen, parser.aheadSpan)] := Spells.quiet rfl
  unfold parentheses
  simp only [reads_aheadSpan]
  apply ReadsFrom.consume (isAtEnd_of_ahead (by decide) found)
  rw [found]
  apply ReadsFrom.accept (by decide)
  · intro _
    apply ReadsFrom.drop (opened.append (Spells.quiet rfl))
    exact Reads.pure (by simp)
  · intro _
    simp only [reads_isAt, if_neg Bool.false_ne_true]
    split
    · exact tupleConstructor_reads parser.consume
    · apply ReadsFrom.drop opened
      apply reads_operatorLeads
      intro leads after _
      split
      · apply Reads.bind (operator?_reads after)
        intro operator afterOperator
        cases operator with
        | some operator => exact afterLeadingOperator_reads reads operator afterOperator
        | none => exact rejected_reads afterOperator
      · simp only [reads_aheadSpan, reads_isAt]
        split
        · apply Reads.bind (qualifiedTerm_reads after)
          intro term afterTerm
          cases term with
          | operator operator => exact afterLeadingOperator_reads reads operator afterTerm
          | operand name =>
            have applies : Reads texts ([] ++ (Term.operand name).name.marks)
                (arguments inner after.aheadSpan (.identifier name)) Operand.marks afterTerm := by
              simpa [Term.name] using arguments_reads reads (.identifier name) afterTerm
            apply Reads.chain applies
            intro first afterFirst
            exact afterFirstOperand_reads reads first afterFirst
        · apply Reads.bind (signedOperand_reads reads after)
          intro first afterFirst
          exact afterFirstOperand_reads reads first afterFirst

theorem lastElement?_reads (parser : Parser) :
    Reads texts [] (lastElement? inner) Expr.optionMarks parser := by
  unfold lastElement?
  simp only [reads_isAt]
  split
  · exact Reads.pure (by simp)
  · simp only [reads_map]
    exact (reads.expression parser).finish (by simp)

theorem sequenceEnd_reads {start : Span} (first : Expr) (second : Option Expr) (parser : Parser) :
    Reads texts (first.marks ++ Expr.optionMarks second) (sequenceEnd inner start first second)
      Expr.marks parser := by
  unfold sequenceEnd
  apply Reads.bind (lastElement?_reads reads parser)
  intro last middle
  apply Reads.expectOrSkipTo rfl
  intro _ after
  exact Reads.pure (by simp)

theorem comprehensionEnd_reads {start : Span} (element : Expr) (parser : Parser) :
    Reads texts element.marks (comprehensionEnd inner start element) Expr.marks parser := by
  unfold comprehensionEnd
  apply Reads.bind (separated_reads rfl (statement_reads reads) parser)
  intro qualifiers afterQualifiers
  apply Reads.expectOrSkipTo rfl
  intro _ after
  exact Reads.pure (by simp)

theorem brackets_reads (found : parser.ahead = .openBracket) :
    Reads texts [] (brackets inner) Expr.marks parser := by
  unfold brackets
  simp only [reads_aheadSpan]
  apply Reads.pass found rfl
  apply Reads.accept rfl
  · intro _
    exact Reads.pure (by simp)
  · intro _
    apply Reads.bind (reads.expression parser.consume)
    intro first afterFirst
    apply Reads.accept rfl
    · intro _
      simpa using sequenceEnd_reads reads first none afterFirst.consume
    · intro _
      apply Reads.accept rfl
      · intro _
        exact comprehensionEnd_reads reads first afterFirst.consume
      · intro _
        apply Reads.accept rfl
        · intro _
          apply Reads.bind (reads.expression afterFirst.consume)
          intro second afterSecond
          apply Reads.accept rfl
          · intro _
            simpa using sequenceEnd_reads reads first (some second) afterSecond.consume
          · intro _
            apply Reads.bind (many_accept_reads rfl reads.expression afterSecond)
            intro later after
            simpa using listEnd_reads (first :: second :: later) after
        · intro _
          simpa using listEnd_reads [first] afterFirst

end Offside.Haskell.Grammar
