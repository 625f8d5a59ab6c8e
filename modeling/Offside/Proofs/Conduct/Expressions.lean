import Offside.Haskell.Grammar.Expressions
import Offside.Proofs.Parser.Conduct

/-!
Names, types and patterns over two levels that agree under a conduct agree under it themselves. Each
production is followed step by step.
-/

namespace Offside.Haskell.Grammar

set_option autoImplicit false

open Offside.Parse

variable {α : Type} {kind : Conduct} {inner other : Level}

theorem nameAt_stays (token : Token) : Stays kind (nameAt token) :=
  .look fun _ => (Agrees.expect token).bind fun _ => .ite (.pure _) (.pure _)

theorem variableIdentifier_stays : Stays kind variableIdentifier := nameAt_stays _

theorem properIdentifier_stays : Stays kind properIdentifier := nameAt_stays _

theorem variableSymbol_stays : Stays kind variableSymbol :=
  .look fun _ => .look fun _ =>
    .ite (Agrees.consume.bind fun _ => .pure _) (Agrees.fail.bind fun _ => .pure _)

theorem constructorSymbol_stays : Stays kind constructorSymbol :=
  .look fun _ => .look fun _ =>
    .ite (Agrees.consume.bind fun _ => .pure _) (Agrees.fail.bind fun _ => .pure _)

theorem symbol_stays :
    Stays kind symbol := .look fun _ => .ite constructorSymbol_stays variableSymbol_stays

theorem qualifierFollows_stays : Stays kind qualifierFollows :=
  .look fun _ => .ite (.pure _) <| (Agrees.peek 1).bind fun _ => .ite (.pure _) <|
    (Agrees.peek 2).bind fun _ => .ite
      (.look fun _ => (Agrees.peekSpan 1).bind fun _ => (Agrees.peekSpan 2).bind fun _ => .pure _)
      (.pure _)

theorem qualifier_stays : Stays kind qualifier :=
  .look fun _ => Agrees.consume.bind fun _ => Agrees.consume.bind fun _ => .pure _

theorem ofSegments_stays (segments : List Name) : Stays kind (ofSegments segments) := .orRaise _

theorem qualifiers_stays : Stays kind (many qualifierFollows qualifier) :=
  .many qualifierFollows_stays qualifier_stays

theorem qualifiedBy_stays {last : Parse Name} (stays : Stays kind last) :
    Stays kind (qualifiedBy last) :=
  qualifiers_stays.bind fun _ => stays.bind fun _ => ofSegments_stays _

theorem eitherIdentifier_stays : Stays kind eitherIdentifier :=
  .look fun _ => .ite variableIdentifier_stays properIdentifier_stays

theorem qualifiedIdentifier_stays :
    Stays kind qualifiedIdentifier := qualifiedBy_stays eitherIdentifier_stays

theorem parenthesizedSymbol_stays {last : Parse Name} (stays : Stays kind last) :
    Stays kind (parenthesizedSymbol last) :=
  Agrees.consume.bind fun _ => (qualifiedBy_stays stays).bind fun _ =>
    (Agrees.expectOrSkipTo _).bind fun _ => .pure _

theorem variableName_stays : Stays kind variableName :=
  .look fun _ => .ite (parenthesizedSymbol_stays variableSymbol_stays) variableIdentifier_stays

theorem variableOrConstructor_stays : Stays kind variableOrConstructor := by
  refine .look fun token => ?_
  split
  · exact parenthesizedSymbol_stays symbol_stays
  · exact properIdentifier_stays
  · exact variableIdentifier_stays

theorem moduleName_stays : Stays kind moduleName := by
  refine properIdentifier_stays.bind fun _ => (Agrees.many ?_ ?_).bind fun _ => ofSegments_stays _
  · exact .look fun _ => .ite ((Agrees.peek 1).bind fun _ => .pure _) (.pure _)
  · exact Agrees.consume.bind fun _ => properIdentifier_stays

theorem qualifiedTerm_stays : Stays kind qualifiedTerm :=
  qualifiers_stays.bind fun _ => .look fun _ => .ite
    (symbol_stays.bind fun _ => (ofSegments_stays _).bind fun _ => .pure _)
    (eitherIdentifier_stays.bind fun _ => (ofSegments_stays _).bind fun _ => .pure _)

theorem qualifiedSymbolFollows_stays (isKind : Token → Bool) :
    Stays kind (qualifiedSymbolFollows isKind) :=
  qualifierFollows_stays.bind fun _ => .ite ((Agrees.peek 2).bind fun _ => .pure _) (.pure _)

theorem quotedOperator_stays : Stays kind quotedOperator :=
  Agrees.consume.bind fun _ => qualifiedIdentifier_stays.bind fun _ =>
    (Agrees.expectOrSkipTo _).bind fun _ => .pure _

theorem quotedFollows_stays (token : Token) : Stays kind (quotedFollows token) :=
  .look fun _ => .ite ((Agrees.peek 1).bind fun _ => .pure _) (.pure _)

theorem operator?_stays : Stays kind operator? :=
  .look fun _ => .ite (symbol_stays.bind fun _ => .pure _) <|
    (qualifiedSymbolFollows_stays _).bind fun _ =>
      .ite ((qualifiedBy_stays symbol_stays).bind fun _ => .pure _) <|
        .ite (quotedOperator_stays.bind fun _ => .pure _) (.pure _)

theorem variableOperator?_stays : Stays kind variableOperator? :=
  .look fun _ => .ite (variableSymbol_stays.bind fun _ => .pure _) <|
    (quotedFollows_stays _).bind fun _ =>
      .ite (quotedOperator_stays.bind fun _ => .pure _) (.pure _)

theorem constructorOperator?_stays : Stays kind constructorOperator? :=
  .look fun _ => .ite (constructorSymbol_stays.bind fun _ => .pure _) <|
    (qualifiedSymbolFollows_stays _).bind fun _ =>
      .ite ((qualifiedBy_stays constructorSymbol_stays).bind fun _ => .pure _) <|
        (quotedFollows_stays _).bind fun _ =>
          .ite (quotedOperator_stays.bind fun _ => .pure _) (.pure _)

theorem reject_stays : Stays kind reject :=
  .look fun _ => .look fun _ => .ite (Agrees.reportUnexpected.bind fun _ => .pure _)
    (Agrees.fail.bind fun _ => .pure _)

theorem rejected_stays {made : Span → α} : Stays kind (do return made (← reject)) :=
  reject_stays.bind fun _ => .pure _

theorem endOfItem_stays : Stays kind endOfItem := by
  refine .look fun token => ?_
  split
  · exact .skipAll _
  · exact .skipAll _
  · exact .skipAll _
  · exact Agrees.reportUnexpected.bind fun _ => (Agrees.skipToAny _).bind fun _ => .skipAll _

theorem itemFollows_stays : Stays kind itemFollows := by
  refine .look fun token => ?_
  split
  · exact .pure false
  · exact .pure false
  · exact .pure true

theorem itemThenEnd_agrees {item each : Parse α} (agrees : Agrees kind item each) :
    Agrees kind (itemThenEnd item) (itemThenEnd each) :=
  agrees.bind fun _ => endOfItem_stays.bind fun _ => .pure _

theorem block_agrees {item each : Parse α} (agrees : Agrees kind item each) :
    Agrees kind (block item) (block each) :=
  (Agrees.expect _).bind fun _ => .ite
    ((Agrees.many itemFollows_stays (itemThenEnd_agrees agrees)).bind fun _ =>
      (Agrees.expectOrSkipTo _).bind fun _ => .pure _)
    (.pure _)

structure Level.Agrees (kind : Conduct) (inner other : Level) : Prop where
  expression : Parse.Agrees kind inner.expression other.expression
  pattern : Parse.Agrees kind inner.pattern other.pattern
  type : Parse.Agrees kind inner.type other.type
  expressionAtom : Parse.Agrees kind inner.expressionAtom other.expressionAtom
  patternAtom : Parse.Agrees kind inner.patternAtom other.patternAtom
  parentheses : Parse.Agrees kind inner.parentheses other.parentheses
  brackets : Parse.Agrees kind inner.brackets other.brackets
  declBlock : Parse.Agrees kind inner.declBlock other.declBlock
  alternativeBlock : Parse.Agrees kind inner.alternativeBlock other.alternativeBlock
  statementBlock : Parse.Agrees kind inner.statementBlock other.statementBlock

section

variable (agrees : inner.Agrees kind other)

include agrees

theorem parenthesizedType_agrees :
    Agrees kind (parenthesizedType inner) (parenthesizedType other) :=
  .look fun _ => Agrees.consume.bind fun _ => (Agrees.accept _).bind fun _ =>
    .ite (.look fun _ => .pure _) <| .look fun _ => .look fun _ => .ite
      ((Agrees.skipAll _).bind fun _ => (Agrees.accept _).bind fun _ =>
        (Agrees.expectOrSkipTo _).bind fun _ => .look fun _ => .pure _)
      (agrees.type.bind fun _ => .look fun _ => .ite
        ((Agrees.many (.accept _) agrees.type).bind fun _ => (Agrees.expectOrSkipTo _).bind fun _ =>
          .look fun _ => .pure _)
        ((Agrees.expectOrSkipTo _).bind fun _ => .pure _))

theorem listType_agrees : Agrees kind (listType inner) (listType other) :=
  .look fun _ => Agrees.consume.bind fun _ => (Agrees.accept _).bind fun _ =>
    .ite (.look fun _ => .pure _) <|
      agrees.type.bind fun _ => (Agrees.expectOrSkipTo _).bind fun _ => .look fun _ => .pure _

theorem typeAtom_agrees : Agrees kind (typeAtom inner) (typeAtom other) := by
  refine .look fun token => ?_
  split
  · exact qualifiedIdentifier_stays.bind fun _ => .pure _
  · exact variableIdentifier_stays.bind fun _ => .pure _
  · exact parenthesizedType_agrees agrees
  · exact listType_agrees agrees
  · exact rejected_stays

theorem typeApplication_agrees : Agrees kind (typeApplication inner) (typeApplication other) :=
  .look fun _ => (typeAtom_agrees agrees).bind fun _ =>
    (Agrees.many (.look fun _ => .pure _) (typeAtom_agrees agrees)).bind fun _ =>
      .ite (.pure _) (.look fun _ => .pure _)

omit agrees in
theorem arrows_stays (first : TypeTerm) (later : List TypeTerm) :
    Stays kind (arrows first later) := by
  induction later generalizing first with
  | nil => exact .pure first
  | cons next later induction =>
    exact (induction next).bind fun _ => (Agrees.join _ _).bind fun _ => .pure _

theorem functionType_agrees : Agrees kind (functionType inner) (functionType other) :=
  (typeApplication_agrees agrees).bind fun _ =>
    (Agrees.many (.accept _) (typeApplication_agrees agrees)).bind fun _ => arrows_stays _ _

theorem typeProduction_agrees : Agrees kind (typeProduction inner) (typeProduction other) :=
  .look fun _ => (functionType_agrees agrees).bind fun _ => (Agrees.accept _).bind fun _ =>
    .ite ((functionType_agrees agrees).bind fun _ => .look fun _ => .pure _) (.pure _)

omit agrees in
theorem literal_stays : Stays kind literal := by
  refine .look fun token => ?_
  split
  · exact .look fun _ => Agrees.consume.bind fun _ => .pure _
  · exact rejected_stays

omit agrees in
theorem tupleConstructor_stays (start : Span) : Stays kind (tupleConstructor start) :=
  (Agrees.skipAll _).bind fun _ => (Agrees.expectOrSkipTo _).bind fun _ => .look fun _ => .pure _

omit agrees in
theorem aliasAfter_agrees {atom each : Parse Expr} (made : Agrees kind atom each) (start : Span)
    (name : Name) : Agrees kind (aliasAfter atom start name) (aliasAfter each start name) :=
  (Agrees.accept _).bind fun _ => .ite (made.bind fun _ => .look fun _ => .pure _) (.pure _)

omit agrees in
theorem variableOrAlias_agrees {atom each : Parse Expr} (made : Agrees kind atom each) :
    Agrees kind (variableOrAlias atom) (variableOrAlias each) :=
  .look fun _ => variableIdentifier_stays.bind fun _ => aliasAfter_agrees made _ _

omit agrees in
theorem lazyPattern_agrees {atom each : Parse Expr} (made : Agrees kind atom each) :
    Agrees kind (lazyPattern atom) (lazyPattern each) :=
  .look fun _ => Agrees.consume.bind fun _ => made.bind fun _ => .look fun _ => .pure _

omit agrees in
theorem wildcard_stays : Stays kind wildcard := .look fun _ => Agrees.consume.bind fun _ => .pure _

omit agrees in
theorem constructorThenParen_stays : Stays kind constructorThenParen :=
  .look fun _ => .ite ((Agrees.peek 1).bind fun _ => .pure _) (.pure _)

omit agrees in
theorem enclosed_agrees {term each : Parse Expr} (made : Agrees kind term each) (start : Span)
    (first : Expr) : Agrees kind (enclosed term start first) (enclosed each start first) :=
  .look fun _ => .ite
    ((Agrees.many (.accept _) made).bind fun _ => (Agrees.expectOrSkipTo _).bind fun _ =>
      .look fun _ => .pure _)
    ((Agrees.expectOrSkipTo _).bind fun _ => .look fun _ => .pure _)

omit agrees in
theorem listEnd_stays (start : Span) (elements : List Expr) : Stays kind (listEnd start elements) :=
  (Agrees.expectOrSkipTo _).bind fun _ => .look fun _ => .pure _

theorem parenthesizedPattern_agrees :
    Agrees kind (parenthesizedPattern inner) (parenthesizedPattern other) :=
  .look fun _ => Agrees.consume.bind fun _ => (Agrees.accept _).bind fun _ =>
    .ite (.look fun _ => .pure _) <| .look fun _ => .ite (tupleConstructor_stays _) <|
      constructorThenParen_stays.bind fun _ => .ite
        (constructorSymbol_stays.bind fun _ => Agrees.consume.bind fun _ => .pure _)
        (agrees.pattern.bind fun _ => enclosed_agrees agrees.pattern _ _)

theorem listPattern_agrees : Agrees kind (listPattern inner) (listPattern other) :=
  .look fun start => Agrees.consume.bind fun _ => .look fun _ =>
    .ite (listEnd_stays start []) ((Agrees.separated agrees.pattern).bind (listEnd_stays start))

theorem patternAtom_agrees : Agrees kind (patternAtom inner) (patternAtom other) := by
  refine .look fun token => ?_
  split
  · exact variableOrAlias_agrees agrees.patternAtom
  · exact qualifiedIdentifier_stays.bind fun _ => .pure _
  · exact wildcard_stays
  · exact lazyPattern_agrees agrees.patternAtom
  · exact literal_stays
  · exact literal_stays
  · exact literal_stays
  · exact literal_stays
  · exact parenthesizedPattern_agrees agrees
  · exact listPattern_agrees agrees
  · exact rejected_stays

theorem patternAtoms_agrees : Agrees kind (patternAtoms inner) (patternAtoms other) :=
  .many (.look fun _ => .pure _) (patternAtom_agrees agrees)

omit agrees in
theorem argumentFollows_stays : Stays kind argumentFollows :=
  .look fun _ => .ite ((qualifiedSymbolFollows_stays _).bind fun _ => .pure _) (.pure _)

theorem constructorPattern_agrees (start : Span) (constructor : Expr) :
    Agrees kind (constructorPattern inner start constructor)
      (constructorPattern other start constructor) :=
  (Agrees.many argumentFollows_stays (patternAtom_agrees agrees)).bind fun _ =>
    .ite (.pure _) (.look fun _ => .pure _)

omit agrees in
theorem parenthesizedConstructorFollows_stays : Stays kind parenthesizedConstructorFollows :=
  (Agrees.peek 1).bind fun _ => .ite (.pure _) <|
    .ite ((Agrees.peek 2).bind fun _ => .pure _) (.pure _)

omit agrees in
theorem numeral_stays : Stays kind numeral := by
  refine .look fun token => ?_
  split
  · exact literal_stays
  · exact literal_stays
  · exact rejected_stays

omit agrees in
theorem negativeLiteral_stays : Stays kind negativeLiteral :=
  .look fun _ => Agrees.consume.bind fun _ => numeral_stays.bind fun _ => .look fun _ => .pure _

theorem operandPattern_agrees : Agrees kind (operandPattern inner) (operandPattern other) := by
  refine .look fun _ => .look fun token => ?_
  split
  · exact negativeLiteral_stays
  · exact qualifiedIdentifier_stays.bind fun _ => constructorPattern_agrees agrees _ _
  · exact parenthesizedConstructorFollows_stays.bind fun _ => .ite
      ((patternAtom_agrees agrees).bind fun _ => constructorPattern_agrees agrees _ _)
      (patternAtom_agrees agrees)
  · exact patternAtom_agrees agrees

theorem patternAfter_agrees (start : Span) (left : Expr) :
    Agrees kind (patternAfter inner start left) (patternAfter other start left) := by
  refine constructorOperator?_stays.bind fun found => ?_
  cases found with
  | some operator => exact agrees.pattern.bind fun _ => .look fun _ => .pure _
  | none => exact .pure left

theorem patternProduction_agrees :
    Agrees kind (patternProduction inner) (patternProduction other) :=
  .look fun _ => (operandPattern_agrees agrees).bind fun _ => patternAfter_agrees agrees _ _

end

/-!
Declarations and expressions over two levels that agree under a conduct agree under it themselves. An
operator chain does so round by round, as it takes its operands.
-/

theorem precedenceAhead_stays : Stays kind precedenceAhead := by
  refine .look fun parser => ?_
  split
  · exact .pure _
  · exact .pure _

theorem precedence_stays : Stays kind precedence := by
  refine .look fun _ => .ite (precedenceAhead_stays.bind fun value => .ite ?_ ?_) (.pure _)
  · exact Agrees.reportUnexpected.bind fun _ => Agrees.consume.bind fun _ => .pure _
  · exact Agrees.consume.bind fun _ => .pure _

theorem fixityOperator_stays : Stays kind fixityOperator := by
  refine operator?_stays.bind fun found => ?_
  cases found with
  | some name => exact .pure name
  | none => exact rejected_stays

theorem fixityDecl_stays : Stays kind fixityDecl :=
  .look fun _ => .look fun _ => Agrees.consume.bind fun _ => precedence_stays.bind fun _ =>
    (Agrees.separated fixityOperator_stays).bind fun _ => .look fun _ => .pure _

section

variable (agrees : inner.Agrees kind other)

include agrees

theorem guardedExpr_agrees (separator : Token) :
    Agrees kind (guardedExpr inner separator) (guardedExpr other separator) :=
  .look fun _ => Agrees.consume.bind fun _ => agrees.expression.bind fun _ =>
    (Agrees.expect _).bind fun _ => agrees.expression.bind fun _ => .look fun _ => .pure _

theorem whereDecls?_agrees : Agrees kind (whereDecls? inner) (whereDecls? other) :=
  (Agrees.accept _).bind fun _ => .ite agrees.declBlock (.pure [])

theorem finishRightSide_agrees (start : Span) (body : Body) :
    Agrees kind (finishRightSide inner start body) (finishRightSide other start body) :=
  (whereDecls?_agrees agrees).bind fun _ => .look fun _ => .pure _

theorem rightSide_agrees (separator : Token) :
    Agrees kind (rightSide inner separator) (rightSide other separator) :=
  .look fun _ => .look fun _ => .ite
    ((Agrees.many (.look fun _ => .pure _) (guardedExpr_agrees agrees _)).bind fun _ =>
      finishRightSide_agrees agrees _ _)
    ((Agrees.accept _).bind fun _ => .ite
      (agrees.expression.bind fun _ => finishRightSide_agrees agrees _ _)
      (Agrees.reportUnexpected.bind fun _ => .pure _))

theorem typeSignature_agrees (start : Span) (first : Name) :
    Agrees kind (typeSignature inner start first) (typeSignature other start first) :=
  (Agrees.many (.accept _) variableName_stays).bind fun _ => (Agrees.expect _).bind fun _ =>
    agrees.type.bind fun _ => .look fun _ => .pure _

theorem operatorClause_agrees (start : Span) (left : Expr) (operator : Name) :
    Agrees kind (operatorClause inner start left operator)
      (operatorClause other start left operator) :=
  agrees.pattern.bind fun _ => (rightSide_agrees agrees _).bind fun _ => .look fun _ => .pure _

theorem declAfterPattern_agrees (start : Span) (pattern : Expr) :
    Agrees kind (declAfterPattern inner start pattern) (declAfterPattern other start pattern) := by
  refine variableOperator?_stays.bind fun found => ?_
  cases found with
  | some operator => exact operatorClause_agrees agrees start pattern operator
  | none => exact (rightSide_agrees agrees _).bind fun _ => .look fun _ => .pure _

theorem patternAfterVariable_agrees (start : Span) (name : Name) :
    Agrees kind (patternAfterVariable inner start name)
      (patternAfterVariable other start name) :=
  (aliasAfter_agrees agrees.patternAtom _ _).bind fun _ => patternAfter_agrees agrees _ _

omit agrees in
theorem patternContinues_stays : Stays kind patternContinues :=
  .look fun _ => .ite (.pure _) (quotedFollows_stays _)

theorem functionClause_agrees (start : Span) (name : Name) :
    Agrees kind (functionClause inner start name) (functionClause other start name) :=
  (patternAtoms_agrees agrees).bind fun _ => (rightSide_agrees agrees _).bind fun _ =>
    .look fun _ => .pure _

theorem declAfterName_agrees (start : Span) (name : Name) :
    Agrees kind (declAfterName inner start name) (declAfterName other start name) := by
  refine .look fun _ => .look fun _ => .ite (typeSignature_agrees agrees start name) <|
    patternContinues_stays.bind fun _ => .ite ?_ (variableOperator?_stays.bind fun found => ?_)
  · exact (patternAfterVariable_agrees agrees start name).bind fun _ =>
      declAfterPattern_agrees agrees _ _
  · cases found with
    | some operator => exact operatorClause_agrees agrees start _ operator
    | none => exact functionClause_agrees agrees start name

omit agrees in
theorem parenthesizedOperatorFollows_stays : Stays kind parenthesizedOperatorFollows :=
  (Agrees.peek 1).bind fun _ => .ite ((Agrees.peek 2).bind fun _ => .pure _) (.pure _)

theorem patternDecl_agrees (start : Span) :
    Agrees kind (patternDecl inner start) (patternDecl other start) :=
  agrees.pattern.bind fun _ => declAfterPattern_agrees agrees start _

theorem bindingDecl_agrees : Agrees kind (bindingDecl inner) (bindingDecl other) := by
  refine .look fun start => .look fun token => ?_
  split
  · exact variableIdentifier_stays.bind fun _ => declAfterName_agrees agrees start _
  · exact parenthesizedOperatorFollows_stays.bind fun _ => .ite
      ((parenthesizedSymbol_stays variableSymbol_stays).bind fun _ =>
        declAfterName_agrees agrees start _)
      (patternDecl_agrees agrees start)
  · exact patternDecl_agrees agrees start

theorem decl_agrees : Agrees kind (decl inner) (decl other) := by
  refine .look fun token => ?_
  split
  · exact .look fun _ => .pure _
  · exact fixityDecl_stays
  · exact fixityDecl_stays
  · exact fixityDecl_stays
  · exact bindingDecl_agrees agrees

theorem atom_agrees : Agrees kind (atom inner) (atom other) := by
  refine .look fun token => ?_
  split
  · exact variableOrAlias_agrees agrees.expressionAtom
  · exact qualifiedIdentifier_stays.bind fun _ => .pure _
  · exact wildcard_stays
  · exact lazyPattern_agrees agrees.expressionAtom
  · exact literal_stays
  · exact literal_stays
  · exact literal_stays
  · exact literal_stays
  · exact agrees.parentheses
  · exact agrees.brackets
  · exact rejected_stays

theorem argument_agrees : Agrees kind (argument inner) (argument other) := by
  refine .look fun _ => .ite (qualifiedTerm_stays.bind fun term => ?_)
    ((atom_agrees agrees).bind fun _ => .pure _)
  cases term with
  | operand name => exact .pure _
  | operator name => exact .pure _

theorem arguments_agrees (start : Span) (function : Expr) :
    Agrees kind (arguments inner start function) (arguments other start function) := by
  refine (Agrees.repeatUntil (.look fun _ => .pure _) (argument_agrees agrees)).bind fun found => ?_
  obtain ⟨values, operator⟩ := found
  dsimp only
  cases values.getLast? with
  | none => exact .pure _
  | some last => exact (Agrees.join _ _).bind fun _ => .pure _

theorem application_agrees : Agrees kind (application inner) (application other) :=
  .look fun _ => (atom_agrees agrees).bind fun _ => arguments_agrees agrees _ _

theorem parameters_agrees : Agrees kind (parameters inner) (parameters other) :=
  (patternAtoms_agrees agrees).bind fun _ =>
    .ite (Agrees.reportUnexpected.bind fun _ => .pure _) (.pure _)

theorem lambda_agrees : Agrees kind (lambda inner) (lambda other) :=
  .look fun _ => Agrees.consume.bind fun _ => (parameters_agrees agrees).bind fun _ =>
    (Agrees.expect _).bind fun _ => agrees.expression.bind fun _ => .look fun _ => .pure _

theorem letExpression_agrees : Agrees kind (letExpression inner) (letExpression other) :=
  .look fun _ => Agrees.consume.bind fun _ => agrees.declBlock.bind fun _ =>
    (Agrees.expect _).bind fun _ => agrees.expression.bind fun _ => .look fun _ => .pure _

theorem branch_agrees (keyword : Token) :
    Agrees kind (branch inner keyword) (branch other keyword) :=
  (Agrees.accept _).bind fun _ => (Agrees.expect _).bind fun _ => agrees.expression

theorem conditional_agrees : Agrees kind (conditional inner) (conditional other) :=
  .look fun _ => Agrees.consume.bind fun _ => agrees.expression.bind fun _ =>
    (branch_agrees agrees _).bind fun _ => (branch_agrees agrees _).bind fun _ =>
      .look fun _ => .pure _

theorem caseExpression_agrees : Agrees kind (caseExpression inner) (caseExpression other) :=
  .look fun _ => Agrees.consume.bind fun _ => agrees.expression.bind fun _ =>
    (Agrees.expect _).bind fun _ => agrees.alternativeBlock.bind fun _ => .look fun _ => .pure _

theorem doExpression_agrees : Agrees kind (doExpression inner) (doExpression other) :=
  .look fun _ => Agrees.consume.bind fun _ => agrees.statementBlock.bind fun _ =>
    .look fun _ => .pure _

theorem operand_agrees : Agrees kind (operand inner) (operand other) := by
  refine .look fun token => ?_
  split
  · exact (lambda_agrees agrees).bind fun _ => .pure _
  · exact (letExpression_agrees agrees).bind fun _ => .pure _
  · exact (conditional_agrees agrees).bind fun _ => .pure _
  · exact (caseExpression_agrees agrees).bind fun _ => .pure _
  · exact (doExpression_agrees agrees).bind fun _ => .pure _
  · exact application_agrees agrees

theorem signedOperand_agrees : Agrees kind (signedOperand inner) (signedOperand other) :=
  .look fun _ => .ite
    (.look fun _ => Agrees.consume.bind fun _ => (operand_agrees agrees).bind fun _ =>
      (Agrees.join _ _).bind fun _ => .pure _)
    (operand_agrees agrees)

omit agrees in
theorem pendingOperator_stays (pending : Option Name) : Stays kind (pendingOperator pending) := by
  cases pending with
  | some name => exact .pure _
  | none => exact operator?_stays

/-- By induction on what remains before the operator. -/
theorem chainBelow_agrees (inSection : Bool) (start : Span) (bound : Nat) (left : Expr)
    (pending : Option Name) :
    Agrees kind (chainBelow inner inSection start bound left pending)
      (chainBelow other inSection start bound left pending) := by
  induction bound using Nat.strong_induction_on generalizing left pending with
  | _ bound induction =>
    intro parser starts
    unfold AgreesAt
    rw [chainBelow, chainBelow]
    have asked : kind.leads parser (pendingOperator pending parser).2 :=
      (pendingOperator_stays pending parser starts).2
    generalize pendingOperator pending parser = answer at asked ⊢
    obtain ⟨found, going⟩ := answer
    cases found with
    | none => exact ⟨rfl, asked⟩
    | some operator =>
      dsimp only
      split
      · exact ⟨rfl, asked⟩
      · obtain ⟨same, taken⟩ := signedOperand_agrees agrees going (kind.onward asked starts)
        rw [← same]
        have reached := kind.trans asked taken
        generalize signedOperand inner going = answer at reached ⊢
        obtain ⟨⟨right, next⟩, after⟩ := answer
        have joined : kind.leads parser (join start right.span after).2 :=
          kind.trans reached (Agrees.join start right.span after (kind.onward reached starts)).2
        dsimp only
        generalize join start right.span after = answer at joined ⊢
        obtain ⟨span, afterJoin⟩ := answer
        dsimp only
        split
        · rename_i progress
          obtain ⟨sameLater, later⟩ :=
            induction _ progress _ next afterJoin (kind.onward joined starts)
          exact ⟨sameLater, kind.trans joined later⟩
        · exact ⟨rfl, kind.trans joined (kind.raise afterJoin .stalled)⟩

theorem chainFrom_agrees (inSection : Bool) (start : Span) (left : Expr) (pending : Option Name) :
    Agrees kind (chainFrom inner inSection start left pending)
      (chainFrom other inSection start left pending) :=
  fun parser => chainBelow_agrees agrees inSection start _ left pending parser

theorem chain_agrees : Agrees kind (chain inner) (chain other) :=
  .look fun _ => (signedOperand_agrees agrees).bind fun _ =>
    (chainFrom_agrees agrees false _ _ _).bind fun _ => .pure _

theorem annotated_agrees (start : Span) (expr : Expr) :
    Agrees kind (annotated inner start expr) (annotated other start expr) :=
  (Agrees.accept _).bind fun _ => .ite (agrees.type.bind fun _ => .look fun _ => .pure _) (.pure _)

theorem expressionProduction_agrees :
    Agrees kind (expressionProduction inner) (expressionProduction other) :=
  .look fun _ => (chain_agrees agrees).bind fun _ => annotated_agrees agrees _ _

theorem alternative_agrees : Agrees kind (alternative inner) (alternative other) :=
  .look fun _ => agrees.pattern.bind fun _ => (rightSide_agrees agrees _).bind fun _ =>
    .look fun _ => .pure _

theorem statement_agrees : Agrees kind (statement inner) (statement other) :=
  .look fun _ => (Agrees.accept _).bind fun _ => .ite
    (agrees.declBlock.bind fun _ => (Agrees.accept _).bind fun _ => .ite
      (agrees.expression.bind fun _ => .look fun _ => .pure _) (.look fun _ => .pure _))
    (agrees.expression.bind fun _ => (Agrees.accept _).bind fun _ => .ite
      (agrees.expression.bind fun _ => .look fun _ => .pure _) (.pure _))

theorem afterLeadingOperator_agrees (start : Span) (operator : Name) :
    Agrees kind (afterLeadingOperator inner start operator)
      (afterLeadingOperator other start operator) :=
  (Agrees.accept _).bind fun _ => .ite (.pure _) <| (chain_agrees agrees).bind fun _ =>
    (Agrees.expectOrSkipTo _).bind fun _ => .look fun _ => .pure _

omit agrees in
theorem operatorLeads_stays : Stays kind operatorLeads :=
  .look fun _ => .ite (.pure _) <| .ite ((Agrees.peek 1).bind fun _ => .pure _) (.pure _)

theorem afterFirstOperand_agrees (start firstStart : Span) (first : Operand) :
    Agrees kind (afterFirstOperand inner start firstStart first)
      (afterFirstOperand other start firstStart first) := by
  refine (chainFrom_agrees agrees true firstStart first.1 first.2).bind fun found => ?_
  obtain ⟨value, dangling⟩ := found
  cases dangling with
  | some operator => exact Agrees.consume.bind fun _ => .look fun _ => .pure _
  | none =>
    exact (annotated_agrees agrees _ _).bind fun _ => enclosed_agrees agrees.expression _ _

theorem parentheses_agrees : Agrees kind (parentheses inner) (parentheses other) := by
  refine .look fun start => Agrees.consume.bind fun _ => (Agrees.accept _).bind fun _ =>
    .ite (.look fun _ => .pure _) <| .look fun _ => .ite (tupleConstructor_stays start) <|
      operatorLeads_stays.bind fun _ => .ite (operator?_stays.bind fun found => ?_) <|
        .look fun _ => .look fun _ => .ite (qualifiedTerm_stays.bind fun term => ?_)
          ((signedOperand_agrees agrees).bind fun _ => afterFirstOperand_agrees agrees _ _ _)
  · cases found with
    | some operator => exact afterLeadingOperator_agrees agrees start operator
    | none => exact rejected_stays
  · cases term with
    | operator operator => exact afterLeadingOperator_agrees agrees start operator
    | operand name =>
      exact (arguments_agrees agrees _ _).bind fun _ => afterFirstOperand_agrees agrees _ _ _

theorem lastElement?_agrees : Agrees kind (lastElement? inner) (lastElement? other) :=
  .look fun _ => .ite (.pure none) agrees.expression.map

theorem sequenceEnd_agrees (start : Span) (first : Expr) (second : Option Expr) :
    Agrees kind (sequenceEnd inner start first second) (sequenceEnd other start first second) :=
  (lastElement?_agrees agrees).bind fun _ => (Agrees.expectOrSkipTo _).bind fun _ =>
    .look fun _ => .pure _

theorem comprehensionEnd_agrees (start : Span) (element : Expr) :
    Agrees kind (comprehensionEnd inner start element) (comprehensionEnd other start element) :=
  (Agrees.separated (statement_agrees agrees)).bind fun _ => (Agrees.expectOrSkipTo _).bind fun _ =>
    .look fun _ => .pure _

theorem brackets_agrees : Agrees kind (brackets inner) (brackets other) :=
  .look fun _ => Agrees.consume.bind fun _ => (Agrees.accept _).bind fun _ =>
    .ite (.look fun _ => .pure _) <| agrees.expression.bind fun _ => (Agrees.accept _).bind fun _ =>
      .ite (sequenceEnd_agrees agrees _ _ _) <| (Agrees.accept _).bind fun _ =>
        .ite (comprehensionEnd_agrees agrees _ _) <| (Agrees.accept _).bind fun _ => .ite
          (agrees.expression.bind fun _ => (Agrees.accept _).bind fun _ =>
            .ite (sequenceEnd_agrees agrees _ _ _) <|
              (Agrees.many (.accept _) agrees.expression).bind fun _ => listEnd_stays _ _)
          (listEnd_stays _ _)

end

end Offside.Haskell.Grammar
