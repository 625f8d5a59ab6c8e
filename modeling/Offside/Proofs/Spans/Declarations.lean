import Offside.Proofs.Grammar.Declarations
import Offside.Proofs.Spans.Names

/-!
Where patterns and declarations stand. A pattern or declaration that has parts starts with the first of
them, or with a token of its own in front. The right-hand side of a declaration starts with its
separator or with its first guard.
-/

namespace Offside.Haskell.Grammar

set_option autoImplicit false

open Offside.Parser Offside.Parse

variable {file : FileId} {parser : Parser} {inner : Level} {origin : Span} {owed : List Node}

section Patterns

theorem literal_locates (parser : Parser) :
    Locates file literal (fun made => [.expr made]) parser := by
  unfold literal
  simp only [locates_ahead]
  split
  · rename_i kind known
    have firm : isFirm parser.ahead = true :=
      @firm_of_kind (fun token => (literalKind? token).isSome) _ rfl (by rw [known]; rfl)
    simp only [locates_aheadSpan]
    apply LocatesFrom.take firm
    exact .pure_over rfl (List.nil_subset _) rfl
  · exact rejected_locates parser

theorem wildcard_locates (found : parser.ahead = .underscore) :
    Locates file wildcard (fun made => [.expr made]) parser := by
  unfold wildcard
  simp only [locates_aheadSpan]
  apply LocatesFrom.take (by rw [found]; rfl)
  exact .pure_over rfl (List.nil_subset _) rfl

theorem tupleConstructor_locates (opened : owed ≠ []) (parser : Parser) :
    LocatesFrom file origin owed (tupleConstructor origin) (fun made => [.expr made]) parser := by
  unfold tupleConstructor
  apply LocatesFrom.skipAll
  apply LocatesFrom.expectOrSkipTo (by decide)
  intro _ after
  exact .made_over (fun span => .name (.special span)) opened (by simp)
    (fun _ => rfl) (by simp) fun _ => rfl

theorem aliasAfter_locates {atom : Parse Expr}
    (atomLocates : ∀ start, Locates file atom (fun made => [.expr made]) start) (name : Name)
    (parser : Parser) :
    LocatesFrom file origin [.name name] (aliasAfter atom origin name) (fun made => [.expr made])
      parser := by
  unfold aliasAfter
  apply LocatesFrom.accept (by decide)
  · intro _
    apply LocatesFrom.bind (atomLocates parser.consume)
    intro pattern after
    exact .made (by simp) (by simp) fun _ => rfl
  · intro _
    exact .pure_over rfl (List.Subset.refl _) rfl

theorem variableOrAlias_locates {atom : Parse Expr}
    (atomLocates : ∀ start, Locates file atom (fun made => [.expr made]) start) (parser : Parser) :
    Locates file (variableOrAlias atom) (fun made => [.expr made]) parser := by
  unfold variableOrAlias
  simp only [locates_aheadSpan]
  exact .bind (variableIdentifier_locates parser) (aliasAfter_locates atomLocates)

theorem lazyPattern_locates {atom : Parse Expr}
    (atomLocates : ∀ start, Locates file atom (fun made => [.expr made]) start)
    (found : parser.ahead = .tilde) :
    Locates file (lazyPattern atom) (fun made => [.expr made]) parser := by
  unfold lazyPattern
  simp only [locates_aheadSpan]
  apply LocatesFrom.take (by rw [found]; rfl)
  apply LocatesFrom.bind (atomLocates parser.consume)
  intro pattern after
  exact .made (by simp) (by simp) fun _ => rfl

theorem enclosed_locates {term : Parse Expr} {first : Expr} (among : .expr first ∈ owed)
    (termLocates : ∀ start, Locates file term (fun made => [.expr made]) start) (parser : Parser) :
    LocatesFrom file origin owed (enclosed term origin first) (fun made => [.expr made]) parser := by
  have read := List.ne_nil_of_mem among
  unfold enclosed
  simp only [locates_isAt]
  split
  · apply LocatesFrom.bind (many_accept_locates (by decide) termLocates parser)
    intro later afterLater
    apply LocatesFrom.expectOrSkipTo (by decide)
    intro _ after
    exact .made (by simp [read]) (by simp [among]) fun _ => rfl
  · apply LocatesFrom.expectOrSkipTo (by decide)
    intro _ after
    exact .made read (by simp [among]) fun _ => rfl

theorem constructorThenParen_looks (parser : Parser) : Looks constructorThenParen parser :=
  .ahead (.ite (fun _ => .bind (.peek (by decide) (by decide)) fun _ _ => .pure) fun _ => .pure)

theorem parenthesizedPattern_locates (locates : inner.Locates file)
    (opened : parser.ahead = .openParen) :
    Locates file (parenthesizedPattern inner) (fun made => [.expr made]) parser := by
  unfold parenthesizedPattern
  simp only [locates_aheadSpan]
  apply LocatesFrom.take (by rw [opened]; rfl)
  apply LocatesFrom.accept (by decide)
  · intro _
    exact .made (by simp) (by simp) fun _ => rfl
  · intro _
    simp only [locates_isAt, if_neg Bool.false_ne_true]
    split
    · exact tupleConstructor_locates (by simp) parser.consume
    · apply LocatesFrom.look (constructorThenParen_looks parser.consume)
      intro alone before _ _
      split
      · apply LocatesFrom.bind (constructorSymbol_locates before)
        intro name afterName
        apply LocatesFrom.consume
        apply LocatesFrom.fewer (List.sublist_append_right _ _)
        exact .pure_over rfl (List.Subset.refl _) rfl
      · apply LocatesFrom.bind (locates.pattern before)
        intro first afterFirst
        exact enclosed_locates (by simp) locates.pattern afterFirst

theorem listEnd_locates {elements : List Expr} (read : owed ≠ [])
    (among : elements.map .expr ⊆ owed) (parser : Parser) :
    LocatesFrom file origin owed (listEnd origin elements) (fun made => [.expr made]) parser := by
  unfold listEnd
  apply LocatesFrom.expectOrSkipTo (by decide)
  intro _ after
  exact .made read (by simpa using among) fun _ => rfl

theorem listPattern_locates (locates : inner.Locates file) (opened : parser.ahead = .openBracket) :
    Locates file (listPattern inner) (fun made => [.expr made]) parser := by
  unfold listPattern
  simp only [locates_aheadSpan]
  apply LocatesFrom.take (by rw [opened]; rfl)
  simp only [locates_isAt]
  split
  · exact listEnd_locates (by simp) (by simp) parser.consume
  · apply LocatesFrom.bind (separated_locates (by decide) locates.pattern parser.consume)
    intro elements after
    exact listEnd_locates (by simp) (by simp) after

variable (locates : inner.Locates file)

include locates

theorem patternAtom_locates (parser : Parser) :
    Locates file (patternAtom inner) (fun made => [.expr made]) parser := by
  unfold patternAtom
  simp only [locates_ahead]
  split
  · exact variableOrAlias_locates locates.patternAtom parser
  · apply LocatesFrom.bind (qualifiedIdentifier_locates parser)
    intro name after
    exact .pure_over rfl (List.Subset.refl _) rfl
  · rename_i found
    exact wildcard_locates found
  · rename_i found
    exact lazyPattern_locates locates.patternAtom found
  · exact literal_locates parser
  · exact literal_locates parser
  · exact literal_locates parser
  · exact literal_locates parser
  · rename_i opened
    exact parenthesizedPattern_locates locates opened
  · rename_i opened
    exact listPattern_locates locates opened
  · exact rejected_locates parser

theorem patternAtoms_locates (parser : Parser) :
    Locates file (patternAtoms inner) (List.map .expr) parser :=
  many_while_locates (patternAtom_locates locates) parser

theorem constructorPattern_locates (constructor : Expr) (parser : Parser) :
    LocatesFrom file origin [.expr constructor] (constructorPattern inner origin constructor)
      (fun made => [.expr made]) parser := by
  have arguments : Locates file (many argumentFollows (patternAtom inner)) (List.map .expr)
      parser := by
    refine many_locates (fun start => ?_) parser
    refine .look (.ahead (.ite (fun _ => .bind (qualifiedSymbolFollows_looks _ start)
      fun _ _ => .pure) fun _ => .pure)) fun follows after _ _ => ?_
    cases follows with
    | false => exact .pure rfl
    | true => exact round_locates (patternAtom_locates locates after)
  unfold constructorPattern
  apply LocatesFrom.bind arguments
  intro arguments after
  split
  · exact .keep (by simp)
  · exact .made (by simp) (by simp) fun _ => rfl

omit locates in
theorem numeral_locates (parser : Parser) :
    Locates file numeral (fun made => [.expr made]) parser := by
  unfold numeral
  simp only [locates_ahead]
  split
  · exact literal_locates parser
  · exact literal_locates parser
  · exact rejected_locates parser

omit locates in
theorem negativeLiteral_locates (found : parser.ahead = .minus) :
    Locates file negativeLiteral (fun made => [.expr made]) parser := by
  unfold negativeLiteral
  simp only [locates_aheadSpan]
  apply LocatesFrom.take (by rw [found]; rfl)
  apply LocatesFrom.bind (numeral_locates parser.consume)
  intro operand after
  exact .made (by simp) (by simp) fun _ => rfl

omit locates in
theorem parenthesizedConstructorFollows_looks (parser : Parser) :
    Looks parenthesizedConstructorFollows parser :=
  .bind (.peek (by decide) (by decide)) fun _ _ => .ite (fun _ => .pure) fun _ =>
    .ite (fun _ => .bind (.peek (by decide) (by decide)) fun _ _ => .pure) fun _ => .pure

theorem operandPattern_locates (parser : Parser) :
    Locates file (operandPattern inner) (fun made => [.expr made]) parser := by
  unfold operandPattern
  simp only [locates_aheadSpan, locates_ahead]
  split
  · rename_i found
    exact negativeLiteral_locates found
  · apply LocatesFrom.bind (qualifiedIdentifier_locates parser)
    intro name after
    exact .identify (constructorPattern_locates locates (.identifier name) after)
  · apply LocatesFrom.look (parenthesizedConstructorFollows_looks parser)
    intro follows after _ _
    split
    · apply LocatesFrom.bind (patternAtom_locates locates after)
      intro constructor final
      exact constructorPattern_locates locates constructor final
    · exact (patternAtom_locates locates after).finish fun _ => rfl
  · exact patternAtom_locates locates parser

theorem patternAfter_locates (left : Expr) (parser : Parser) :
    LocatesFrom file origin [.expr left] (patternAfter inner origin left)
      (fun made => [.expr made]) parser := by
  unfold patternAfter
  apply LocatesFrom.bind (constructorOperator?_locates parser)
  intro found after
  cases found with
  | none => exact .pure rfl
  | some operator =>
    apply LocatesFrom.bind (locates.pattern after)
    intro right final
    exact .made (by simp) (by simp) fun _ => rfl

theorem patternProduction_locates (parser : Parser) :
    Locates file (patternProduction inner) (fun made => [.expr made]) parser := by
  unfold patternProduction
  simp only [locates_aheadSpan]
  apply LocatesFrom.bind (operandPattern_locates locates parser)
  intro left after
  exact patternAfter_locates locates left after

end Patterns

section RightSides

theorem guardedExpr_locates (locates : inner.Locates file) {separator : Token}
    (due : separator ≠ .endOfInput) (found : parser.ahead = .pipe) :
    Locates file (guardedExpr inner separator) (fun made => [.guarded made]) parser := by
  unfold guardedExpr
  simp only [locates_aheadSpan]
  apply LocatesFrom.take (by rw [found]; rfl)
  apply LocatesFrom.bind (locates.expression parser.consume)
  intro guard afterGuard
  apply LocatesFrom.expect due
  intro _ afterSeparator
  apply LocatesFrom.bind (locates.expression afterSeparator)
  intro body after
  exact .made (by simp) (by simp) fun _ => rfl

theorem whereDecls?_locates (locates : inner.Locates file) (parser : Parser) :
    Locates file (whereDecls? inner) (List.map .decl) parser := by
  unfold whereDecls?
  apply LocatesFrom.accept (by decide)
  · intro _
    exact (locates.declBlock parser.consume).finish fun _ => rfl
  · intro _
    exact .pure rfl

theorem finishRightSide_locates (locates : inner.Locates file) {body : Body} (read : owed ≠ [])
    (among : body.nodes ⊆ owed) (parser : Parser) :
    LocatesFrom file origin owed (finishRightSide inner origin body)
      (fun made => [.rightSide made]) parser := by
  unfold finishRightSide
  apply LocatesFrom.bind (whereDecls?_locates locates parser)
  intro decls after
  refine .made (by simp [read]) (fun _ => ?_) fun _ => rfl
  exact List.append_subset.2 ⟨List.subset_append_of_subset_left _ among, List.subset_append_right _ _⟩

theorem rightSide_locates (locates : inner.Locates file) {separator : Token}
    (firm : isFirm separator = true) (parser : Parser) :
    Locates file (rightSide inner separator) (fun made => [.rightSide made]) parser := by
  unfold rightSide
  simp only [locates_aheadSpan, locates_isAt]
  split
  · rename_i guarded
    have alternatives : Locates file (many (isAt .pipe) (guardedExpr inner separator))
        (List.map .guarded) parser := by
      refine many_locates (fun start => ?_) parser
      unfold oneRound
      simp only [locates_isAt]
      split
      · rename_i found
        exact round_locates (guardedExpr_locates locates (inner_of_firm firm) (by simpa using found))
      · exact .pure rfl
    apply alternatives.bind_known (fun alternatives _ => alternatives ≠ [])
      fun _ => many_ne_nil guarded
    intro alternatives after some
    exact finishRightSide_locates locates (by simpa [Body.nodes] using some) (List.Subset.refl _) after
  · apply LocatesFrom.accept (inner_of_firm firm)
    · intro _
      apply LocatesFrom.bind (locates.expression parser.consume)
      intro body after
      exact finishRightSide_locates locates (by simp [Body.nodes]) (List.Subset.refl _) after
    · intro _
      apply LocatesFrom.reportUnexpected
      exact .pure_of_unclean (reportUnexpected_spoils parser)

end RightSides

section Declarations

theorem precedenceAhead_looks (parser : Parser) : Looks precedenceAhead parser := by
  apply Looks.get
  split
  · exact .pure
  · exact .pure

theorem precedence_locates (parser : Parser) :
    Locates file precedence (fun _ => []) parser := by
  unfold precedence
  simp only [locates_isAt]
  split
  · apply LocatesFrom.look (precedenceAhead_looks parser)
    intro value after _ _
    split
    · apply LocatesFrom.reportUnexpected
      exact .consume (.pure rfl)
    · exact .consume (.pure rfl)
  · exact .pure rfl

theorem fixityOperator_locates (parser : Parser) :
    Locates file fixityOperator (fun name => [.name name]) parser := by
  unfold fixityOperator
  apply LocatesFrom.bind (operator?_locates parser)
  intro found after
  cases found with
  | none => exact rejected_locates after
  | some name => exact .pure rfl

theorem fixityDecl_locates (firm : isFirm parser.ahead = true) :
    Locates file fixityDecl (fun made => [.decl made]) parser := by
  unfold fixityDecl
  simp only [locates_aheadSpan, locates_ahead]
  apply LocatesFrom.take firm
  apply LocatesFrom.bind (precedence_locates parser.consume)
  intro precedence afterPrecedence
  apply LocatesFrom.bind (separated_locates (by decide) fixityOperator_locates afterPrecedence)
  intro operators after
  exact .made (by simp) (by simp) fun _ => rfl

variable (locates : inner.Locates file)

include locates

theorem typeSignature_locates (first : Name) (parser : Parser) :
    LocatesFrom file origin [.name first] (typeSignature inner origin first)
      (fun made => [.decl made]) parser := by
  unfold typeSignature
  apply LocatesFrom.bind (many_accept_locates (by decide) variableName_locates parser)
  intro later afterNames
  apply LocatesFrom.expect (by decide)
  intro _ afterSign
  apply LocatesFrom.bind (locates.type afterSign)
  intro type after
  exact .made (by simp) (by simp) fun _ => rfl

theorem operatorClause_locates (left : Expr) (operator : Name) (parser : Parser) :
    LocatesFrom file origin [.expr left, .name operator] (operatorClause inner origin left operator)
      (fun made => [.decl made]) parser := by
  unfold operatorClause
  apply LocatesFrom.bind (locates.pattern parser)
  intro right afterRight
  apply LocatesFrom.bind (rightSide_locates locates rfl afterRight)
  intro body after
  exact .made (by simp) (by simp) fun _ => rfl

theorem declAfterPattern_locates (pattern : Expr) (parser : Parser) :
    LocatesFrom file origin [.expr pattern] (declAfterPattern inner origin pattern)
      (fun made => [.decl made]) parser := by
  unfold declAfterPattern
  apply LocatesFrom.bind (variableOperator?_locates parser)
  intro found afterOperator
  cases found with
  | some operator => exact operatorClause_locates locates pattern operator afterOperator
  | none =>
    apply LocatesFrom.bind (rightSide_locates locates rfl afterOperator)
    intro body after
    exact .made (by simp) (by simp) fun _ => rfl

theorem patternAfterVariable_locates (name : Name) (parser : Parser) :
    LocatesFrom file origin [.name name] (patternAfterVariable inner origin name)
      (fun made => [.expr made]) parser := by
  unfold patternAfterVariable
  exact .chain (aliasAfter_locates locates.patternAtom name parser) (patternAfter_locates locates)

omit locates in
theorem patternContinues_looks (parser : Parser) : Looks patternContinues parser :=
  .ahead (.ite (fun _ => .pure) fun _ => quotedFollows_looks _ parser)

theorem functionClause_locates (name : Name) (parser : Parser) :
    LocatesFrom file origin [.name name] (functionClause inner origin name)
      (fun made => [.decl made]) parser := by
  unfold functionClause
  apply LocatesFrom.bind (patternAtoms_locates locates parser)
  intro parameters afterParameters
  apply LocatesFrom.bind (rightSide_locates locates rfl afterParameters)
  intro body after
  exact .made (by simp) (by simp) fun _ => rfl

theorem declAfterName_locates (name : Name) (parser : Parser) :
    LocatesFrom file origin [.name name] (declAfterName inner origin name)
      (fun made => [.decl made]) parser := by
  unfold declAfterName
  simp only [locates_isAt]
  split
  · exact typeSignature_locates locates name parser
  · apply LocatesFrom.look (patternContinues_looks parser)
    intro continues after _ _
    split
    · apply LocatesFrom.chain (patternAfterVariable_locates locates name after)
      intro pattern final
      exact declAfterPattern_locates locates pattern final
    · apply LocatesFrom.bind (variableOperator?_locates after)
      intro found afterOperator
      cases found with
      | some operator =>
        exact .identify (operatorClause_locates locates (.identifier name) operator afterOperator)
      | none => exact functionClause_locates locates name afterOperator

omit locates in
theorem parenthesizedOperatorFollows_looks (parser : Parser) :
    Looks parenthesizedOperatorFollows parser :=
  .bind (.peek (by decide) (by decide)) fun _ _ =>
    .ite (fun _ => .bind (.peek (by decide) (by decide)) fun _ _ => .pure) fun _ => .pure

theorem patternDecl_locates (parser : Parser) :
    LocatesFrom file origin [] (patternDecl inner origin) (fun made => [.decl made]) parser :=
  .bind (locates.pattern parser) (declAfterPattern_locates locates)

theorem bindingDecl_locates (parser : Parser) :
    Locates file (bindingDecl inner) (fun made => [.decl made]) parser := by
  unfold bindingDecl
  simp only [locates_aheadSpan, locates_ahead]
  split
  · apply LocatesFrom.bind (variableIdentifier_locates parser)
    intro name after
    exact declAfterName_locates locates name after
  · apply LocatesFrom.look (parenthesizedOperatorFollows_looks parser)
    intro follows after _ _
    split
    · apply LocatesFrom.bind (parenthesizedSymbol_locates variableSymbol_locates after)
      intro name final
      exact declAfterName_locates locates name final
    · exact patternDecl_locates locates after
  · exact patternDecl_locates locates parser

/-- An empty declaration has the place of the separator that ends it. -/
theorem decl_locates (fresh : parser.Fresh) : ItemLocates file (decl inner) .decl parser := by
  by_cases separated : parser.ahead = .semicolon
  · have known : decl inner parser = (.empty parser.aheadSpan, parser) := by
      rw [decl, ahead_bind_apply, separated]
      rfl
    exact .of_separator separated fresh known rfl rfl
  · apply ItemLocates.of_locates
    unfold decl
    simp only [locates_ahead]
    split
    · contradiction
    · rename_i found
      exact fixityDecl_locates (by rw [found]; rfl)
    · rename_i found
      exact fixityDecl_locates (by rw [found]; rfl)
    · rename_i found
      exact fixityDecl_locates (by rw [found]; rfl)
    · exact bindingDecl_locates locates parser

end Declarations

end Offside.Haskell.Grammar
