import Offside.Proofs.Reading.Expressions
import Offside.Proofs.Spans.Declarations

/-!
Where expressions stand. An operator that was read past the end of an operand stands right behind it
until the chain around takes it up. A chain starts where its first operand does, so one that is in
parentheses is seen on its own before the parentheses are.
-/

namespace Offside.Haskell.Grammar

set_option autoImplicit false

open Offside.Parser Offside.Parse

variable {file : FileId} {parser : Parser} {inner : Level} {origin : Span} {owed : List Node}

theorem atom_locates (locates : inner.Locates file) (parser : Parser) :
    Locates file (atom inner) (fun made => [.expr made]) parser := by
  unfold atom
  simp only [locates_ahead]
  split
  · exact variableOrAlias_locates locates.expressionAtom parser
  · apply LocatesFrom.bind (qualifiedIdentifier_locates parser)
    intro name after
    exact .pure_over rfl (List.Subset.refl _) rfl
  · rename_i found
    exact wildcard_locates found
  · rename_i found
    exact lazyPattern_locates locates.expressionAtom found
  · exact literal_locates parser
  · exact literal_locates parser
  · exact literal_locates parser
  · exact literal_locates parser
  · rename_i opened
    exact locates.parentheses parser opened
  · rename_i opened
    exact locates.brackets parser opened
  · exact rejected_locates parser

variable (locates : inner.Locates file)

include locates

theorem argument_locates (parser : Parser) :
    Locates file (argument inner) (fun found => [Sum.elim .expr .name found]) parser := by
  unfold argument
  simp only [locates_isAt]
  split
  · apply LocatesFrom.bind (qualifiedTerm_locates parser)
    intro term after
    cases term with
    | operand name => exact .identify (.pure rfl)
    | operator name => exact .pure rfl
  · apply LocatesFrom.bind (atom_locates locates parser)
    intro expr after
    exact .pure rfl

def Operand.nodes (operand : Operand) : List Node := .expr operand.1 :: operand.2.toList.map .name

theorem arguments_locates (function : Expr) (parser : Parser) :
    LocatesFrom file origin [.expr function] (arguments inner origin function) Operand.nodes
      parser := by
  have rounds : Locates file (repeatUntil (do return startsAtom (← Parse.ahead)) (argument inner))
      (fun found => found.1.map .expr ++ found.2.toList.map .name) parser := by
    refine repeatUntil_locates (fun start => ?_) parser
    unfold oneRound
    simp only [locates_bind_assoc, locates_ahead, locates_pure_bind]
    split
    · exact round_locates (argument_locates locates start)
    · exact .pure rfl
  unfold arguments
  apply LocatesFrom.bind rounds
  rintro ⟨exprs, operator⟩ after
  dsimp only
  split
  · rename_i none
    rw [List.getLast?_eq_none_iff] at none
    exact .pure (by simp [Operand.nodes, none])
  · rename_i last final
    rw [← List.append_assoc]
    apply LocatesFrom.join
    · have final : (.expr function :: exprs.map Node.expr).getLast? = some (.expr last) := by
        rw [List.getLast?_cons, List.getLast?_map, final]
        rfl
      exact .reach final (List.Subset.refl _) rfl (.pure rfl)
    · exact fun _ _ unclean => .pure_of_unclean unclean

theorem application_locates (parser : Parser) :
    Locates file (application inner) Operand.nodes parser := by
  unfold application
  simp only [locates_aheadSpan]
  apply LocatesFrom.bind (atom_locates locates parser)
  intro function after
  exact arguments_locates locates function after

theorem parameters_locates (parser : Parser) :
    Locates file (parameters inner) (List.map .expr) parser := by
  unfold parameters
  apply LocatesFrom.bind (patternAtoms_locates locates parser)
  intro parameters middle
  split
  · apply LocatesFrom.reportUnexpected
    exact .pure rfl
  · exact .pure rfl

theorem lambda_locates (found : parser.ahead = .backslash) :
    Locates file (lambda inner) (fun made => [.expr made]) parser := by
  unfold lambda
  simp only [locates_aheadSpan]
  apply LocatesFrom.take (by rw [found]; rfl)
  apply LocatesFrom.bind (parameters_locates locates parser.consume)
  intro parameters middle
  apply LocatesFrom.expect (by decide)
  intro _ afterArrow
  apply LocatesFrom.bind (locates.expression afterArrow)
  intro body after
  exact .made (by simp) (by simp) fun _ => rfl

theorem letExpression_locates (found : parser.ahead = .kwLet) :
    Locates file (letExpression inner) (fun made => [.expr made]) parser := by
  unfold letExpression
  simp only [locates_aheadSpan]
  apply LocatesFrom.take (by rw [found]; rfl)
  apply LocatesFrom.bind (locates.declBlock parser.consume)
  intro decls afterDecls
  apply LocatesFrom.expect (by decide)
  intro _ afterIn
  apply LocatesFrom.bind (locates.expression afterIn)
  intro body after
  exact .made (by simp) (by simp) fun _ => rfl

theorem branch_locates {keyword : Token} (due : keyword ≠ .endOfInput) (parser : Parser) :
    Locates file (branch inner keyword) (fun made => [.expr made]) parser := by
  unfold branch
  apply LocatesFrom.accept_either (by decide)
  intro _ before
  apply LocatesFrom.expect due
  intro _ after
  exact (locates.expression after).finish fun _ => rfl

theorem conditional_locates (found : parser.ahead = .kwIf) :
    Locates file (conditional inner) (fun made => [.expr made]) parser := by
  unfold conditional
  simp only [locates_aheadSpan]
  apply LocatesFrom.take (by rw [found]; rfl)
  apply LocatesFrom.bind (locates.expression parser.consume)
  intro condition afterCondition
  apply LocatesFrom.bind (branch_locates locates (by decide) afterCondition)
  intro thenBranch afterThen
  apply LocatesFrom.bind (branch_locates locates (by decide) afterThen)
  intro elseBranch after
  exact .made (by simp) (by simp) fun _ => rfl

theorem caseExpression_locates (found : parser.ahead = .kwCase) :
    Locates file (caseExpression inner) (fun made => [.expr made]) parser := by
  unfold caseExpression
  simp only [locates_aheadSpan]
  apply LocatesFrom.take (by rw [found]; rfl)
  apply LocatesFrom.bind (locates.expression parser.consume)
  intro scrutinee afterScrutinee
  apply LocatesFrom.expect (by decide)
  intro _ afterOf
  apply LocatesFrom.bind (locates.alternativeBlock afterOf)
  intro alternatives after
  exact .made (by simp) (by simp) fun _ => rfl

theorem doExpression_locates (found : parser.ahead = .kwDo) :
    Locates file (doExpression inner) (fun made => [.expr made]) parser := by
  unfold doExpression
  simp only [locates_aheadSpan]
  apply LocatesFrom.take (by rw [found]; rfl)
  apply LocatesFrom.bind (locates.statementBlock parser.consume)
  intro statements after
  exact .made (by simp) (by simp) fun _ => rfl

omit locates in
theorem alone_locates {production : Parse Expr}
    (locates : Locates file production (fun made => [.expr made]) parser) :
    Locates file (do return (← production, none)) Operand.nodes parser :=
  LocatesFrom.bind locates fun _ _ => .pure rfl

theorem operand_locates (parser : Parser) : Locates file (operand inner) Operand.nodes parser := by
  unfold operand
  simp only [locates_ahead]
  split
  · rename_i found
    exact alone_locates (lambda_locates locates found)
  · rename_i found
    exact alone_locates (letExpression_locates locates found)
  · rename_i found
    exact alone_locates (conditional_locates locates found)
  · rename_i found
    exact alone_locates (caseExpression_locates locates found)
  · rename_i found
    exact alone_locates (doExpression_locates locates found)
  · exact application_locates locates parser

theorem signedOperand_locates (parser : Parser) :
    Locates file (signedOperand inner) Operand.nodes parser := by
  unfold signedOperand
  simp only [locates_isAt]
  split
  · rename_i found
    have found : parser.ahead = .minus := by simpa using found
    simp only [locates_aheadSpan]
    apply LocatesFrom.take (by rw [found]; rfl)
    apply LocatesFrom.bind (operand_locates locates parser.consume)
    rintro ⟨value, operator⟩ after
    apply LocatesFrom.join
    · exact @LocatesFrom.reach _ _ _ _ _ _ [.token parser.aheadSpan, .expr value] _ _ (.expr value)
        rfl (by simp) rfl (.pure rfl)
    · exact fun _ _ unclean => .pure_of_unclean unclean
  · exact operand_locates locates parser

omit locates in
theorem pendingOperator_locates (front : List Node) (pending : Option Name) (parser : Parser) :
    LocatesFrom file origin (front ++ pending.toList.map .name) (pendingOperator pending)
      (fun found => front ++ found.toList.map .name) parser := by
  cases pending with
  | none =>
    rw [Option.toList_none, List.map_nil, List.append_nil]
    exact (operator?_locates parser).finish fun _ => rfl
  | some name => exact .pure rfl

/-- By induction on the bound: a chain that takes up an operator goes on from where it started to the
end of the next operand. -/
theorem chainBelow_locates {inSection : Bool} (bound : Nat) (left : Expr) (pending : Option Name)
    (parser : Parser) :
    LocatesFrom file origin (Operand.nodes (left, pending))
      (chainBelow inner inSection origin bound left pending) Operand.nodes parser := by
  induction bound using Nat.strong_induction_on generalizing left pending parser with
  | _ bound induction =>
    have goesOn : ∀ (chain : Expr) (next : Option Name) (after : Parser),
        LocatesFrom file origin (Operand.nodes (chain, next))
          (chainOn inner inSection origin bound chain next) Operand.nodes after := by
      intro chain next after
      by_cases progress : chainRemaining next after < bound
      · apply LocatesFrom.congr (if_pos progress)
        exact induction _ progress chain next after
      · have stalls : chainOn inner inSection origin bound chain next after =
            ((chain, next), after.raise .stalled) := if_neg progress
        intro tidy _
        rw [stalls]
        exact ⟨tidy.of_same rfl rfl, .of_same rfl rfl,
          fun clean => absurd clean (raise_spoils after _)⟩
    apply LocatesFrom.congr (chainBelow_eq inSection origin bound left pending parser)
    apply LocatesFrom.chain (pendingOperator_locates [.expr left] pending parser)
    intro found going
    cases found with
    | none => exact .pure rfl
    | some operator =>
      unfold chainAfter
      simp only [locates_isAt]
      split
      · exact .pure rfl
      · apply LocatesFrom.bind (signedOperand_locates locates going)
        rintro ⟨right, next⟩ afterRight
        apply LocatesFrom.join
        · exact @LocatesFrom.reach _ _ _ _ _ _ [.expr left, .name operator, .expr right] _ _
            (.expr right) rfl (List.Subset.refl _) rfl (goesOn _ next afterRight)
        · exact fun span after unclean => .spoiled unclean (goesOn _ next after)

theorem chainFrom_locates {inSection : Bool} (first : Operand) (parser : Parser) :
    LocatesFrom file origin first.nodes (chainFrom inner inSection origin first.1 first.2)
      Operand.nodes parser :=
  chainBelow_locates locates _ first.1 first.2 parser

theorem chain_locates (parser : Parser) :
    Locates file (chain inner) (fun made => [.expr made]) parser := by
  unfold chain
  simp only [locates_aheadSpan]
  apply LocatesFrom.bind (signedOperand_locates locates parser)
  intro first middle
  apply LocatesFrom.chain (chainFrom_locates locates first middle)
  rintro ⟨value, dangling⟩ after
  exact .keep (by simp [Operand.nodes])

theorem annotated_locates (expr : Expr) (parser : Parser) :
    LocatesFrom file origin [.expr expr] (annotated inner origin expr) (fun made => [.expr made])
      parser := by
  unfold annotated
  apply LocatesFrom.accept (by decide)
  · intro _
    apply LocatesFrom.bind (locates.type parser.consume)
    intro type after
    exact .made (by simp) (by simp) fun _ => rfl
  · intro _
    exact .pure rfl

theorem expressionProduction_locates (parser : Parser) :
    Locates file (expressionProduction inner) (fun made => [.expr made]) parser := by
  unfold expressionProduction
  simp only [locates_aheadSpan]
  apply LocatesFrom.bind (chain_locates locates parser)
  intro expr after
  exact annotated_locates locates expr after

theorem alternative_locates (parser : Parser) :
    Locates file (alternative inner) (fun made => [.alternative made]) parser := by
  unfold alternative
  simp only [locates_aheadSpan]
  apply LocatesFrom.bind (locates.pattern parser)
  intro pattern afterPattern
  apply LocatesFrom.bind (rightSide_locates locates rfl afterPattern)
  intro body after
  exact .made (by simp) (by simp) fun _ => rfl

theorem statement_locates (parser : Parser) :
    Locates file (statement inner) (fun made => [.statement made]) parser := by
  unfold statement
  simp only [locates_aheadSpan]
  apply LocatesFrom.takeIf rfl
  · apply LocatesFrom.bind (locates.declBlock parser.consume)
    intro decls afterDecls
    apply LocatesFrom.accept (by decide)
    · intro _
      apply LocatesFrom.bind (locates.expression afterDecls.consume)
      intro body after
      exact .made_over (fun span => .expr (.letIn decls body span)) (by simp)
        (by simp) (fun _ => rfl) (by simp) fun _ => rfl
    · intro _
      exact .made (by simp) (by simp) fun _ => rfl
  · intro _
    apply LocatesFrom.bind (locates.expression parser)
    intro expr afterExpr
    apply LocatesFrom.accept (by decide)
    · intro _
      apply LocatesFrom.bind (locates.expression afterExpr.consume)
      intro source after
      exact .made (by simp) (by simp) fun _ => rfl
    · intro _
      exact .pure_over rfl (List.Subset.refl _) rfl

section Parentheses

theorem afterLeadingOperator_locates {opening : Node} (operator : Name) (parser : Parser) :
    LocatesFrom file origin [opening, .name operator] (afterLeadingOperator inner origin operator)
      (fun made => [.expr made]) parser := by
  unfold afterLeadingOperator
  apply LocatesFrom.accept (by decide)
  · intro _
    apply LocatesFrom.fewer (List.sublist_cons_self opening [.name operator])
    exact .identify (.pure rfl)
  · intro _
    apply LocatesFrom.bind (chain_locates locates parser)
    intro operand afterOperand
    apply LocatesFrom.expectOrSkipTo (by decide)
    intro _ after
    exact .made (by simp) (by simp) fun _ => rfl

omit locates in
theorem operatorLeads_looks (parser : Parser) : Looks operatorLeads parser :=
  .ahead (.ite (fun _ => .pure) fun _ =>
    .ite (fun _ => .bind (.peek (by decide) (by decide)) fun _ _ => .pure) fun _ => .pure)

/-- The chain in parentheses that begins with an operand, with the operator in front of the closing
parenthesis if one is left over. -/
def chainInside (inner : Level) (start : Span) (first : Operand) : Parse Operand := do
  let (value, dangling) ← chainFrom inner true start first.1 first.2
  match dangling with
  | some operator => return (value, some operator)
  | none => return (← annotated inner start value, none)

/-- What follows the chain in parentheses. -/
def afterInside (inner : Level) (start : Span) : Operand → Parse Expr
  | (value, some operator) => do
      consume
      return .leftSection value operator (← spanFrom start)
  | (element, none) => enclosed inner.expression start element

omit locates in
theorem afterFirstOperand_eq (start firstStart : Span) (first : Operand) :
    afterFirstOperand inner start firstStart first =
      chainInside inner firstStart first >>= afterInside inner start := by
  funext parser
  unfold afterFirstOperand chainInside
  simp only [bind_apply]
  rcases chainFrom inner true firstStart first.1 first.2 parser with ⟨⟨value, dangling⟩, after⟩
  cases dangling with
  | none => rfl
  | some operator => rfl

theorem chainInside_locates (first : Operand) (parser : Parser) :
    LocatesFrom file origin first.nodes (chainInside inner origin first) Operand.nodes parser := by
  unfold chainInside
  apply LocatesFrom.chain (chainFrom_locates locates first parser)
  rintro ⟨value, dangling⟩ after
  cases dangling with
  | some operator => exact .pure rfl
  | none => exact .chain (annotated_locates locates value after) fun _ _ => .pure rfl

theorem afterInside_locates {opening : Node} (element : Operand) (parser : Parser) :
    LocatesFrom file origin (opening :: element.nodes) (afterInside inner origin element)
      (fun made => [.expr made]) parser := by
  obtain ⟨value, dangling⟩ := element
  cases dangling with
  | some operator =>
    apply LocatesFrom.consume
    exact .made (by simp) (by simp [Operand.nodes]) fun _ => rfl
  | none => exact enclosed_locates (by simp [Operand.nodes]) locates.expression parser

def properInside (inner : Level) (start : Span) : Parse (Name ⊕ Operand) := do
  match ← qualifiedTerm with
  | .operator operator => return .inl operator
  | .operand name =>
    let first ← arguments inner start (.identifier name)
    return .inr (← chainInside inner start first)

theorem properInside_locates (parser : Parser) :
    Locates file (properInside inner parser.aheadSpan)
      (Sum.elim (fun name => [.name name]) Operand.nodes) parser := by
  unfold properInside
  apply LocatesFrom.bind (qualifiedTerm_locates parser)
  intro term after
  cases term with
  | operator operator => exact .pure rfl
  | operand name =>
    apply LocatesFrom.chain (.identify (arguments_locates locates (.identifier name) after))
    intro first middle
    exact .chain (chainInside_locates locates first middle) fun _ _ => .pure rfl

omit locates in
theorem afterProper_eq (start firstStart : Span) :
    (do
      match ← qualifiedTerm with
      | .operator operator => afterLeadingOperator inner start operator
      | .operand name =>
        let first ← arguments inner firstStart (.identifier name)
        afterFirstOperand inner start firstStart first) =
      (do
        match ← properInside inner firstStart with
        | .inl operator => afterLeadingOperator inner start operator
        | .inr element => afterInside inner start element) := by
  funext parser
  unfold properInside
  simp only [bind_apply, afterFirstOperand_eq]
  rcases qualifiedTerm parser with ⟨term, after⟩
  cases term with
  | operator operator => rfl
  | operand name => rfl

theorem parentheses_locates (opened : parser.ahead = .openParen) :
    Locates file (parentheses inner) (fun made => [.expr made]) parser := by
  unfold parentheses
  simp only [locates_aheadSpan]
  apply LocatesFrom.take (by rw [opened]; rfl)
  apply LocatesFrom.accept (by decide)
  · intro _
    exact .made (by simp) (by simp) fun _ => rfl
  · intro _
    simp only [locates_isAt, if_neg Bool.false_ne_true]
    split
    · exact tupleConstructor_locates (by simp) parser.consume
    · apply LocatesFrom.look (operatorLeads_looks parser.consume)
      intro leads after _ _
      split
      · apply LocatesFrom.bind (operator?_locates after)
        intro operator afterOperator
        cases operator with
        | some operator => exact afterLeadingOperator_locates locates operator afterOperator
        | none => exact rejected_locates afterOperator
      · simp only [locates_aheadSpan, locates_isAt]
        split
        · apply LocatesFrom.congr (congrFun (afterProper_eq parser.aheadSpan after.aheadSpan) after)
          apply LocatesFrom.bind (properInside_locates locates after)
          intro found afterFound
          cases found with
          | inl operator => exact afterLeadingOperator_locates locates operator afterFound
          | inr element => exact afterInside_locates locates element afterFound
        · simp only [afterFirstOperand_eq]
          have inside : Locates file (signedOperand inner >>= chainInside inner after.aheadSpan)
              Operand.nodes after :=
            .bind (signedOperand_locates locates after) fun first middle =>
              chainInside_locates locates first middle
          exact locates_bind_assoc.1 (.bind inside fun element afterElement =>
            afterInside_locates locates element afterElement)

end Parentheses

section Brackets

theorem lastElement?_locates (parser : Parser) :
    Locates file (lastElement? inner) (fun last => last.toList.map .expr) parser := by
  unfold lastElement?
  simp only [locates_isAt]
  split
  · exact .pure rfl
  · exact locates_map.2 (locates.expression parser)

theorem sequenceEnd_locates (first : Expr) (second : Option Expr)
    (among : (first :: second.toList).map .expr ⊆ owed) (parser : Parser) :
    LocatesFrom file origin owed (sequenceEnd inner origin first second) (fun made => [.expr made])
      parser := by
  have read := List.ne_nil_of_mem (among List.mem_cons_self)
  unfold sequenceEnd
  apply LocatesFrom.bind (lastElement?_locates locates parser)
  intro last middle
  apply LocatesFrom.expectOrSkipTo (by decide)
  intro _ after
  refine .made (by simp [read]) (fun _ => ?_) fun _ => rfl
  rw [Node.children, List.map_append, ← List.cons_append]
  exact List.append_subset.2
    ⟨List.subset_append_of_subset_left _ among, List.subset_append_right _ _⟩

theorem comprehensionEnd_locates {element : Expr} (among : .expr element ∈ owed) (parser : Parser) :
    LocatesFrom file origin owed (comprehensionEnd inner origin element)
      (fun made => [.expr made]) parser := by
  unfold comprehensionEnd
  apply LocatesFrom.bind (separated_locates (by decide) (statement_locates locates) parser)
  intro qualifiers afterQualifiers
  apply LocatesFrom.expectOrSkipTo (by decide)
  intro _ after
  exact .made (by simp [List.ne_nil_of_mem among]) (by simp [among]) fun _ => rfl

theorem brackets_locates (opened : parser.ahead = .openBracket) :
    Locates file (brackets inner) (fun made => [.expr made]) parser := by
  unfold brackets
  simp only [locates_aheadSpan]
  apply LocatesFrom.take (by rw [opened]; rfl)
  apply LocatesFrom.accept (by decide)
  · intro _
    exact .made (by simp) (by simp) fun _ => rfl
  · intro _
    apply LocatesFrom.bind (locates.expression parser.consume)
    intro first afterFirst
    apply LocatesFrom.accept (by decide)
    · intro _
      exact sequenceEnd_locates locates first none (by simp) afterFirst.consume
    · intro _
      apply LocatesFrom.accept (by decide)
      · intro _
        exact comprehensionEnd_locates locates (by simp) afterFirst.consume
      · intro _
        apply LocatesFrom.accept (by decide)
        · intro _
          apply LocatesFrom.bind (locates.expression afterFirst.consume)
          intro second afterSecond
          apply LocatesFrom.accept (by decide)
          · intro _
            exact sequenceEnd_locates locates first (some second) (by simp) afterSecond.consume
          · intro _
            apply LocatesFrom.bind (many_accept_locates (by decide) locates.expression afterSecond)
            intro later after
            exact listEnd_locates (by simp) (by simp) after
        · intro _
          exact listEnd_locates (by simp) (by simp) afterFirst

end Brackets

end Offside.Haskell.Grammar
