import Offside.Proofs.Lockstep.Declarations
import Offside.Proofs.Reading.Expressions

/-!
Expressions in lockstep. A chain is mirrored operator by operator: what the first run consumes between
two operators the second consumes at least. An operator that is handed back stands in front of the
closing parenthesis, unless the chain went wrong.
-/

namespace Offside.Haskell.Grammar

set_option autoImplicit false

open Offside.Parser Offside.Parse

variable {pairing : Pairing} [lawful : pairing.Lawful] {eager : Bool} {brackets after : List Token}
  {left right : Parser} {inner : Level}

theorem atom_keeps (mirrored : inner.Mirrored) :
    Keeps pairing true (atom inner) (Expr.moved pairing.move) := by
  intro brackets left right
  unfold atom
  apply Mirrors.ahead
  split
  · exact variableOrAlias_keeps (mirrored.expressionAtom pairing) brackets left right
  · rename_i found
    apply Mirrors.solid (by rw [found]; rfl)
    exact (qualifiedIdentifier_keeps brackets left right).map fun _ => by simp [Expr.moved]
  · rename_i found
    exact wildcard_mirrors found
  · rename_i found
    exact lazyPattern_mirrors found (mirrored.expressionAtom pairing)
  · exact literal_keeps brackets left right
  · exact literal_keeps brackets left right
  · exact literal_keeps brackets left right
  · exact literal_keeps brackets left right
  · rename_i found
    exact mirrored.parentheses pairing found
  · rename_i found
    exact mirrored.brackets pairing found
  · exact (reject_keeps brackets left right).map fun _ => by simp [Expr.moved]

variable (mirrored : inner.Mirrored)

include mirrored

theorem argument_keeps :
    Keeps pairing true (argument inner)
      (Sum.map (Expr.moved pairing.move) (Name.moved pairing.move)) := by
  intro brackets left right
  unfold argument
  apply Mirrors.isAt rfl
  · intro found
    apply Mirrors.solid (by rw [found]; rfl)
    apply Mirrors.bind (qualifiedTerm_keeps brackets left right)
    intro term left right
    cases term with
    | operand name => exact Mirrors.pure (by simp [Expr.moved])
    | operator name => exact Mirrors.pure rfl
  · exact fun _ => (atom_keeps mirrored brackets left right).map fun _ => rfl

abbrev Operand.moved (change : Span → Span) : Operand → Operand :=
  Prod.map (Expr.moved change) (operatorMoved change)

theorem arguments_mirrors (start : Span) (function : Expr) (left right : Parser) :
    Mirrors pairing false brackets brackets (arguments inner start function)
      (arguments inner (pairing.move start) (function.moved pairing.move))
      (Operand.moved pairing.move) left right := by
  unfold arguments
  have rounds : Mirrors pairing false brackets brackets
      (repeatUntil (do return startsAtom (← Parse.ahead)) (argument inner))
      (repeatUntil (do return startsAtom (← Parse.ahead)) (argument inner))
      (Prod.map (List.map (Expr.moved pairing.move)) (operatorMoved pairing.move)) left right := by
    apply repeatUntil_mirrors
    intro left right
    unfold oneRound
    simp only [mirrors_bind_assoc]
    apply Mirrors.ahead_blind rfl
    simp only [mirrors_pure_bind]
    split
    · exact (argument_keeps mirrored brackets left right).lax.map fun _ => rfl
    · exact Mirrors.pure rfl
  apply Mirrors.bind rounds
  rintro ⟨exprs, operator⟩ left right
  simp only [Prod.map_apply, List.getLast?_map]
  cases exprs.getLast? with
  | none => exact Mirrors.pure rfl
  | some last =>
    simp only [Option.map_some, Expr.span_moved]
    apply Mirrors.join
    exact fun _ _ _ => Mirrors.pure (by simp [Expr.moved])

theorem application_keeps :
    Keeps pairing true (application inner) (Operand.moved pairing.move) := by
  intro brackets left right
  unfold application
  apply Mirrors.aheadSpan
  apply Mirrors.bind (atom_keeps mirrored brackets left right)
  exact fun function left right => arguments_mirrors mirrored _ function left right

theorem parameters_keep :
    Keeps pairing false (parameters inner) (List.map (Expr.moved pairing.move)) := by
  intro brackets left right
  unfold parameters
  apply Mirrors.bind (patternAtoms_keep mirrored brackets left right)
  intro parameters left right
  rw [List.isEmpty_map]
  split
  · apply Mirrors.reportUnexpected
    exact fun _ _ => Mirrors.pure rfl
  · exact Mirrors.pure rfl

theorem lambda_mirrors (found : left.ahead = .backslash) :
    Mirrors pairing true brackets brackets (lambda inner) (lambda inner) (Expr.moved pairing.move)
      left right := by
  unfold lambda
  apply Mirrors.aheadSpan
  apply Mirrors.pass found rfl
  intro left right
  apply Mirrors.bind (parameters_keep mirrored brackets left right)
  intro parameters left right
  apply Mirrors.expect_plain rfl
  intro _ left right
  apply Mirrors.bind (mirrored.expression pairing brackets left right).lax
  exact fun body left right => Mirrors.finish (by simp [Expr.moved])

theorem letExpression_mirrors (found : left.ahead = .kwLet) :
    Mirrors pairing true brackets brackets (letExpression inner) (letExpression inner)
      (Expr.moved pairing.move) left right := by
  unfold letExpression
  apply Mirrors.aheadSpan
  apply Mirrors.pass found rfl
  intro left right
  apply Mirrors.bind (mirrored.declBlock pairing brackets left right)
  intro decls left right
  apply Mirrors.expect_plain rfl
  intro _ left right
  apply Mirrors.bind (mirrored.expression pairing brackets left right).lax
  exact fun body left right => Mirrors.finish (by simp [Expr.moved])

/-- The separator that may stand before the keyword is no matter, since the keyword is due. -/
theorem branch_keeps {keyword : Token} (plain : keyword.isPlain = true) :
    Keeps pairing false (branch inner keyword) (Expr.moved pairing.move) := by
  intro brackets left right
  unfold branch
  apply Mirrors.accept_separator
  intro _ left right
  apply Mirrors.expect_plain plain
  exact fun _ left right => (mirrored.expression pairing brackets left right).lax

theorem conditional_mirrors (found : left.ahead = .kwIf) :
    Mirrors pairing true brackets brackets (conditional inner) (conditional inner)
      (Expr.moved pairing.move) left right := by
  unfold conditional
  apply Mirrors.aheadSpan
  apply Mirrors.pass found rfl
  intro left right
  apply Mirrors.bind (mirrored.expression pairing brackets left right).lax
  intro condition left right
  apply Mirrors.bind (branch_keeps mirrored rfl brackets left right)
  intro thenBranch left right
  apply Mirrors.bind (branch_keeps mirrored rfl brackets left right)
  exact fun elseBranch left right => Mirrors.finish (by simp [Expr.moved])

theorem caseExpression_mirrors (found : left.ahead = .kwCase) :
    Mirrors pairing true brackets brackets (caseExpression inner) (caseExpression inner)
      (Expr.moved pairing.move) left right := by
  unfold caseExpression
  apply Mirrors.aheadSpan
  apply Mirrors.pass found rfl
  intro left right
  apply Mirrors.bind (mirrored.expression pairing brackets left right).lax
  intro scrutinee left right
  apply Mirrors.expect_plain rfl
  intro _ left right
  apply Mirrors.bind (mirrored.alternativeBlock pairing brackets left right)
  exact fun alternatives left right => Mirrors.finish (by simp [Expr.moved])

theorem doExpression_mirrors (found : left.ahead = .kwDo) :
    Mirrors pairing true brackets brackets (doExpression inner) (doExpression inner)
      (Expr.moved pairing.move) left right := by
  unfold doExpression
  apply Mirrors.aheadSpan
  apply Mirrors.pass found rfl
  intro left right
  apply Mirrors.bind (mirrored.statementBlock pairing brackets left right)
  exact fun statements left right => Mirrors.finish (by simp [Expr.moved])

theorem operand_keeps : Keeps pairing true (operand inner) (Operand.moved pairing.move) := by
  intro brackets left right
  have alone : ∀ {production : Parse Expr},
      Mirrors pairing true brackets brackets production production (Expr.moved pairing.move) left
        right →
      Mirrors pairing true brackets brackets (do return (← production, none))
        (do return (← production, none)) (Operand.moved pairing.move) left right :=
    fun mirrors => mirrors.bind fun _ _ _ => Mirrors.pure rfl
  unfold operand
  apply Mirrors.ahead
  split
  · rename_i found
    exact alone (lambda_mirrors mirrored found)
  · rename_i found
    exact alone (letExpression_mirrors mirrored found)
  · rename_i found
    exact alone (conditional_mirrors mirrored found)
  · rename_i found
    exact alone (caseExpression_mirrors mirrored found)
  · rename_i found
    exact alone (doExpression_mirrors mirrored found)
  · exact application_keeps mirrored brackets left right

theorem signedOperand_keeps :
    Keeps pairing true (signedOperand inner) (Operand.moved pairing.move) := by
  intro brackets left right
  unfold signedOperand
  apply Mirrors.isAt rfl
  · intro found
    apply Mirrors.aheadSpan
    apply Mirrors.pass found rfl
    generalize left.aheadSpan = start
    intro left right
    apply Mirrors.bind (operand_keeps mirrored brackets left right).lax
    rintro ⟨value, operator⟩ left right
    simp only [Prod.map_apply, Expr.span_moved]
    apply Mirrors.join
    exact fun _ _ _ => Mirrors.pure (by simp [Expr.moved])
  · exact fun _ => operand_keeps mirrored brackets left right

section Chains

omit mirrored in
theorem pendingOperator_mirrors (pending : Option Name) :
    Mirrors pairing false brackets brackets (pendingOperator pending)
      (pendingOperator (operatorMoved pairing.move pending)) (operatorMoved pairing.move) left
      right := by
  cases pending with
  | none => exact operator?_keeps brackets left right
  | some name => exact Mirrors.pure rfl

/-- One operator of a chain and the operand after it, with which the chain goes on, or its end. -/
def chainRound (inner : Level) (inSection : Bool) (start : Span) (first : Expr)
    (pending : Option Name) : Parse (Operand ⊕ Operand) := do
  match ← pendingOperator pending with
  | none => return .inl (first, none)
  | some operator =>
    if inSection && (← isAt .closeParen) then return .inl (first, some operator)
    else
      let (second, next) ← signedOperand inner
      let span ← join start second.span
      return .inr (.binary first operator second span, next)

def chainLater (inner : Level) (inSection : Bool) (start : Span) (bound : Nat) :
    Operand ⊕ Operand → Parse Operand
  | .inl done => return done
  | .inr (chain, next) => chainOn inner inSection start bound chain next

omit mirrored in
theorem chainFrom_rounds (inSection : Bool) (start : Span) (first : Expr)
    (pending : Option Name) (parser : Parser) :
    chainFrom inner inSection start first pending parser =
      (chainRound inner inSection start first pending >>=
        chainLater inner inSection start (chainRemaining pending parser)) parser := by
  generalize bounded : chainRemaining pending parser = bound
  rw [chainFrom, bounded, chainBelow_eq, bind_apply, bind_apply, chainRound, bind_apply]
  cases (pendingOperator pending parser).1 with
  | none => rfl
  | some operator =>
    rw [chainAfter_apply]
    generalize (pendingOperator pending parser).2 = going
    let round : Bool → Parse (Operand ⊕ Operand) := fun closes =>
      if inSection && closes then return .inl (first, some operator)
      else do
        let (second, next) ← signedOperand inner
        let span ← join start second.span
        return .inr (.binary first operator second span, next)
    change _ = chainLater inner inSection start bound
      (round (decide (going.ahead = .closeParen)) going).1
      (round (decide (going.ahead = .closeParen)) going).2
    simp only [round]
    cases inSection && decide (going.ahead = .closeParen) with
    | true => rfl
    | false => rfl

theorem chainRound_mirrors (inSection : Bool) (start : Span) (first : Expr) (pending : Option Name)
    (left right : Parser) :
    Mirrors pairing false brackets brackets (chainRound inner inSection start first pending)
      (chainRound inner inSection (pairing.move start) (first.moved pairing.move)
        (operatorMoved pairing.move pending))
      (Sum.map (Operand.moved pairing.move) (Operand.moved pairing.move)) left right := by
  unfold chainRound
  apply Mirrors.bind (pendingOperator_mirrors pending)
  intro found left right
  cases found with
  | none => exact Mirrors.pure rfl
  | some operator =>
    have goesOn : Mirrors pairing false brackets brackets
        (do
          let (second, next) ← signedOperand inner
          let span ← join start second.span
          return .inr (.binary first operator second span, next))
        (do
          let (second, next) ← signedOperand inner
          let span ← join (pairing.move start) second.span
          return .inr (.binary (first.moved pairing.move) (operator.moved pairing.move) second
            span, next))
        (Sum.map (Operand.moved pairing.move) (Operand.moved pairing.move)) left right := by
      apply Mirrors.bind (signedOperand_keeps mirrored brackets left right).lax
      rintro ⟨second, next⟩ left right
      simp only [Prod.map_apply, Expr.span_moved]
      apply Mirrors.join
      exact fun _ _ _ => Mirrors.pure (by simp [Expr.moved])
    apply Mirrors.isAt rfl
    · intro _
      cases inSection with
      | true => exact Mirrors.pure rfl
      | false => exact goesOn
    · intro _
      simp only [Bool.and_false, Bool.false_eq_true, if_false]
      exact goesOn

omit mirrored in
/-- A chain goes on where it consumed something, and is at fault otherwise. -/
theorem chainOn_apply (inSection : Bool) (start : Span) (bound : Nat) (chain : Expr)
    (next : Option Name) (parser : Parser) :
    chainOn inner inSection start bound chain next parser =
      if chainRemaining next parser < bound then
        chainFrom inner inSection start chain next parser
      else ((chain, next), Mishap.apply (.raised .stalled) parser) :=
  rfl

omit mirrored in
theorem good_of_chainOn {inSection : Bool} {start : Span} {bound : Nat} {chain : Expr}
    {next : Option Name} {parser : Parser}
    (goesOn : chainRemaining next parser < bound →
      pairing.good (chainFrom inner inSection start chain next parser).2 → pairing.good parser)
    (good : pairing.good (chainOn inner inSection start bound chain next parser).2) :
    pairing.good parser := by
  rw [chainOn_apply] at good
  split at good
  · rename_i progress
    exact goesOn progress good
  · exact (lawful.mishap (.raised .stalled) parser good).good parser

omit mirrored in
theorem chainOn_mirrors {inSection : Bool} {start : Span} {bound otherBound : Nat} {chain : Expr}
    {next : Option Name}
    (goesOn : chainRemaining next left < bound → Mirrors pairing false brackets brackets
      (chainFrom inner inSection start chain next)
      (chainFrom inner inSection (pairing.move start) (chain.moved pairing.move)
        (operatorMoved pairing.move next))
      (Operand.moved pairing.move) left right)
    (progress : chainRemaining next left < bound →
      chainRemaining (operatorMoved pairing.move next) right < otherBound)
    (onlyThen : pairing.Forgiving → pairing.pairs brackets left right →
      chainRemaining (operatorMoved pairing.move next) right < otherBound →
        chainRemaining next left < bound) :
    Mirrors pairing false brackets brackets (chainOn inner inSection start bound chain next)
      (chainOn inner inSection (pairing.move start) otherBound (chain.moved pairing.move)
        (operatorMoved pairing.move next))
      (Operand.moved pairing.move) left right := by
  by_cases consumed : chainRemaining next left < bound
  · apply Mirrors.congr _ _ (goesOn consumed)
    · rw [chainOn_apply, if_pos consumed]
    · intro _ _
      rw [chainOn_apply, if_pos (progress consumed)]
  · have stalls : chainOn inner inSection start bound chain next left = _ :=
      chainOn_apply inSection start bound chain next left
    rw [if_neg consumed] at stalls
    constructor
    · exact good_of_chainOn fun consumed' => absurd consumed' consumed
    · rw [stalls]
      intro pairs good
      have forgiving := lawful.mishap (.raised .stalled) left good
      rw [chainOn_apply, if_neg fun less => consumed (onlyThen forgiving pairs less)]
      exact ⟨forgiving.steps pairs (forgiving.mishap pairs (.raised .stalled)),
        (fun isEager => nomatch isEager), rfl⟩

omit mirrored in
theorem chainRemaining_moved (change : Span → Span) (pending : Option Name) (parser : Parser) :
    chainRemaining (operatorMoved change pending) parser =
      2 * parser.remaining + pending.isSome.toNat := by
  simp [chainRemaining, operatorMoved]

/-- By induction on what the chain has before it. -/
theorem chainFrom_mirrors (inSection : Bool) (start : Span) (first : Expr) (pending : Option Name)
    (left right : Parser) :
    Mirrors pairing false brackets brackets (chainFrom inner inSection start first pending)
      (chainFrom inner inSection (pairing.move start) (first.moved pairing.move)
        (operatorMoved pairing.move pending))
      (Operand.moved pairing.move) left right := by
  induction bound : chainRemaining pending left using Nat.strong_induction_on
    generalizing first pending left right with
  | _ bound induction =>
    subst bound
    apply Mirrors.congr (chainFrom_rounds inSection start first pending left)
      fun _ _ => chainFrom_rounds inSection _ _ _ right
    have round : Mirrors pairing false brackets brackets _ _ _ left right :=
      chainRound_mirrors mirrored inSection start first pending left right
    match found : (chainRound inner inSection start first pending left).1 with
    | .inl done =>
      apply Mirrors.bind_here round
      rw [found]
      exact fun opposite => Mirrors.pure rfl
    | .inr (chain, next) =>
      apply Mirrors.bind_steps round
      · rw [found]
        exact good_of_chainOn fun consumed =>
          (induction _ consumed chain next _ right rfl).backward
      · rw [found]
        intro opposite pairs steps
        apply chainOn_mirrors fun consumed => induction _ consumed chain next _ opposite rfl
        · have progress := steps.progress
          rw [chainRemaining_moved, chainRemaining_moved, chainRemaining, chainRemaining]
          omega
        · intro forgiving opposed
          rw [chainRemaining_moved, chainRemaining_moved, chainRemaining, chainRemaining,
            forgiving.exact opposed, forgiving.exact pairs]
          exact id

omit mirrored in
/-- An operator is handed back in front of a closing parenthesis, or by a chain that went wrong. -/
theorem chainFrom_settles (inSection : Bool) (start : Span) (first : Expr) (pending : Option Name)
    (parser : Parser)
    (dangling : (chainFrom inner inSection start first pending parser).1.2.isSome = true) :
    (∃ mishap spoiled, (chainFrom inner inSection start first pending parser).2 =
        Mishap.apply mishap spoiled) ∨
      (chainFrom inner inSection start first pending parser).2.ahead = .closeParen := by
  induction bound : chainRemaining pending parser using Nat.strong_induction_on
    generalizing first pending parser with
  | _ bound induction =>
    subst bound
    have below : chainFrom inner inSection start first pending parser =
        (pendingOperator pending >>=
          chainAfter inner inSection start (chainRemaining pending parser) first) parser :=
      chainBelow_eq inSection start _ first pending parser
    rw [below, bind_apply] at dangling ⊢
    cases found : (pendingOperator pending parser).1 with
    | none =>
      rw [found] at dangling
      cases dangling
    | some operator =>
      rw [found, chainAfter_apply] at dangling
      rw [chainAfter_apply]
      split at dangling
      · rename_i closes
        rw [if_pos closes]
        simp only [Bool.and_eq_true, decide_eq_true_eq] at closes
        exact Or.inr closes.2
      · rename_i goesOn
        rw [if_neg goesOn]
        simp only [chainOn_apply] at dangling ⊢
        split at dangling
        · rename_i consumed
          rw [if_pos consumed]
          exact induction _ consumed _ _ _ dangling rfl
        · rename_i stalled
          rw [if_neg stalled]
          exact Or.inl ⟨.raised .stalled, _, rfl⟩

theorem chain_keeps : Keeps pairing true (chain inner) (Expr.moved pairing.move) := by
  intro brackets left right
  unfold chain
  apply Mirrors.aheadSpan
  apply Mirrors.bind (signedOperand_keeps mirrored brackets left right)
  rintro ⟨first, pending⟩ left right
  apply Mirrors.bind (chainFrom_mirrors mirrored false _ first pending left right)
  exact fun _ _ _ => Mirrors.pure rfl

end Chains

theorem annotated_mirrors (start : Span) (expr : Expr) (left right : Parser) :
    Mirrors pairing false brackets brackets (annotated inner start expr)
      (annotated inner (pairing.move start) (expr.moved pairing.move)) (Expr.moved pairing.move)
      left right := by
  unfold annotated
  apply Mirrors.accept_plain rfl rfl
  · intro left right
    apply Mirrors.bind (mirrored.type pairing brackets left right).lax
    exact fun type left right => Mirrors.finish (by simp [Expr.moved])
  · exact fun _ => Mirrors.pure rfl

theorem expressionProduction_keeps :
    Keeps pairing true (expressionProduction inner) (Expr.moved pairing.move) := by
  intro brackets left right
  unfold expressionProduction
  apply Mirrors.aheadSpan
  apply Mirrors.bind (chain_keeps mirrored brackets left right)
  exact fun expr left right => annotated_mirrors mirrored _ expr left right

theorem alternative_keeps :
    Keeps pairing true (alternative inner) (Alternative.moved pairing.move) := by
  intro brackets left right
  unfold alternative
  apply Mirrors.aheadSpan
  apply Mirrors.bind (mirrored.pattern pairing brackets left right)
  intro pattern left right
  apply Mirrors.bind (rightSide_keeps mirrored rfl rfl brackets left right).lax
  exact fun body left right => Mirrors.finish (by simp [Alternative.moved])

theorem statement_keeps : Keeps pairing true (statement inner) (Statement.moved pairing.move) := by
  intro brackets left right
  unfold statement
  apply Mirrors.aheadSpan
  generalize left.aheadSpan = start
  apply Mirrors.accept_plain rfl rfl
  · intro left right
    apply Mirrors.bind (mirrored.declBlock pairing brackets left right)
    intro decls left right
    apply Mirrors.accept_plain rfl rfl
    · intro left right
      apply Mirrors.bind (mirrored.expression pairing brackets left right).lax
      exact fun body left right => Mirrors.finish (by simp [Statement.moved, Expr.moved])
    · exact fun _ => Mirrors.finish (by simp [Statement.moved])
  · intro _
    apply Mirrors.bind (mirrored.expression pairing brackets left right)
    intro expr left right
    apply Mirrors.accept_plain rfl rfl
    · intro left right
      apply Mirrors.bind (mirrored.expression pairing brackets left right).lax
      exact fun source left right => Mirrors.finish (by simp [Statement.moved])
    · exact fun _ => Mirrors.pure (by simp [Statement.moved])

section Parentheses

theorem afterLeadingOperator_mirrors (start : Span) (operator : Name) (left right : Parser) :
    Mirrors pairing false (.openParen :: brackets) brackets
      (afterLeadingOperator inner start operator)
      (afterLeadingOperator inner (pairing.move start) (operator.moved pairing.move))
      (Expr.moved pairing.move) left right := by
  unfold afterLeadingOperator
  apply Mirrors.accept (by decide) (by simp) rfl rfl
  · exact fun _ _ => Mirrors.pure (by simp [Expr.moved])
  · intro _
    apply Mirrors.bind (chain_keeps mirrored _ left right).lax
    intro operand left right
    exact Mirrors.closed (by decide) rfl (by simp [Expr.moved])

omit mirrored in
theorem mirrors_operatorLeads {β : Type} {next other : Bool → Parse β} {change : β → β}
    (later : ∀ follows left' opposite,
      Mirrors pairing false brackets after (next follows) (other follows) change left' opposite) :
    Mirrors pairing false brackets after (operatorLeads >>= next) (operatorLeads >>= other) change
      left right := by
  unfold operatorLeads
  simp only [mirrors_bind_assoc]
  apply Mirrors.ahead_blind rfl
  split
  · exact later true left right
  · split
    · rename_i minus
      simp only [mirrors_bind_assoc]
      apply Mirrors.peek (isAtEnd_of_ahead (by decide) minus) (by rw [minus]; rfl) (Or.inl rfl) rfl
      exact fun token left' opposite _ _ => later _ left' opposite
    · exact later _ left right

theorem afterFirstOperand_mirrors (start firstStart : Span) (first : Operand) (left right : Parser) :
    Mirrors pairing false (.openParen :: brackets) brackets
      (afterFirstOperand inner start firstStart first)
      (afterFirstOperand inner (pairing.move start) (pairing.move firstStart)
        (first.moved pairing.move))
      (Expr.moved pairing.move) left right := by
  unfold afterFirstOperand
  obtain ⟨first, pending⟩ := first
  have settles : (chainFrom inner true firstStart first pending left).1.2.isSome = true → _ :=
    chainFrom_settles true firstStart first pending left
  apply Mirrors.bind_here (chainFrom_mirrors mirrored true firstStart first pending left right)
  generalize chainFrom inner true firstStart first pending left = done at settles
  intro right
  obtain ⟨⟨value, dangling⟩, left⟩ := done
  cases dangling with
  | some operator =>
    apply Mirrors.closing (settles rfl) (by decide) rfl
    exact fun left right => Mirrors.finish (by simp [Expr.moved])
  | none =>
    apply Mirrors.bind (annotated_mirrors mirrored firstStart value left right)
    intro element left right
    exact enclosed_mirrors (mirrored.expression pairing) start element left right

theorem parentheses_mirrors (found : left.ahead = .openParen) :
    Mirrors pairing true brackets brackets (parentheses inner) (parentheses inner)
      (Expr.moved pairing.move) left right := by
  unfold parentheses
  apply Mirrors.aheadSpan
  apply Mirrors.take found (by decide) (fun _ => rfl) rfl
  generalize left.aheadSpan = start
  intro left right
  apply Mirrors.accept (by decide) (by simp) rfl rfl
  · exact fun _ _ => Mirrors.finish (by simp [Expr.moved])
  · intro _
    apply Mirrors.isAt rfl
    · exact fun _ => tupleConstructor_mirrors start
    · intro _
      apply mirrors_operatorLeads
      intro leads left right
      cases leads with
      | true =>
        apply Mirrors.bind (operator?_keeps _ left right)
        intro found left right
        cases found with
        | some operator => exact afterLeadingOperator_mirrors mirrored start operator left right
        | none => exact reject_mirrors.lax.map fun _ => by simp [Expr.moved]
      | false =>
        apply Mirrors.aheadSpan
        generalize left.aheadSpan = firstStart
        apply Mirrors.isAt rfl
        · intro proper
          apply Mirrors.solid (by rw [proper]; rfl)
          apply Mirrors.bind (qualifiedTerm_keeps _ left right)
          intro term left right
          cases term with
          | operator operator =>
            exact afterLeadingOperator_mirrors mirrored start operator left right
          | operand name =>
            have applied : Mirrors pairing false (.openParen :: brackets)
                (.openParen :: brackets) _ _ (Operand.moved pairing.move) left right :=
              arguments_mirrors mirrored firstStart (.identifier name) left right
            rw [Expr.moved] at applied
            apply Mirrors.bind applied
            exact fun first left right =>
              afterFirstOperand_mirrors mirrored start firstStart first left right
        · intro _
          apply Mirrors.bind (signedOperand_keeps mirrored _ left right)
          exact fun first left right =>
            afterFirstOperand_mirrors mirrored start firstStart first left right

end Parentheses

section Brackets

theorem lastElement?_keeps :
    Keeps pairing false (lastElement? inner) (Option.map (Expr.moved pairing.move)) := by
  intro brackets left right
  unfold lastElement?
  apply Mirrors.isAt rfl
  · exact fun _ => Mirrors.pure rfl
  · exact fun _ => (mirrored.expression pairing _ left right).lax.map fun _ => rfl

theorem sequenceEnd_mirrors (start : Span) (first : Expr) (second : Option Expr)
    (left right : Parser) :
    Mirrors pairing false (.openBracket :: brackets) brackets
      (sequenceEnd inner start first second)
      (sequenceEnd inner (pairing.move start) (first.moved pairing.move)
        (second.map (Expr.moved pairing.move)))
      (Expr.moved pairing.move) left right := by
  unfold sequenceEnd
  apply Mirrors.bind (lastElement?_keeps mirrored _ left right)
  exact fun last left right => Mirrors.closed (by decide) rfl (by simp [Expr.moved])

theorem comprehensionEnd_mirrors (start : Span) (element : Expr) (left right : Parser) :
    Mirrors pairing false (.openBracket :: brackets) brackets
      (comprehensionEnd inner start element)
      (comprehensionEnd inner (pairing.move start) (element.moved pairing.move))
      (Expr.moved pairing.move) left right := by
  unfold comprehensionEnd
  apply Mirrors.bind (separated_mirrors rfl rfl (statement_keeps mirrored _) left right).lax
  intro qualifiers left right
  exact Mirrors.closed (by decide) rfl (by simp [Expr.moved])

theorem brackets_mirrors (found : left.ahead = .openBracket) :
    Mirrors pairing true brackets brackets (Grammar.brackets inner) (Grammar.brackets inner)
      (Expr.moved pairing.move) left right := by
  unfold Grammar.brackets
  apply Mirrors.aheadSpan
  apply Mirrors.take found (by decide) (fun _ => rfl) rfl
  generalize left.aheadSpan = start
  intro left right
  apply Mirrors.accept (by decide) (by simp) rfl rfl
  · exact fun _ _ => Mirrors.finish (by simp [Expr.moved])
  · intro _
    apply Mirrors.bind (mirrored.expression pairing _ left right).lax
    intro first left right
    apply Mirrors.accept_plain rfl rfl
    · exact fun left right => sequenceEnd_mirrors mirrored start first none left right
    · intro _
      apply Mirrors.accept_plain rfl rfl
      · exact fun left right => comprehensionEnd_mirrors mirrored start first left right
      · intro _
        apply Mirrors.accept_plain rfl rfl
        · intro left right
          apply Mirrors.bind (mirrored.expression pairing _ left right).lax
          intro second left right
          apply Mirrors.accept_plain rfl rfl
          · exact fun left right =>
              sequenceEnd_mirrors mirrored start first (some second) left right
          · intro _
            apply Mirrors.bind (many_accept_mirrors rfl rfl
              (fun left right => (mirrored.expression pairing _ left right).lax) left right)
            exact fun later left right =>
              listEnd_mirrors start (first :: second :: later) left right
        · exact fun _ => listEnd_mirrors start [first] left right

end Brackets

end Offside.Haskell.Grammar
