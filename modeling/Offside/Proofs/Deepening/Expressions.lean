import Offside.Proofs.Deepening.Declarations
import Offside.Proofs.Deepening.Endings

/-!
Expressions at the fork. Among the arguments of a function the qualifier is read segment by segment, so
the second run finds there what the first does. Only behind an operand that ends in a block the next
operator is looked for by two tokens, and then it is seen in the tree that this operand is its left one.
-/

namespace Offside

set_option autoImplicit false

open Offside.Parser

namespace Parser.Detour

@[simp] abbrev SameAlternative (detour : Detour) (first second : Alternative) : Prop :=
  second.sketch Name.bare = first.sketch detour.names

@[simp] abbrev SameStatement (detour : Detour) (first second : Statement) : Prop :=
  second.sketch Name.bare = first.sketch detour.names

@[simp] abbrev SameExpr? (detour : Detour) (first second : Option Expr) : Prop :=
  second.map (Expr.sketch Name.bare) = first.map (Expr.sketch detour.names)

end Parser.Detour

namespace Haskell.Grammar

open Offside.Parse Offside.Parser.Detour

variable {detour : Detour} {given needs : Prop} {inner : Level} {left right : Parser}

structure SameOperand (detour : Detour) (first second : Operand) : Prop where
  value : detour.SameExpr first.1 second.1
  operator : SameOption detour first.2 second.2

abbrev TrailsOperand (detour : Detour) (given needs : Prop) (first second : Parse Operand)
    (left right : Parser) : Prop :=
  Trails detour given needs (fun found _ => detour.Spared found.1) (SameOperand detour) first second
    left right

theorem Level.Trailed.expression_settles (trailed : inner.Trailed detour) (parser : Parser) :
    Settles inner.expression EndsInBlock parser :=
  trailed.expressionEnds parser

theorem Level.Trailed.type_settles (trailed : inner.Trailed detour) (parser : Parser) :
    Settles inner.type (fun _ after => after.ahead ≠ .properIdentifier) parser :=
  trailed.typeEnds parser

section Applications

variable (trailed : inner.Trailed detour) {start opposite : Span} {function other : Expr}
  (starts : given → opposite.blank = start.blank) (same : given → detour.SameExpr function other)

include trailed

theorem atom_trails (left right : Parser) :
    TrailsExpr detour detour.Spared True True (atom inner) (atom inner) left right := by
  have below := Node.spares_hereditary detour.fork
  unfold atom
  refine .ahead ?_
  split
  · exact variableOrAlias_trails below trailed.expressionAtom left right
  · exact .spare ((qualifiedIdentifier_trails left right).map (fun _ _ => id)
      fun name other same => by simpa using same)
  · exact (wildcard_trails ‹_›).spare
  · exact lazyPattern_trails below ‹_› trailed.expressionAtom
  iterate 4 exact (literal_trails left right).spare
  · exact trailed.parentheses left right ‹_›
  · exact trailed.brackets left right ‹_›
  · exact .unclean (reject_spoils left)

@[simp] abbrev SameArgument (detour : Detour) (first second : Expr ⊕ Name) : Prop :=
  second.map (Expr.sketch Name.bare) Name.bare = first.map (Expr.sketch detour.names) detour.names

theorem argument_trails :
    Tracks detour (fun found _ => ∀ value, found = .inl value → detour.Spared value)
      (SameArgument detour) (argument inner) := by
  intro left right
  unfold argument
  refine .isAt (fun _ => ?_) fun _ => ?_
  · refine .bind (qualifiedTerm_trails left right) fun term term' left right => ?_
    have ends : ∀ value opposite, (SameTerm detour term term' → SameArgument detour value opposite) →
        Trails detour (True ∧ SameTerm detour term term') (True ∧ True)
          (fun found _ => ∀ value, found = .inl value → detour.Spared value) (SameArgument detour)
          (pure value) (pure opposite) left right :=
      fun value opposite same => .pure (fun _ => by simp) fun known => same known.2
    cases term with
    | operand name =>
      cases term' with
      | operand other => exact ends _ _ fun same => by simpa [SameTerm] using same
      | operator other => exact ends _ _ fun same => nomatch same
    | operator name =>
      cases term' with
      | operand other => exact ends _ _ fun same => nomatch same
      | operator other => exact ends _ _ fun same => by simpa [SameTerm] using same
  · exact (atom_trails trailed left right).map (fun value _ spared => spared value rfl)
      fun value other same => by simpa using same

omit trailed

include starts same

theorem joinArguments_trails {found found' : List Expr} {operator operator' : Option Name}
    (alike : given → detour.SameExprs found found')
    (named : given → SameOption detour operator operator') :
    TrailsOperand detour given (detour.Spared function ∧ ∀ value ∈ found, detour.Spared value)
      (match found.getLast? with
        | none => pure (function, operator)
        | some last =>
          return (.application function found (← Parse.join start last.span), operator))
      (match found'.getLast? with
        | none => pure (other, operator')
        | some last =>
          return (.application other found' (← Parse.join opposite last.span), operator'))
      left right := by
  have applied : ∀ last last' : Expr, (given → last'.span.blank = last.span.blank) →
      TrailsOperand detour given (detour.Spared function ∧ ∀ value ∈ found, detour.Spared value)
        (do return (.application function found (← Parse.join start last.span), operator))
        (do return (.application other found' (← Parse.join opposite last'.span), operator'))
        left right := by
    intro last last' ends
    refine .join starts ends (fun span span' => ?_) fun _ _ => id
    refine .pure (fun spared => ?_) ?_
    · exact ⟨spared.below (by simp), fun value member => spared.below (by simp [member])⟩
    · rintro ⟨premise, span⟩
      have head := same premise
      have tail := alike premise
      exact ⟨by simp_all, named premise⟩
  have ends : given → detour.SameExpr? found.getLast? found'.getLast? := by
    intro premise
    rw [SameExpr?, ← List.getLast?_map, alike premise, List.getLast?_map]
  cases isLast : found.getLast? with
  | none =>
    have alone : TrailsOperand detour given
        (detour.Spared function ∧ ∀ value ∈ found, detour.Spared value) (pure (function, operator))
        (pure (other, operator')) left right :=
      .pure (fun spared => ⟨spared, by simp [List.getLast?_eq_none_iff.1 isLast]⟩)
        fun premise => ⟨same premise, named premise⟩
    refine .rewrite (fun premise => ?_) alone
    have none : found'.getLast? = none := by simpa [isLast] using ends premise
    rw [none]
  | some last =>
    cases isLast' : found'.getLast? with
    | none =>
      have never : ¬given := fun premise => by simpa [isLast, isLast'] using ends premise
      exact .unlike never (applied last default fun premise => (never premise).elim)
    | some last' =>
      exact applied last last' fun premise =>
        SameExpr.span (by simpa [isLast, isLast'] using ends premise)

include trailed

theorem arguments_trails (left right : Parser) :
    TrailsOperand detour given (detour.Spared function) (arguments inner start function)
      (arguments inner opposite other) left right := by
  unfold arguments
  have rounds : Tracks detour (RoundSpares detour.Spared (fun _ : Name => True) fun _ => True)
      (fun value opposite => opposite.map (Sum.map (Expr.sketch Name.bare) Name.bare) =
        value.map (Sum.map (Expr.sketch detour.names) detour.names))
      (oneRound (do return startsAtom (← Parse.ahead)) (argument inner)) := by
    intro left right
    unfold oneRound
    simp only [Trails.bind_assoc_iff]
    refine .ahead ?_
    simp only [Trails.pure_bind_iff]
    split
    · refine (argument_trails trailed left right).map ?_ fun _ _ same => congrArg some same
      rintro _ _ spared value rfl
      exact spared
    · exact .pure (fun _ => trivial) fun _ => rfl
  refine .bind (repeatUntil_trails rounds left right) ?_
  rintro ⟨found, operator⟩ ⟨found', operator'⟩ left right
  exact (joinArguments_trails (fun known => starts known.1) (fun known => same known.1)
    (fun known => known.2.1) fun known => known.2.2).needing fun spared =>
      ⟨spared.1, spared.2, by simp, by simp⟩

omit starts same

theorem application_trails (left right : Parser) :
    TrailsOperand detour True True (application inner) (application inner) left right := by
  unfold application
  refine .aheadSpan (.bind (atom_trails trailed left right) fun function other left' right' => ?_)
  exact (arguments_trails trailed (fun known => known.1.2) (fun known => known.2) left'
    right').needing fun spared => ⟨trivial, spared⟩

end Applications

section Operands

variable (trailed : inner.Trailed detour)

include trailed

theorem parameters_trails : TracksExprs detour detour.SparedPattern (parameters inner) := by
  intro left right
  unfold parameters
  refine .bind (patternAtoms_trails trailed left right) fun found found' left right => ?_
  refine .rewrite (fun known => by rw [isEmpty_of_map known.2]) ?_
  split
  · exact .reportUnexpected fun _ => id
  · exact .pure (fun spared => ⟨trivial, spared⟩) fun known => known.2

theorem lambda_trails (found : left.ahead = .backslash) :
    TrailsExpr detour detour.Spared True True (lambda inner) (lambda inner) left right := by
  unfold lambda
  refine .aheadSpan (.take found rfl fun left' right' => ?_)
  refine .bind (parameters_trails trailed left' right') fun parameters parameters' left right => ?_
  refine .expect rfl fun _ left right => ?_
  refine .bind (trailed.expression left right) fun body body' left right => ?_
  refine .finish (fun span spared => ⟨⟨trivial, ?_⟩, spared.below (by simp)⟩)
    (fun known => known.1.1.2) ?_
  · exact Node.Every.own spared
  · rintro span other ⟨⟨-, parameters⟩, body⟩ same
    simp_all

theorem letExpression_trails (found : left.ahead = .kwLet) :
    TrailsExpr detour detour.Spared True True (letExpression inner) (letExpression inner) left
      right := by
  unfold letExpression
  refine .aheadSpan (.take found rfl fun left' right' => ?_)
  refine .bind (trailed.declBlock left' right') fun decls decls' left right => ?_
  refine .expect rfl fun _ left right => ?_
  refine .bind (trailed.expression left right) fun body body' left right => ?_
  refine .finish (fun span spared => ⟨⟨trivial, fun decl member => spared.below (by simp [member])⟩,
    spared.below (by simp)⟩) (fun known => known.1.1.2) ?_
  rintro span other ⟨⟨-, decls⟩, body⟩ same
  simp_all

theorem branch_trails {keyword : Token} (free : keyword.isFree = true) :
    TracksExpr detour detour.Spared (branch inner keyword) := by
  intro left right
  unfold branch
  refine .accept_either rfl fun _ left right => .expect free fun _ left right => ?_
  exact trailed.expression left right

theorem conditional_trails (found : left.ahead = .kwIf) :
    TrailsExpr detour detour.Spared True True (conditional inner) (conditional inner) left right := by
  unfold conditional
  refine .aheadSpan (.take found rfl fun left' right' => ?_)
  refine .bind (trailed.expression left' right') fun condition condition' left right => ?_
  refine .bind (branch_trails trailed rfl left right) fun thenBranch thenBranch' left right => ?_
  refine .bind (branch_trails trailed rfl left right) fun elseBranch elseBranch' left right => ?_
  refine .finish (fun span spared => ⟨⟨⟨trivial, spared.below (by simp)⟩,
    spared.below (by simp)⟩, spared.below (by simp)⟩) (fun known => known.1.1.1.2) ?_
  rintro span other ⟨⟨⟨-, condition⟩, thenBranch⟩, elseBranch⟩ same
  simp_all

theorem caseExpression_trails (found : left.ahead = .kwCase) :
    TrailsExpr detour detour.Spared True True (caseExpression inner) (caseExpression inner) left
      right := by
  unfold caseExpression
  refine .aheadSpan (.take found rfl fun left' right' => ?_)
  refine .bind (trailed.expression left' right') fun scrutinee scrutinee' left right => ?_
  refine .expect rfl fun _ left right => ?_
  refine .bind (trailed.alternativeBlock left right) fun alternatives alternatives' left right => ?_
  refine .finish (fun span spared => ⟨⟨trivial, spared.below (by simp)⟩,
    fun value member => spared.below (by simp [member])⟩) (fun known => known.1.1.2) ?_
  rintro span other ⟨⟨-, scrutinee⟩, alternatives⟩ same
  simp_all

theorem doExpression_trails (found : left.ahead = .kwDo) :
    TrailsExpr detour detour.Spared True True (doExpression inner) (doExpression inner) left
      right := by
  unfold doExpression
  refine .aheadSpan (.take found rfl fun left' right' => ?_)
  refine .bind (trailed.statementBlock left' right') fun statements statements' left right => ?_
  refine .finish (fun span spared => ⟨trivial, fun value member => spared.below (by simp [member])⟩)
    (fun known => known.1.2) ?_
  rintro span other ⟨-, statements⟩ same
  simp_all

theorem operand_trails (left right : Parser) :
    TrailsOperand detour True True (operand inner) (operand inner) left right := by
  have alone : ∀ {production : Parse Expr},
      TrailsExpr detour detour.Spared True True production production left right →
      TrailsOperand detour True True (do return (← production, none))
        (do return (← production, none)) left right :=
    fun trails => .bind trails fun value other left right =>
      .pure (fun spared => ⟨trivial, spared⟩) fun known => ⟨known.2, rfl⟩
  unfold operand
  refine .ahead ?_
  split
  · exact alone (lambda_trails trailed ‹_›)
  · exact alone (letExpression_trails trailed ‹_›)
  · exact alone (conditional_trails trailed ‹_›)
  · exact alone (caseExpression_trails trailed ‹_›)
  · exact alone (doExpression_trails trailed ‹_›)
  · exact application_trails trailed left right

theorem signedOperand_trails (left right : Parser) :
    TrailsOperand detour True True (signedOperand inner) (signedOperand inner) left right := by
  unfold signedOperand
  refine .isAt (fun found => ?_) fun _ => operand_trails trailed left right
  refine .aheadSpan (.take found rfl fun left' right' => ?_)
  refine .bind (operand_trails trailed left' right') ?_
  rintro ⟨value, operator⟩ ⟨value', operator'⟩ left right
  refine .join (fun known => known.1.2) (fun known => known.2.value.span) (fun span span' => ?_)
    fun _ _ => id
  refine .pure (fun spared => ⟨trivial, spared.below (by simp)⟩) ?_
  rintro ⟨⟨-, same⟩, span⟩
  have alike := same.value
  exact ⟨by simp_all, same.operator⟩

end Operands

section Chains

variable {start opposite : Span} {first other : Expr} {pending pending' : Option Name}

theorem pendingOperator_trails (named : given → SameOption detour pending pending')
    (ended : given → OperandEnds (first, pending) left) :
    Trails detour given True
      (fun found _ => ∀ name ∈ found, name.isLedBy detour.fork = true → first.endsInBlock = false)
      (SameOption detour) (pendingOperator pending) (pendingOperator pending') left right := by
  apply trails_option pending pending' named
  · rintro rfl
    refine (@operator?_trails _ left right (first.endsInBlock = true)).mono
      (fun premise => ended premise rfl) (fun _ => id) (fun _ spared name found led => ?_)
        fun _ _ _ => id
    simp [spared name found led]
  · exact fun name other _ same => .pure (fun _ => trivial) fun premise => congrArg some (same premise)

def ChainSpares (detour : Detour) (inSection : Bool) (found : Operand) : Prop :=
  detour.Spared found.1 ∧ (inSection = true →
    ∀ name ∈ found.2, name.isLedBy detour.fork = true → found.1.endsInBlock = false)

def RoundOfChainSpares (detour : Detour) (inSection : Bool) : Operand ⊕ Operand → Prop
  | .inl done => ChainSpares detour inSection done
  | .inr chain => detour.Spared chain.1

def SameRound (detour : Detour) : Operand ⊕ Operand → Operand ⊕ Operand → Prop
  | .inl done, .inl other => SameOperand detour done other
  | .inr chain, .inr other => SameOperand detour chain other
  | _, _ => False

variable (trailed : inner.Trailed detour) (inSection : Bool)
  (starts : given → opposite.blank = start.blank) (same : given → detour.SameExpr first other)
  (named : given → SameOption detour pending pending')
  (ended : given → OperandEnds (first, pending) left)

include trailed starts same named ended

theorem chainRound_trails :
    Trails detour given (detour.Spared first)
      (fun found _ => RoundOfChainSpares detour inSection found) (SameRound detour)
      (chainRound inner inSection start first pending)
      (chainRound inner inSection opposite other pending') left right := by
  unfold chainRound
  refine .bind_given (pendingOperator_trails named ended) fun found found' left right => ?_
  apply trails_option found found' And.right
  · rintro rfl
    exact .pure (fun spared => ⟨spared.1, by simp⟩) fun known => ⟨same known.1, rfl⟩
  · rintro operator operator' rfl alike
    have goesOn : ∀ left right, Trails detour (given ∧ SameOption detour (some operator) found')
        (detour.Spared first ∧ ∀ name ∈ some operator, name.isLedBy detour.fork = true →
          first.endsInBlock = false)
        (fun found _ => RoundOfChainSpares detour inSection found) (SameRound detour)
        (do
          let second ← signedOperand inner
          let span ← Parse.join start second.1.span
          return .inr (.binary first operator second.1 span, second.2))
        (do
          let second ← signedOperand inner
          let span ← Parse.join opposite second.1.span
          return .inr (.binary other operator' second.1 span, second.2)) left right := by
      intro left right
      refine .bind (signedOperand_trails trailed left right) ?_
      rintro ⟨second, next⟩ ⟨second', next'⟩ left right
      refine .join (fun known => starts known.1.1) (fun known => known.2.value.span)
        (fun span span' => ?_) fun _ _ => id
      refine .pure (fun spared => ?_) ?_
      · have operators := Node.Every.own spared
        refine ⟨⟨Node.Spares.below spared (by simp), ?_⟩, Node.Spares.below spared (by simp)⟩
        rintro name ⟨⟩
        exact operators
      · rintro ⟨⟨premise, operand⟩, span⟩
        have head := same premise.1
        have between := alike premise
        have value := operand.value
        exact ⟨by simp_all, operand.operator⟩
    refine .isAt (fun _ => ?_) fun _ => ?_
    · cases inSection with
      | true =>
        exact .pure (fun spared => ⟨spared.1, spared.2 rfl⟩)
          fun known => ⟨same known.1, congrArg some (alike known)⟩
      | false => exact goesOn left right
    · simp only [Bool.and_false, Bool.false_eq_true, if_false]
      exact goesOn left right

/-- By induction on what the first chain has before it. -/
theorem chainFrom_trails :
    Trails detour given (detour.Spared first) (fun found _ => ChainSpares detour inSection found)
      (SameOperand detour) (chainFrom inner inSection start first pending)
      (chainFrom inner inSection opposite other pending') left right := by
  induction bound : chainRemaining pending left using Nat.strong_induction_on
    generalizing given first other pending pending' left right with
  | _ bound induction =>
    subst bound
    refine .congr (chainFrom_rounds inSection start first pending left)
      (fun _ => chainFrom_rounds inSection opposite other pending' right) ?_
    have round : Trails detour _ _ _ _ _ _ left right :=
      chainRound_trails trailed inSection starts same named ended
    have settled : given → Settles (chainRound inner inSection start first pending) _ left :=
      fun premise => chainRound_settles trailed.expression_settles fun _ => ended premise
    unfold Settles at settled
    obtain ⟨backward, forward⟩ := round
    match found : chainRound inner inSection start first pending left with
    | (.inl done, middle) =>
      rw [found] at backward forward
      have ends : (chainRound inner inSection start first pending >>=
          chainLater inner inSection start (chainRemaining pending left)) left =
            (done, middle) := by
        rw [bind_apply, found]
        rfl
      constructor
      · rw [ends]
        exact backward
      · rw [ends]
        intro clean spared
        obtain ⟨needed, meets⟩ := forward clean spared
        refine ⟨needed, fun twin premise => ?_⟩
        have met := meets twin premise
        match found' : chainRound inner inSection opposite other pending' right with
        | (.inl done', mirror) =>
          rw [found'] at met
          rw [bind_apply, found']
          exact ⟨met.steps, met.value⟩
        | (.inr _, mirror) =>
          rw [found'] at met
          exact met.value.elim
    | (.inr (chain, next), middle) =>
      rw [found] at backward forward settled
      have goesOn : (chainRound inner inSection start first pending >>=
          chainLater inner inSection start (chainRemaining pending left)) left =
            chainOn inner inSection start (chainRemaining pending left) chain next middle := by
        rw [bind_apply, found]
        rfl
      rw [chainOn_apply] at goesOn
      by_cases consumed : chainRemaining next middle < chainRemaining pending left
      case neg =>
        rw [if_neg consumed] at goesOn
        refine .unclean ?_
        rw [goesOn]
        exact raise_spoils middle _
      rw [if_pos consumed] at goesOn
      have later : ∀ chain' next' mirror, Trails detour
          (given ∧ SameOperand detour (chain, next) (chain', next') ∧
            OperandEnds (chain, next) middle)
          (detour.Spared chain) (fun found _ => ChainSpares detour inSection found)
          (SameOperand detour) (chainFrom inner inSection start chain next)
          (chainFrom inner inSection opposite chain' next') middle mirror :=
        fun chain' next' mirror => induction _ consumed (fun known => starts known.1)
          (fun known => known.2.1.value) (fun known => known.2.1.operator)
          (fun known => known.2.2) rfl
      constructor
      · rw [goesOn]
        exact fun clean => backward ((later chain next right).backward clean)
      · rw [goesOn]
        intro clean spared
        have middleClean := (later chain next right).backward clean
        have spares := ((later chain next right).forward clean spared).1
        obtain ⟨needed, meets⟩ := forward middleClean spares
        refine ⟨needed, fun twin premise => ?_⟩
        have met := meets twin premise
        match found' : chainRound inner inSection opposite other pending' right with
        | (.inl _, mirror) =>
          rw [found'] at met
          exact met.value.elim
        | (.inr (chain', next'), mirror) =>
          rw [found'] at met
          have same : SameOperand detour (chain, next) (chain', next') := met.value
          have steps : detour.Steps left right middle mirror := met.steps
          have progress := steps.progress
          -- an operator is pending behind both operands or behind none
          have pendings : pending'.isSome = pending.isSome := by
            simpa using congrArg Option.isSome (named premise)
          have nexts : next'.isSome = next.isSome := by
            simpa using congrArg Option.isSome same.operator
          have consumed' : chainRemaining next' mirror < chainRemaining pending' right := by
            unfold chainRemaining at consumed ⊢
            rw [pendings, nexts]
            omega
          rw [bind_apply, found', chainLater, chainOn_apply, if_pos consumed']
          have met := ((later chain' next' mirror).forward clean spared).2 steps.twin
            ⟨premise, same, settled premise middleClean⟩
          exact ⟨steps.trans met.steps, met.value⟩

omit starts same named ended

theorem chain_trails : TracksExpr detour detour.Spared (chain inner) := by
  intro left right
  unfold chain
  refine .aheadSpan ?_
  refine .needing (.bind_telling OperandEnds (signedOperand_trails trailed left right).presuming
    (fun _ _ => signedOperand_settles trailed.expression_settles) ?_) And.left
  rintro ⟨first, pending⟩ ⟨first', pending'⟩ left' right'
  refine .bind_both (chainFrom_trails trailed false (fun known => known.1.1.2)
    (fun known => known.1.2.value) (fun known => known.1.2.operator) fun known => known.2) ?_
  rintro ⟨value, dangling⟩ ⟨value', dangling'⟩ left right
  exact .pure (fun spared => ⟨trivial, spared, nofun⟩) fun known => known.2.value

end Chains

section Statements

variable (trailed : inner.Trailed detour)

include trailed

theorem annotated_trails {start opposite : Span} {expr other : Expr}
    (starts : given → opposite.blank = start.blank) (same : given → detour.SameExpr expr other)
    (left right : Parser) :
    TrailsExpr detour detour.Spared given (detour.Spared expr) (annotated inner start expr)
      (annotated inner opposite other) left right := by
  unfold annotated
  refine .accept rfl (fun left right => ?_) fun _ => .pure id same
  refine .bind (trailed.type left right) fun type type' left right => ?_
  refine .finish (fun span spared => ⟨spared.below (by simp), trivial⟩) (fun known => starts known.1) ?_
  rintro span other ⟨premise, type⟩ alike
  have value := same premise
  simp_all

theorem expressionProduction_trails :
    TracksExpr detour detour.Spared (expressionProduction inner) := by
  intro left right
  unfold expressionProduction
  refine .aheadSpan (.bind (chain_trails trailed left right) fun expr other left' right' => ?_)
  exact (annotated_trails trailed (fun known => known.1.2) (fun known => known.2) left'
    right').needing fun spared => ⟨trivial, spared⟩

theorem alternative_trails :
    Tracks detour (fun value _ => (Node.alternative value).Spares detour.fork)
      detour.SameAlternative (alternative inner) := by
  intro left right
  unfold alternative
  refine .aheadSpan (.bind (trailed.pattern left right) fun pattern pattern' left' right' => ?_)
  refine .bind (rightSide_trails trailed rfl left' right') fun body body' left right => ?_
  refine .finish (fun span spared => ?_) (fun known => known.1.1.2) ?_
  · have pattern := Node.Every.own spared
    exact ⟨⟨trivial, pattern⟩, spared.below (by simp)⟩
  · rintro span other ⟨⟨-, pattern⟩, body⟩ same
    simp_all

theorem statement_trails :
    Tracks detour (fun value _ => (Node.statement value).Spares detour.fork) detour.SameStatement
      (statement inner) := by
  intro left right
  unfold statement
  refine .aheadSpan (.accept rfl (fun left right => ?_) fun _ => ?_)
  · refine .bind (trailed.declBlock left right) fun decls decls' left right => ?_
    refine .accept rfl (fun left right => ?_) fun _ => ?_
    · refine .bind (trailed.expression left right) fun body body' left right => ?_
      refine .finish (fun span spared => ?_) (fun known => known.1.1.2) ?_
      · have inside : detour.Spared (.letIn decls body span) := spared.below (by simp)
        exact ⟨⟨trivial, fun decl member => inside.below (by simp [member])⟩, inside.below (by simp)⟩
      · rintro span other ⟨⟨-, decls⟩, body⟩ same
        simp_all
    · refine .finish (fun span spared => ⟨trivial, fun decl member => spared.below (by simp [member])⟩)
        (fun known => known.1.2) ?_
      rintro span other ⟨-, decls⟩ same
      simp_all
  · refine .bind (trailed.expression _ _) fun expr expr' left right => ?_
    refine .accept rfl (fun left right => ?_) fun _ => ?_
    · refine .bind (trailed.expression left right) fun source source' left right => ?_
      refine .finish (fun span spared => ⟨⟨trivial, spared.below (by simp)⟩, spared.below (by simp)⟩)
        (fun known => known.1.1.2) ?_
      rintro span other ⟨⟨-, expr⟩, source⟩ same
      simp_all
    · refine .pure (fun spared => ⟨trivial, spared.below (by simp)⟩) ?_
      rintro ⟨-, expr⟩
      simp_all

end Statements

section Parentheses

theorem afterLeadingOperator_trails (trailed : inner.Trailed detour) {start opposite : Span}
    {operator operator' : Name} (starts : given → opposite.blank = start.blank)
    (named : given → detour.SameName operator operator') (left right : Parser) :
    TrailsExpr detour detour.Spared given True (afterLeadingOperator inner start operator)
      (afterLeadingOperator inner opposite operator') left right := by
  unfold afterLeadingOperator
  refine .accept rfl (fun left right => ?_) fun _ => ?_
  · exact .pure (fun _ => trivial) fun premise => by simpa using named premise
  · refine .bind (chain_trails trailed left right) fun operand operand' left right => ?_
    refine .expectOrSkipTo rfl fun _ left right => ?_
    refine .finish (fun span spared => ⟨trivial, spared.below (by simp)⟩) (fun known => starts known.1) ?_
    rintro span other ⟨premise, operand⟩ same
    have name := named premise
    simp_all

/-- An operator is expected behind an opening parenthesis, and no qualified one. -/
theorem trails_operatorLeads {α β : Type} {spares : α → Parser → Prop} {linked : α → β → Prop}
    {next : Bool → Parse α} {other : Bool → Parse β}
    (later : ∀ leads middle mirror, (leads = true → middle.ahead ≠ .properIdentifier) →
      Trails detour given needs spares linked (next leads) (other leads) middle mirror) :
    Trails detour given needs spares linked (operatorLeads >>= next) (operatorLeads >>= other) left
      right := by
  unfold operatorLeads
  simp only [Trails.bind_assoc_iff]
  refine .ahead ?_
  split
  · rename_i found
    refine later true left right fun _ proper => ?_
    rw [proper] at found
    simp [Token.isConstructorOperator] at found
  · split
    · rename_i minus
      simp only [Trails.bind_assoc_iff]
      refine .peek (.inl rfl) (by rw [minus]; rfl) fun middle mirror stands => ?_
      refine later _ middle mirror fun _ proper => ?_
      rw [ahead_of_upcoming stands, minus] at proper
      cases proper
    · refine later _ left right fun leads proper => ?_
      rw [proper] at leads
      cases leads

theorem leftSection_trails {start opposite : Span} {value value' : Expr} {operator operator' : Name}
    (starts : given → opposite.blank = start.blank) (same : given → detour.SameExpr value value')
    (named : given → detour.SameName operator operator')
    (closes : given → left.ahead = .closeParen) :
    TrailsExpr detour detour.Spared given
      (detour.Spared value ∧ (operator.isLedBy detour.fork = true → value.endsInBlock = false))
      (do
        Parse.consume
        return .leftSection value operator (← spanFrom start))
      (do
        Parse.consume
        return .leftSection value' operator' (← spanFrom opposite)) left right := by
  refine .consume_known (fun premise => by rw [closes premise]; rfl) fun mirror => ?_
  refine .finish (fun span spared => ⟨spared.below (by simp), Node.Every.own spared⟩) starts ?_
  intro span other premise alike
  have operators := named premise
  have values := same premise
  simp_all

variable (trailed : inner.Trailed detour)

include trailed

theorem afterFirstOperand_trails {start opposite firstStart firstOpposite : Span}
    {first other : Operand} (starts : given → opposite.blank = start.blank)
    (firstStarts : given → firstOpposite.blank = firstStart.blank)
    (same : given → SameOperand detour first other) (ended : given → OperandEnds first left) :
    TrailsExpr detour detour.Spared given (detour.Spared first.1)
      (afterFirstOperand inner start firstStart first)
      (afterFirstOperand inner opposite firstOpposite other) left right := by
  obtain ⟨first, pending⟩ := first
  obtain ⟨first', pending'⟩ := other
  let closes : Operand → Parser → Prop := fun found after =>
    found.2.isSome = true → after.ahead = .closeParen
  have settles : (chainFrom inner true firstStart first pending left).2.Clean →
      closes (chainFrom inner true firstStart first pending left).1
        (chainFrom inner true firstStart first pending left).2 := by
    intro clean dangling
    rcases chainFrom_settles true firstStart first pending left dangling with
      ⟨mishap, spoiled, same⟩ | stops
    · rw [same] at clean
      exact absurd clean (mishap.spoils spoiled)
    · exact stops
  unfold afterFirstOperand
  refine .needing (.bind_telling closes (chainFrom_trails trailed true firstStarts
    (fun premise => (same premise).value) (fun premise => (same premise).operator) ended)
      (fun _ _ => settles) ?_) fun needed : True ∧ _ => needed.2
  rintro ⟨value, dangling⟩ ⟨value', dangling'⟩ left right
  apply trails_option dangling dangling' fun known => known.1.2.operator
  · rintro rfl
    refine .needing (.bind_both (annotated_trails trailed (fun known => firstStarts known.1.1)
      (fun known => known.1.2.value) left right) fun element element' left right => ?_)
        fun needed : True ∧ _ => ⟨trivial, needed.2, nofun⟩
    exact (enclosed_trails (Node.spares_hereditary _) trailed.expression
      (fun known => starts known.1.1.1) (fun known => known.2) left right).needing
        fun needed => ⟨trivial, needed⟩
  · rintro operator operator' rfl named
    refine (leftSection_trails (fun known => starts known.1.1) (fun known => known.1.2.value) named
      fun known => known.2 rfl).needing fun needed => ⟨trivial, needed.1, fun _ name found => ?_⟩
    cases found
    exact needed.2

theorem parentheses_trails (opened : left.ahead = .openParen) :
    TrailsExpr detour detour.Spared True True (parentheses inner) (parentheses inner) left right := by
  unfold parentheses
  refine .aheadSpan (.take opened rfl fun left' right' => ?_)
  generalize left.aheadSpan = start
  generalize right.aheadSpan = opposite
  refine .accept rfl (fun left right => ?_) fun _ => .isAt (fun _ => ?_) fun _ => ?_
  · exact .finish (fun _ _ => trivial) (fun known => known.2) fun span other _ same => by simp [same]
  · exact (tupleConstructor_trails fun known => known.2).spare
  refine trails_operatorLeads fun leads left right apart => ?_
  cases leads with
  | true =>
    have looked : Shadows detour (True ∧ opposite.blank = start.blank) (SameOption detour) operator?
        operator? left right :=
      operator?_apart.knowing fun _ forked => apart rfl forked.1
    refine .bind_given looked fun found found' left right => ?_
    apply trails_option found found' And.right
    · exact fun _ => .spoil (reject_spoils left) fun _ _ => id
    · intro operator operator' _ named
      exact (afterLeadingOperator_trails trailed (fun known => known.1.2) named left right).needing
        fun _ => by simp
  | false =>
    refine .aheadSpan ?_
    generalize left.aheadSpan = firstStart
    generalize right.aheadSpan = firstOpposite
    refine .isAt (fun _ => ?_) fun _ => ?_
    · refine .bind (qualifiedTerm_trails left right) fun term term' left right => ?_
      have leads : ∀ operator operator', (SameTerm detour term term' →
          detour.SameName operator operator') → TrailsExpr detour detour.Spared
          (((True ∧ opposite.blank = start.blank) ∧ firstOpposite.blank = firstStart.blank) ∧
            SameTerm detour term term') (True ∧ True)
          (afterLeadingOperator inner start operator)
          (afterLeadingOperator inner opposite operator') left right :=
        fun operator operator' named => (afterLeadingOperator_trails trailed
          (fun known => known.1.1.2) (fun known => named known.2) left right).needing
            fun _ => by simp
      have applies : ∀ name other, (SameTerm detour term term' → detour.SameName name other) →
          TrailsExpr detour detour.Spared
          (((True ∧ opposite.blank = start.blank) ∧ firstOpposite.blank = firstStart.blank) ∧
            SameTerm detour term term') (True ∧ True)
          (do
            let first ← arguments inner firstStart (.identifier name)
            afterFirstOperand inner start firstStart first)
          (do
            let first ← arguments inner firstOpposite (.identifier other)
            afterFirstOperand inner opposite firstOpposite first) left right := by
        intro name other named
        refine .needing (.bind_telling OperandEnds (arguments_trails trailed
          (fun known => known.1.2) (fun known => by simpa using named known.2) left right)
            (fun _ _ => arguments_settles) fun first first' left right => ?_) fun needed => needed.1
        exact (afterFirstOperand_trails trailed (fun known => known.1.1.1.1.2)
          (fun known => known.1.1.1.2) (fun known => known.1.2) fun known => known.2).needing
            fun spared => ⟨⟨trivial, trivial⟩, spared⟩
      cases term with
      | operator operator =>
        cases term' with
        | operator operator' => exact leads operator operator' id
        | operand other => exact .unlike (fun known => known.2) (leads operator default nofun)
      | operand name =>
        cases term' with
        | operator operator' => exact .unlike (fun known => known.2) (applies name default nofun)
        | operand other => exact applies name other id
    · refine .needing (.bind_telling OperandEnds (signedOperand_trails trailed left right).presuming
        (fun _ _ => signedOperand_settles trailed.expression_settles)
          fun first other left right => ?_) And.left
      exact (afterFirstOperand_trails trailed (fun known => known.1.1.1.2)
        (fun known => known.1.1.2) (fun known => known.1.2) fun known => known.2).needing
          fun spared => ⟨trivial, spared⟩

end Parentheses

section Brackets

variable (trailed : inner.Trailed detour)

include trailed

theorem lastElement?_trails :
    Tracks detour (fun last _ => ∀ value ∈ last, detour.Spared value) detour.SameExpr?
      (lastElement? inner) := by
  intro left right
  unfold lastElement?
  refine .isAt (fun _ => .pure (fun _ => trivial) fun _ => rfl) fun _ => ?_
  exact (trailed.expression left right).map (fun _ _ spared => spared _ rfl)
    fun _ _ same => congrArg some same

variable {start opposite : Span} {first first' : Expr} (starts : given → opposite.blank = start.blank)
  (same : given → detour.SameExpr first first')

include starts same

theorem sequenceEnd_trails {second second' : Option Expr}
    (sameSecond : given → detour.SameExpr? second second') (left right : Parser) :
    TrailsExpr detour detour.Spared given
      (detour.Spared first ∧ ∀ value ∈ second, detour.Spared value)
      (sequenceEnd inner start first second) (sequenceEnd inner opposite first' second') left
      right := by
  unfold sequenceEnd
  refine .bind (lastElement?_trails trailed left right) fun last last' left right => ?_
  refine .expectOrSkipTo rfl fun _ left right => ?_
  refine .finish (fun span spared => ⟨⟨spared.below (by simp), fun value member =>
    spared.below (by simp [Option.mem_def.1 member])⟩, fun value member =>
      spared.below (by simp [Option.mem_def.1 member])⟩) (fun known => starts known.1) ?_
  rintro span other ⟨premise, last⟩ alike
  have one := same premise
  have two := sameSecond premise
  simp_all

theorem comprehensionEnd_trails (left right : Parser) :
    TrailsExpr detour detour.Spared given (detour.Spared first) (comprehensionEnd inner start first)
      (comprehensionEnd inner opposite first') left right := by
  unfold comprehensionEnd
  refine .bind (separated_trails rfl (statement_trails trailed) left right)
    fun qualifiers qualifiers' left right => ?_
  refine .expectOrSkipTo rfl fun _ left right => ?_
  refine .finish (fun span spared => ⟨spared.below (by simp),
    fun value member => spared.below (by simp [member])⟩) (fun known => starts known.1) ?_
  rintro span other ⟨premise, qualifiers⟩ alike
  have values := same premise
  simp_all

omit starts same

theorem brackets_trails (opened : left.ahead = .openBracket) :
    TrailsExpr detour detour.Spared True True (Grammar.brackets inner) (Grammar.brackets inner) left
      right := by
  have below := Node.spares_hereditary detour.fork
  unfold Grammar.brackets
  refine .aheadSpan (.take opened rfl fun left' right' => ?_)
  refine .accept rfl (fun left right => ?_) fun _ => ?_
  · exact .finish (fun _ _ => trivial) (fun known => known.2) fun span other _ same => by simp [same]
  refine .bind (trailed.expression _ _) fun first first' left right => ?_
  refine .accept rfl (fun left right => ?_) fun _ => .accept rfl (fun left right => ?_) fun _ =>
    .accept rfl (fun left right => ?_) fun _ => ?_
  · exact (sequenceEnd_trails trailed (fun known => known.1.2) (fun known => known.2)
      (fun _ => rfl) left right).needing fun needed => ⟨trivial, needed.1⟩
  · exact (comprehensionEnd_trails trailed (fun known => known.1.2) (fun known => known.2) left
      right).needing fun spared => ⟨trivial, spared⟩
  · refine .bind (trailed.expression left right) fun second second' left right => ?_
    refine .accept rfl (fun left right => ?_) fun _ => ?_
    · exact (sequenceEnd_trails trailed (fun known => known.1.1.2) (fun known => known.1.2)
        (fun known => by simpa using known.2) left right).needing
          fun needed => ⟨⟨trivial, needed.1⟩, needed.2 _ rfl⟩
    · refine .bind (many_accept_trails rfl trailed.expression _ _) fun later later' left right => ?_
      refine (listEnd_trails below (fun known => known.1.1.1.2) (fun known => ?_) left
        right).needing fun needed => ?_
      · obtain ⟨⟨⟨-, first⟩, second⟩, later⟩ := known
        simp_all
      · simp only [List.mem_cons, forall_eq_or_imp] at needed
        exact ⟨⟨⟨trivial, needed.1⟩, needed.2.1⟩, needed.2.2⟩
  · refine (listEnd_trails below (fun known => known.1.2) (fun known => ?_) _ _).needing
      fun needed => ⟨trivial, needed _ (by simp)⟩
    have same := known.2
    simp_all

end Brackets

end Haskell.Grammar

end Offside
