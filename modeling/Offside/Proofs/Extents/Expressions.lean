import Offside.Proofs.Extents.Declarations
import Offside.Proofs.Spans.Expressions

/-!
How expressions lie in a text. An application, an operator chain and a negation start with their first
token, but end where their last operand does. An operator that was read past the end of an operand has
its tokens right behind it until the chain around takes it up.
-/

namespace Offside.Haskell.Grammar

set_option autoImplicit false

open Offside.Parser Offside.Parse

variable {text : Tokens} {parser origin : Parser} {inner : Level} {owed : List Node}

theorem atom_takes (lays : inner.Lays text) (parser : Parser) :
    Takes text (atom inner) (Expr.LaidOut text) parser := by
  unfold atom
  simp only [takes_ahead]
  split
  · exact variableOrAlias_takes lays.expressionAtom parser
  · exact .chain (qualifiedIdentifier_takes parser) fun _ _ =>
      .pure fun _ covers => Expr.laidOut_identifier covers
  · exact wildcard_takes ‹_›
  · exact lazyPattern_takes lays.expressionAtom ‹_›
  · exact literal_takes parser
  · exact literal_takes parser
  · exact literal_takes parser
  · exact literal_takes parser
  · exact lays.parentheses parser ‹_›
  · exact lays.brackets parser ‹_›
  · exact rejected_takes

variable (lays : inner.Lays text)

include lays

theorem argument_takes (parser : Parser) :
    Takes text (argument inner) (Sum.elim (Expr.LaidOut text) Name.Between) parser := by
  unfold argument
  simp only [takes_isAt]
  split
  · refine .chain (qualifiedTerm_takes parser) fun term after => ?_
    cases term with
    | operand name => exact .pure fun _ covers => Expr.laidOut_identifier covers
    | operator name => exact .pure fun _ covers => .plain covers.reaches
  · exact .chain (atom_takes lays parser) fun _ _ => .pure fun _ laid => laid

/-- The tokens of an operand, and those of the operator read past its end behind them. -/
def Operand.Laid (text : Tokens) (operand : Operand) : Tokens → Prop :=
  Tokens.Then (operand.1.Laid text) (maybeBetween operand.2)

omit lays in
theorem Operand.laid_alone {expr : Expr} {tokens : Tokens} (laid : expr.Laid text tokens) :
    Operand.Laid text (expr, none) tokens :=
  ⟨tokens, [], (List.append_nil _).symm, laid, rfl⟩

omit lays in
theorem forall₂_last {α β : Type} {related : α → β → Prop} {front : List α} {last : α}
    {lists : List β} (all : List.Forall₂ related (front ++ [last]) lists) :
    ∃ others final, lists = others ++ [final] ∧ related last final := by
  induction front generalizing lists with
  | nil =>
    cases all with
    | cons own none =>
      cases none
      exact ⟨[], _, rfl, own⟩
  | cons first front induction =>
    cases all with
    | cons _ rest =>
      obtain ⟨others, final, rfl, own⟩ := induction rest
      exact ⟨_ :: others, final, rfl, own⟩

omit lays in
/-- A function and its arguments, up to the end of the last of them. -/
theorem laid_application {function last : Expr} {arguments : List Expr} {head : Tokens}
    {lists : List Tokens} (laid : function.LaidOut text head)
    (all : List.Forall₂ (Expr.LaidOut text) arguments lists)
    (final : arguments.getLast? = some last)
    (start : (head ++ lists.flatten).start? = some origin.aheadSpan.start)
    (among : head ++ lists.flatten <:+: text) :
    Expr.Laid text (.application function arguments (origin.aheadSpan.through last.span))
      (head ++ lists.flatten) := by
  have composed : Expr.Composed
      (.application function arguments (origin.aheadSpan.through last.span))
      (head ++ lists.flatten) :=
    .application laid.atomic (all.imp fun _ _ laid => laid.atomic)
  have held : Held text (arguments.map .expr) :=
    Series.held ⟨lists, [], rfl, all, rfl⟩ fun _ _ laid => laid.held
  refine composed.laid (laid.opens.append _) start ?_ among (laid.held.append held)
  obtain ⟨front, rfl⟩ := List.getLast?_eq_some_iff.1 final
  obtain ⟨others, own, rfl, laidLast⟩ := forall₂_last all
  have ends : Expr.Ends (.application function (front ++ [last]) (origin.aheadSpan.through last.span))
      ((head ++ others.flatten) ++ own) :=
    laidLast.atomic.behind _ (fun name same => by simp [Expr.lastOperand, same]) rfl
  simpa using ends

theorem arguments_takes (function : Expr) (parser : Parser) :
    TakesFrom text origin (function.LaidOut text) (arguments inner origin.aheadSpan function)
      (Operand.Laid text) parser := by
  have rounds : ∀ start, Takes text
      (oneRound (do return startsAtom (← Parse.ahead)) (argument inner))
      (round (Expr.LaidOut text) Name.Between (· = [])) start := by
    intro start
    unfold oneRound
    simp only [takes_bind_assoc, takes_ahead, takes_pure_bind]
    split
    · exact .chain (argument_takes lays start) fun found after => .pure fun tokens held => by
        cases found <;> exact held
    · exact .pure fun _ none => none
  unfold arguments
  refine .bind (repeatUntil_takes rounds parser) ?_
  rintro ⟨arguments, operator⟩ after
  dsimp only
  split
  · rename_i none
    rw [List.getLast?_eq_none_iff] at none
    subst none
    refine .pure ?_
    rintro _ ⟨head, _, rfl, laid, lists, final, rfl, all, between⟩
    cases all
    exact ⟨head, final, by simp, laid.laid, between⟩
  · rename_i last isLast
    refine .join (.pure_seen ?_) fun _ _ => id
    rintro _ ⟨head, _, rfl, laid, lists, final, rfl, all, between⟩ stands run
    rw [← List.append_assoc] at run ⊢
    have among : head ++ lists.flatten <:+: text :=
      (List.prefix_append _ final).isInfix.trans (run.slice stands)
    exact ⟨_, final, rfl, laid_application laid all isLast
      (run.start? (laid.opens.append _)) among, between⟩

theorem application_takes (parser : Parser) :
    Takes text (application inner) (Operand.Laid text) parser := by
  unfold application
  simp only [takes_aheadSpan]
  exact .chain (atom_takes lays parser) fun function after => arguments_takes lays function after

theorem parameters_gathers (parser : Parser) :
    Gathers text (parameters inner) (List.map .expr) parser := by
  unfold parameters
  refine .start (.gather (patternAtoms_gathers lays parser) fun parameters after => ?_)
  split
  · exact .reportUnexpected id
  · exact .give (List.Subset.refl _)

theorem lambda_takes (found : parser.ahead = .backslash) :
    Takes text (lambda inner) (Expr.LaidOut text) parser := by
  unfold lambda
  simp only [takes_aheadSpan]
  refine .begin (by rw [found]; rfl) (.gather (parameters_gathers lays _) fun parameters _ => ?_)
  refine .due (by decide) fun _ afterArrow => .gather (lays.expression afterArrow) fun body _ => ?_
  exact returnExpr_takes (fun _ => rfl) (fun _ => rfl) fun _ held => held

theorem letExpression_takes (found : parser.ahead = .kwLet) :
    Takes text (letExpression inner) (Expr.LaidOut text) parser := by
  unfold letExpression
  simp only [takes_aheadSpan]
  refine .begin (by rw [found]; rfl) (.gather (lays.declBlock _) fun decls _ => ?_)
  refine .due (by decide) fun _ afterIn => .gather (lays.expression afterIn) fun body after => ?_
  exact returnExpr_takes (fun _ => rfl) (fun _ => rfl) fun _ held => held

theorem branch_gathers {keyword : Token} (inside : keyword ≠ .endOfInput) (parser : Parser) :
    Gathers text (branch inner keyword) (fun made => [.expr made]) parser := by
  unfold branch
  exact .start (.takeEither (by decide) fun _ _ => .due inside fun _ _ =>
    .last (lays.expression _))

theorem conditional_takes (found : parser.ahead = .kwIf) :
    Takes text (conditional inner) (Expr.LaidOut text) parser := by
  unfold conditional
  simp only [takes_aheadSpan]
  refine .begin (by rw [found]; rfl) (.gather (lays.expression _) fun condition _ => ?_)
  refine .gather (branch_gathers lays (by decide) _) fun thenBranch _ => ?_
  refine .gather (branch_gathers lays (by decide) _) fun elseBranch _ => ?_
  exact returnExpr_takes (fun _ => rfl) (fun _ => rfl) fun _ held => held

theorem caseExpression_takes (found : parser.ahead = .kwCase) :
    Takes text (caseExpression inner) (Expr.LaidOut text) parser := by
  unfold caseExpression
  simp only [takes_aheadSpan]
  refine .begin (by rw [found]; rfl) (.gather (lays.expression _) fun scrutinee _ => ?_)
  refine .due (by decide) fun _ _ => .gather (lays.alternativeBlock _) fun alternatives _ => ?_
  exact returnExpr_takes (fun _ => rfl) (fun _ => rfl) fun _ held => held

theorem doExpression_takes (found : parser.ahead = .kwDo) :
    Takes text (doExpression inner) (Expr.LaidOut text) parser := by
  unfold doExpression
  simp only [takes_aheadSpan]
  refine .begin (by rw [found]; rfl) (.gather (lays.statementBlock _) fun statements _ => ?_)
  exact returnExpr_takes (fun _ => rfl) (fun _ => rfl) fun _ held => held

omit lays in
theorem alone_takes {production : Parse Expr}
    (takes : Takes text production (Expr.LaidOut text) parser) :
    Takes text (do return (← production, none)) (Operand.Laid text) parser :=
  .chain takes fun _ _ => .pure fun _ laid => Operand.laid_alone laid.laid

theorem operand_takes (parser : Parser) :
    Takes text (operand inner) (Operand.Laid text) parser := by
  unfold operand
  simp only [takes_ahead]
  split
  · exact alone_takes (lambda_takes lays ‹_›)
  · exact alone_takes (letExpression_takes lays ‹_›)
  · exact alone_takes (conditional_takes lays ‹_›)
  · exact alone_takes (caseExpression_takes lays ‹_›)
  · exact alone_takes (doExpression_takes lays ‹_›)
  · exact application_takes lays parser

theorem signedOperand_takes (parser : Parser) :
    Takes text (signedOperand inner) (Operand.Laid text) parser := by
  unfold signedOperand
  simp only [takes_isAt]
  split
  · rename_i found
    have found : parser.ahead = .minus := by simpa using found
    simp only [takes_aheadSpan]
    refine .beginWith (by rw [found]; rfl) (.bind (operand_takes lays _) ?_)
    rintro ⟨value, operator⟩ after
    refine .join (.pure_seen ?_) fun _ _ => id
    rintro _ ⟨_, _, rfl, ⟨known, rfl⟩, own, between, rfl, laid, stands⟩ before run
    rw [← List.append_assoc] at run ⊢
    have opens : Tokens.Opens ([(parser.ahead, parser.aheadSpan)] ++ own) :=
      (known.opens rfl).append own
    have composed : Expr.Composed (.negation value (parser.aheadSpan.through value.span))
        ([(parser.ahead, parser.aheadSpan)] ++ own) := .negation found laid.division
    refine ⟨_, between, rfl, composed.laid opens (run.start? opens) ?_ ?_ laid.held, stands⟩
    · exact laid.ends.behind (by rw [Expr.lastOperand]) rfl
    · exact (List.prefix_append _ between).isInfix.trans (run.slice before)
  · exact operand_takes lays parser

omit lays in
theorem pendingOperator_takes (left : Expr) (pending : Option Name) (parser : Parser) :
    TakesFrom text origin (Operand.Laid text (left, pending)) (pendingOperator pending)
      (fun found => Operand.Laid text (left, found)) parser := by
  cases pending with
  | none =>
    refine .mono (.append (operator?_takes parser)) ?_
    rintro found _ ⟨_, between, rfl, ⟨own, _, rfl, laid, rfl⟩, stands⟩
    exact ⟨own, between, by simp, laid, stands⟩
  | some name => exact .pure fun _ held => held

/-- By induction on the bound: a chain that takes up an operator goes on from where it started to the
end of the next operand. -/
theorem chainBelow_takes {inSection : Bool} (bound : Nat) (left : Expr) (pending : Option Name)
    (parser : Parser) :
    TakesFrom text origin (Operand.Laid text (left, pending))
      (chainBelow inner inSection origin.aheadSpan bound left pending) (Operand.Laid text)
      parser := by
  induction bound using Nat.strong_induction_on generalizing left pending parser with
  | _ bound induction =>
    have goesOn : ∀ (chain : Expr) (next : Option Name) (after : Parser),
        TakesFrom text origin (Operand.Laid text (chain, next))
          (chainOn inner inSection origin.aheadSpan bound chain next) (Operand.Laid text)
          after := by
      intro chain next after
      by_cases progress : chainRemaining next after < bound
      · apply TakesFrom.congr (if_pos progress)
        exact induction _ progress chain next after
      · have stalls : chainOn inner inSection origin.aheadSpan bound chain next after =
            ((chain, next), after.raise .stalled) := if_neg progress
        apply TakesFrom.of_unclean
        rw [stalls]
        exact raise_spoils after _
    apply TakesFrom.congr (chainBelow_eq inSection origin.aheadSpan bound left pending parser)
    refine .chain (pendingOperator_takes left pending parser) fun found going => ?_
    cases found with
    | none => exact .pure fun _ held => held
    | some operator =>
      unfold chainAfter
      simp only [takes_isAt]
      split
      · exact .pure fun _ held => held
      · refine .bind (signedOperand_takes lays going) ?_
        rintro ⟨right, next⟩ after
        refine .join (.see ?_ (goesOn _ next after)) fun span final => (goesOn _ next final).1
        rintro _ ⟨_, _, rfl, ⟨before, middle, rfl, laidLeft, stands⟩, own, between, rfl,
          laidRight, pending⟩ began run
        rw [← List.append_assoc] at run ⊢
        have opens := (laidLeft.opens.append middle).append own
        have composed : Expr.Composed
            (.binary left operator right (origin.aheadSpan.through right.span))
            (before ++ middle ++ own) := .binary laidLeft.division stands laidRight.division
        have held := laidLeft.held.append ((held_name operator).append laidRight.held)
        refine ⟨_, between, rfl, composed.laid opens (run.start? opens) ?_ ?_ held, pending⟩
        · exact laidRight.ends.behind (by rw [Expr.lastOperand]) rfl
        · exact (List.prefix_append _ between).isInfix.trans (run.slice began)

theorem chainFrom_takes {inSection : Bool} (first : Operand) (parser : Parser) :
    TakesFrom text origin (Operand.Laid text first)
      (chainFrom inner inSection origin.aheadSpan first.1 first.2) (Operand.Laid text) parser :=
  chainBelow_takes lays _ first.1 first.2 parser

omit lays in
theorem Operand.Laid.held {operand : Operand} {tokens : Tokens}
    (laid : Operand.Laid text operand tokens) : Held text [.expr operand.1] := by
  obtain ⟨_, _, rfl, own, -⟩ := laid
  exact own.held

theorem chain_gathers (parser : Parser) :
    Gathers text (chain inner) (fun made => [.expr made]) parser := by
  unfold chain
  simp only [takes_aheadSpan]
  refine .chain (signedOperand_takes lays parser) fun first middle => ?_
  refine .chain (chainFrom_takes lays first middle) fun found after => ?_
  exact .pure fun _ laid => Operand.Laid.held laid

theorem annotated_gathers {start : Span} (expr : Expr) (parser : Parser) :
    TakesFrom text origin (Gathered text false [.expr expr]) (annotated inner start expr)
      (fun made _ => Held text [.expr made]) parser := by
  unfold annotated
  refine .takeIf (by decide) (fun _ => ?_) fun _ => .give (List.Subset.refl _)
  refine .gather ((lays.type _).mono fun _ _ laid => laid.held) fun type after => ?_
  exact takes_spanFrom.2 (.node nofun (List.Subset.refl _))

theorem expressionProduction_gathers (parser : Parser) :
    Gathers text (expressionProduction inner) (fun made => [.expr made]) parser := by
  unfold expressionProduction
  simp only [takes_aheadSpan]
  exact .start (.gather (chain_gathers lays parser) fun expr after =>
    annotated_gathers lays expr after)

theorem alternative_gathers (parser : Parser) :
    Gathers text (alternative inner) (fun made => [.alternative made]) parser := by
  unfold alternative
  simp only [takes_aheadSpan]
  refine .start (.gather (pattern_gathers lays parser) fun pattern after => ?_)
  refine .gather (rightSide_gathers lays (by decide) after) fun body _ => ?_
  exact returnNode (fun _ => trivial) fun _ => List.Subset.refl _

omit lays in
/-- A statement that is only an expression has the nodes of the expression. -/
theorem held_expression {expr : Expr} (held : Held text [.expr expr]) :
    Held text [.statement (.expression expr)] :=
  ⟨List.forall_mem_singleton.2 (.intro trivial held.nodes)⟩

theorem statement_gathers (parser : Parser) :
    Gathers text (statement inner) (fun made => [.statement made]) parser := by
  unfold statement
  simp only [takes_aheadSpan]
  refine .start (.takeIf (by decide) (fun _ => ?_) fun _ => ?_)
  · refine .gather (lays.declBlock _) fun decls afterDecls => ?_
    refine .takeIf (by decide) (fun _ => ?_) fun _ => ?_
    · refine .gather (lays.expression _) fun body after => takes_spanFrom.2 ?_
      refine .pure fun _ known => held_expression ⟨List.forall_mem_singleton.2 ?_⟩
      exact .intro (by rintro ⟨⟩) known.held.nodes
    · exact returnNode (fun _ => trivial) fun _ => List.Subset.refl _
  · refine .gather (lays.expression parser) fun expr afterExpr => ?_
    refine .takeIf (by decide) (fun _ => ?_) fun _ => ?_
    · refine .gather (lays.expression _) fun source after => ?_
      exact returnNode (fun _ => trivial) fun _ => List.Subset.refl _
    · exact .pure fun _ known => held_expression known.held

section Parentheses

theorem afterLeadingOperator_takes (found : origin.ahead = .openParen) (operator : Name)
    (parser : Parser) :
    TakesFrom text origin
      (Tokens.Then (fun tokens => Gathered text true [] tokens ∧
        tokens = [(origin.ahead, origin.aheadSpan)]) operator.Between)
      (afterLeadingOperator inner origin.aheadSpan operator) (Expr.LaidOut text) parser := by
  unfold afterLeadingOperator
  refine .accept (by decide) (fun _ => .pure ?_) fun _ => ?_
  · rintro _ ⟨_, _, rfl, ⟨_, between, rfl, ⟨known, rfl⟩, stands⟩, rfl⟩
    have opens := ((known.opens rfl).append between).append [(.closeParen, parser.aheadSpan)]
    rw [List.append_assoc] at opens ⊢
    exact ⟨opens, .enclosed found rfl stands, .intro nofun (held_name operator).nodes⟩
  · have known : ∀ tokens, Tokens.Then (fun tokens => Gathered text true [] tokens ∧
        tokens = [(origin.ahead, origin.aheadSpan)]) operator.Between tokens →
          Gathered text true [.name operator] tokens := by
      rintro _ ⟨_, between, rfl, ⟨known, -⟩, -⟩
      exact ⟨fun _ => (known.opens rfl).append between, held_name operator⟩
    refine .weaken known (.gather (chain_gathers lays parser) fun operand _ => ?_)
    refine .closing (by decide) fun _ _ => ?_
    exact returnExpr_takes (fun _ => rfl) (fun _ => rfl) fun _ held => held

omit lays in
theorem Operand.Laid.nodes {operand : Operand} {tokens : Tokens}
    (laid : Operand.Laid text operand tokens) : Held text operand.nodes := by
  refine laid.held.append ⟨fun node member => ?_⟩
  obtain ⟨name, -, rfl⟩ := List.mem_map.1 member
  exact name.every_exact

theorem chainInside_takes (first : Operand) (parser : Parser) :
    TakesFrom text origin (Operand.Laid text first) (chainInside inner origin.aheadSpan first)
      (fun element _ => Held text element.nodes) parser := by
  unfold chainInside
  refine .chain (chainFrom_takes lays first parser) ?_
  rintro ⟨value, dangling⟩ after
  cases dangling with
  | some operator => exact .pure fun _ laid => laid.nodes
  | none =>
    have annotates : TakesFrom text origin (Operand.Laid text (value, none))
        (annotated inner origin.aheadSpan value) (fun made _ => Held text [.expr made]) after :=
      .weaken (fun _ laid => ⟨nofun, laid.held⟩) (annotated_gathers lays value after)
    exact .chain annotates fun _ _ => .pure fun _ held => held

omit lays in
/-- The operator that a chain in parentheses hands back stands in front of the closing parenthesis. -/
theorem chainInside_hands {start : Span} (first : Operand) (parser : Parser) :
    Hands true (chainInside inner start first parser) := by
  have hands : Hands true (chainFrom inner true start first.1 first.2 parser) :=
    chainBelow_hands _ first.1 first.2 parser
  unfold chainInside
  rw [bind_apply]
  revert hands
  rcases chainFrom inner true start first.1 first.2 parser with ⟨⟨value, dangling⟩, after⟩
  cases dangling with
  | some operator => exact id
  | none => exact fun _ _ dangling => by cases dangling

/-- What follows a chain in parentheses, of which an operator is left in front of the closing one or
none. -/
theorem afterInside_takes (element : Operand) (parser : Parser)
    (hands : Hands true (element, parser)) :
    TakesFrom text origin (Gathered text true element.nodes)
      (afterInside inner origin.aheadSpan element) (Expr.LaidOut text) parser := by
  obtain ⟨value, dangling⟩ := element
  cases dangling with
  | some operator =>
    have consumes : (afterInside inner origin.aheadSpan (value, some operator) parser).2.Clean →
        parser.Clean := clean_of_consume
    refine .of_clean consumes fun clean => ?_
    refine .drop (isAtEnd_of_ahead (by decide) (hands clean rfl).2) ?_
    exact returnExpr_takes (fun _ => rfl) (fun _ => rfl) fun _ held => held
  | none =>
    exact enclosed_takes lays.expression value parser

theorem properInside_takes (parser : Parser) :
    Takes text (properInside inner parser.aheadSpan)
      (Sum.elim Name.Between fun element _ => Held text element.nodes) parser := by
  unfold properInside
  refine .chain (qualifiedTerm_takes parser) fun term after => ?_
  cases term with
  | operator operator => exact .pure fun _ covers => .plain covers.reaches
  | operand name =>
    have laid : ∀ tokens, name.Covers tokens → Expr.LaidOut text (.identifier name) tokens :=
      fun _ covers => Expr.laidOut_identifier covers
    refine .weaken laid ?_
    refine .chain (arguments_takes lays (.identifier name) after) fun first middle => ?_
    exact .chain (chainInside_takes lays first middle) fun _ _ => .pure fun _ held => held

omit lays in
theorem properInside_hands {start : Span} (parser : Parser) (element : Operand)
    (made : (properInside inner start parser).1 = .inr element) :
    Hands true (element, (properInside inner start parser).2) := by
  revert made
  unfold properInside
  rw [bind_apply]
  rcases qualifiedTerm parser with ⟨term, after⟩
  cases term with
  | operator operator => exact nofun
  | operand name =>
    rintro ⟨⟩
    exact chainInside_hands _ _

omit lays in
theorem takes_operatorLeads {taken : Tokens → Prop} {made : Expr → Tokens → Prop}
    {next : Bool → Parse Expr}
    (later : ∀ leads after, Alike parser after →
      TakesFrom text origin taken (next leads) made after) :
    TakesFrom text origin taken (operatorLeads >>= next) made parser := by
  unfold operatorLeads
  simp only [takes_bind_assoc, takes_ahead]
  split
  · exact later true parser ⟨rfl, rfl, rfl⟩
  · split
    · simp only [takes_bind_assoc]
      exact .peek (Nat.le_refl 1) (by decide) fun _ after alike _ => later _ after alike
    · exact later _ parser ⟨rfl, rfl, rfl⟩

theorem parentheses_takes (found : parser.ahead = .openParen) :
    Takes text (parentheses inner) (Expr.LaidOut text) parser := by
  have inside : ∀ element tokens, Tokens.Then (fun tokens => Gathered text true [] tokens ∧
      tokens = [(parser.ahead, parser.aheadSpan)]) (fun _ => Held text (Operand.nodes element))
        tokens → Gathered text true element.nodes tokens := by
    rintro element _ ⟨_, later, rfl, ⟨known, -⟩, held⟩
    exact ⟨fun _ => (known.opens rfl).append later, held⟩
  unfold parentheses
  simp only [takes_aheadSpan]
  refine .beginWith (by rw [found]; rfl) (.accept (by decide) (fun _ => ?_) fun _ => ?_)
  · exact .forgetWith (fun _ known => known.1)
      (returnExpr_takes (fun _ => rfl) (fun _ => rfl) fun _ _ => .nil)
  simp only [Bool.false_eq_true, if_false, takes_isAt]
  split
  · exact .weaken (fun _ known => known.1) tupleConstructor_takes
  refine takes_operatorLeads fun leads after _ => ?_
  split
  · refine .bind (operator?_takes after) fun operator afterOperator => ?_
    cases operator with
    | some operator => exact afterLeadingOperator_takes lays found operator afterOperator
    | none => exact rejected_takes
  simp only [takes_aheadSpan, takes_isAt]
  split
  · apply TakesFrom.congr (congrFun (afterProper_eq parser.aheadSpan after.aheadSpan) after)
    refine .bind_known (properInside_takes lays after)
      (fun made final => ∀ element, made = .inr element → Hands true (element, final))
      (properInside_hands after) fun made final hands => ?_
    cases made with
    | inl operator => exact afterLeadingOperator_takes lays found operator final
    | inr element =>
      exact .weaken (inside element) (afterInside_takes lays element final (hands element rfl))
  · simp only [afterFirstOperand_eq]
    have chains : Takes text (signedOperand inner >>= chainInside inner after.aheadSpan)
        (fun element _ => Held text element.nodes) after :=
      .chain (signedOperand_takes lays after) fun first middle => chainInside_takes lays first middle
    have hands : Hands true ((signedOperand inner >>= chainInside inner after.aheadSpan) after) :=
      chainInside_hands _ _
    exact takes_bind_assoc.1 (.bind_known chains (fun element final => Hands true (element, final))
      hands fun element final hands =>
        .weaken (inside element) (afterInside_takes lays element final hands))

end Parentheses

section Brackets

theorem lastElement?_gathers (parser : Parser) :
    Gathers text (lastElement? inner) (fun last => last.toList.map .expr) parser := by
  unfold lastElement?
  simp only [takes_isAt]
  split
  · exact .pure fun _ _ => .nil
  · exact takes_map.2 (lays.expression parser)

theorem sequenceEnd_takes (first : Expr) (second : Option Expr)
    (among : (first :: second.toList).map .expr ⊆ owed) (parser : Parser) :
    TakesFrom text origin (Gathered text true owed)
      (sequenceEnd inner origin.aheadSpan first second) (Expr.LaidOut text) parser := by
  unfold sequenceEnd
  refine .gather (lastElement?_gathers lays parser) fun last _ => .closing (by decide) fun _ _ => ?_
  refine returnExpr_takes (fun _ => rfl) (fun _ => rfl) fun _ held => held.subset ?_
  rw [Node.children, List.map_append, ← List.cons_append]
  exact List.append_subset.2
    ⟨List.subset_append_of_subset_left _ among, List.subset_append_right _ _⟩

theorem comprehensionEnd_takes (element : Expr) (parser : Parser) :
    TakesFrom text origin (Gathered text true [.expr element])
      (comprehensionEnd inner origin.aheadSpan element) (Expr.LaidOut text) parser := by
  unfold comprehensionEnd
  refine .gather (separated_gathers (by decide) (statement_gathers lays) parser)
    fun qualifiers _ => .closing (by decide) fun _ _ => ?_
  exact returnExpr_takes (fun _ => rfl) (fun _ => rfl) fun _ held => held

theorem brackets_takes (found : parser.ahead = .openBracket) :
    Takes text (brackets inner) (Expr.LaidOut text) parser := by
  unfold brackets
  simp only [takes_aheadSpan]
  refine .begin (by rw [found]; rfl) (.takeIf (by decide) (fun _ => ?_) fun _ => ?_)
  · exact returnExpr_takes (fun _ => rfl) (fun _ => rfl) fun _ _ => .nil
  refine .gather (lays.expression _) fun first afterFirst => ?_
  refine .takeIf (by decide) (fun _ => sequenceEnd_takes lays first none (by simp) _) fun _ => ?_
  refine .takeIf (by decide) (fun _ => comprehensionEnd_takes lays first _) fun _ => ?_
  refine .takeIf (by decide) (fun _ => ?_) fun _ => listEnd_takes (by simp) afterFirst
  refine .gather (lays.expression _) fun second afterSecond => ?_
  refine .takeIf (by decide) (fun _ => sequenceEnd_takes lays first (some second) (by simp) _)
    fun _ => ?_
  refine .gather (many_gathers (accept_quiet (by decide)) lays.expression afterSecond)
    fun later after => ?_
  exact listEnd_takes (by simp) after

end Brackets

end Offside.Haskell.Grammar
