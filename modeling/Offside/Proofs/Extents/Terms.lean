import Offside.Haskell.Grammar.Types
import Offside.Proofs.Extents.Operands

/-!
How types lie in a text. A type in parentheses is the type inside them, so an operand of an arrow may
start or end before its tokens do; everything else reaches over what was taken for it.
-/

namespace Offside.Haskell.Grammar

set_option autoImplicit false

open Offside.Parser Offside.Parse

variable {text : Tokens} {parser origin : Parser} {inner : Level} {owed : List Node}

theorem returnType_takes {make : Span → TypeTerm} (spans : ∀ span, (make span).span = span)
    (other : ∀ span, (make span).isFunction = false)
    (inside : ∀ span, Held text owed → Held text (Node.type (make span)).children) :
    TakesFrom text origin (Gathered text true owed) (do return make (← spanFrom origin.aheadSpan))
      (TypeTerm.LaidOut text) parser := by
  refine .reach fun span => .pure ?_
  rintro tokens ⟨known, reaches⟩
  refine TypeTerm.laidOut_whole (known.opens rfl) (by rwa [spans])
    (.intro ?_ (inside span known.held).nodes)
  rw [Node.Exact, other]
  exact nofun

theorem held_constructor (name : Name) : Held text (Node.type (.constructor name)).children :=
  ⟨by simpa using name.every_exact⟩

theorem parenthesizedType_takes (lays : inner.Lays text) (found : parser.ahead = .openParen) :
    Takes text (parenthesizedType inner) (TypeTerm.LaidOut text) parser := by
  have firm : isFirm parser.ahead = true := by rw [found]; rfl
  unfold parenthesizedType
  simp only [takes_aheadSpan]
  refine .beginWith firm (.accept (by decide) (fun _ => ?_) fun _ => ?_)
  · exact .forgetWith (fun _ known => known.1)
      (returnType_takes (fun _ => rfl) (fun _ => rfl) fun _ _ => .nil)
  simp only [Bool.false_eq_true, if_false, takes_isAt]
  split
  · refine .weaken (fun _ known => known.1) (.skipAll (.forget (.takeEither (by decide) ?_)))
    intro _ _
    refine .closing (by decide) fun _ _ => ?_
    exact returnType_takes (fun _ => rfl) (fun _ => rfl) fun _ _ => held_constructor _
  apply TakesFrom.bind (lays.type parser.consume)
  intro first afterFirst
  simp only [takes_isAt]
  split
  · have known : ∀ tokens, Tokens.Then
        (fun tokens => Gathered text true [] tokens ∧ tokens = [(parser.ahead, parser.aheadSpan)])
        (first.Laid text) tokens → Gathered text true [.type first] tokens := by
      rintro _ ⟨_, later, rfl, ⟨opened, rfl⟩, laid⟩
      exact ⟨fun begins => (opened.opens begins).append later, laid.held⟩
    refine .weaken known (.gather
      (many_gathers (accept_quiet (by decide)) (fun start => (lays.type start).mono
        fun _ _ laid => laid.held) afterFirst) fun later _ => .closing (by decide) fun _ _ => ?_)
    refine returnType_takes (fun _ => rfl) (fun _ => rfl) fun _ held => held.subset ?_
    simp
  · refine .expectOrSkipTo (by decide) fun _ _ => .pure ?_
    rintro _ ⟨_, _, rfl, ⟨_, tokens, rfl, ⟨opened, rfl⟩, laid⟩, rfl⟩
    obtain ⟨_, _, split, isWide⟩ := opened.opens rfl
    cases split
    exact laid.enclosed found isWide rfl

theorem listType_takes (lays : inner.Lays text) (found : parser.ahead = .openBracket) :
    Takes text (listType inner) (TypeTerm.LaidOut text) parser := by
  unfold listType
  simp only [takes_aheadSpan]
  refine .begin (by rw [found]; rfl) (.takeIf (by decide) (fun _ => ?_) fun _ => ?_)
  · exact returnType_takes (fun _ => rfl) (fun _ => rfl) fun _ _ => held_constructor _
  · refine .gather ((lays.type _).mono fun _ _ laid => laid.held) fun element _ => ?_
    refine .closing (by decide) fun _ _ => ?_
    exact returnType_takes (fun _ => rfl) (fun _ => rfl) fun _ held => held

theorem nameType_takes {production : Parse Name} {make : Name → TypeTerm}
    (takes : Takes text production Name.Covers parser)
    (spans : ∀ name, (make name).span = name.span)
    (children : ∀ name, (Node.type (make name)).children = [.name name])
    (other : ∀ name, (make name).isFunction = false) :
    Takes text (do return make (← production)) (TypeTerm.LaidOut text) parser := by
  refine .chain takes fun name _ => .pure fun tokens covers => ?_
  refine TypeTerm.laidOut_whole covers.opens (by rw [spans]; exact covers.reaches) (.intro ?_ ?_)
  · rw [Node.Exact, other]
    exact nofun
  · rw [children]
    exact List.forall_mem_singleton.2 name.every_exact

theorem typeAtom_takes (lays : inner.Lays text) (parser : Parser) :
    Takes text (typeAtom inner) (TypeTerm.LaidOut text) parser := by
  unfold typeAtom
  simp only [takes_ahead]
  split
  · exact nameType_takes (qualifiedIdentifier_takes parser) (fun _ => rfl) (fun _ => rfl)
      fun _ => rfl
  · exact nameType_takes (variableIdentifier_takes parser) (fun _ => rfl) (fun _ => rfl)
      fun _ => rfl
  · exact parenthesizedType_takes lays ‹_›
  · exact listType_takes lays ‹_›
  · exact rejected_takes

def AfterArrow (text : Tokens) (type : TypeTerm) (tokens : Tokens) : Prop :=
  ∃ arrow later, tokens = arrow :: later ∧ arrow.1 = .arrow ∧ type.LaidOut text later

theorem typeApplication_takes (lays : inner.Lays text) (parser : Parser) :
    Takes text (typeApplication inner) (TypeTerm.LaidOut text) parser := by
  unfold typeApplication
  simp only [takes_aheadSpan]
  apply TakesFrom.chain (typeAtom_takes lays parser)
  intro head afterHead
  apply TakesFrom.bind (many_while_takes (typeAtom_takes lays) afterHead)
  intro arguments after
  split
  · rename_i none
    rw [List.isEmpty_iff] at none
    subst none
    refine .pure ?_
    rintro _ ⟨_, _, rfl, laid, series⟩
    obtain ⟨_, rfl, all⟩ := series.flatten
    cases all
    simpa using laid
  · have known : ∀ tokens, Tokens.Then (head.LaidOut text)
        (Series (TypeTerm.LaidOut text) (· = []) arguments) tokens →
        Gathered text true (.type head :: arguments.map .type) tokens := by
      rintro _ ⟨_, later, rfl, laid, series⟩
      exact ⟨fun _ => laid.opens.append later,
        laid.held.append (series.held fun _ _ laid => laid.held)⟩
    exact .weaken known (returnType_takes (fun _ => rfl) (fun _ => rfl) fun _ held => held)

/-- By induction on the parameters: the type of the later ones is made before the first is joined to
it, whatever was taken in front. -/
theorem arrows_takes (front : Tokens → Prop) (first : TypeTerm) (later : List TypeTerm)
    (parser : Parser) :
    TakesFrom text origin
      (Tokens.Then front (Tokens.Then (first.LaidOut text) (Series (AfterArrow text) (· = []) later)))
      (arrows first later) (fun made => Tokens.Then front (made.Laid text)) parser := by
  induction later generalizing front first with
  | nil =>
    refine .pure ?_
    rintro _ ⟨before, _, rfl, held, _, _, rfl, laid, series⟩
    obtain ⟨_, rfl, all⟩ := series.flatten
    cases all
    exact ⟨before, _, by simp, held, laid.laid⟩
  | cons next later induction =>
    have turn : ∀ tokens, Tokens.Then front (Tokens.Then (first.LaidOut text)
        (Series (AfterArrow text) (· = []) (next :: later))) tokens →
        Tokens.Then (Tokens.Then front (Tokens.Then (first.LaidOut text) fun between =>
          ∃ arrow, between = [arrow] ∧ arrow.1 = .arrow))
          (Tokens.Then (next.LaidOut text) (Series (AfterArrow text) (· = []) later)) tokens := by
      rintro _ ⟨before, _, rfl, held, head, _, rfl, laid, lists, _, rfl, all, rfl⟩
      cases all with
      | cons item others =>
        obtain ⟨arrow, own, rfl, isArrow, laidNext⟩ := item
        exact ⟨before ++ (head ++ [arrow]), own ++ _, by simp,
          ⟨before, _, rfl, held, head, _, rfl, laid, arrow, rfl, isArrow⟩,
          own, _, rfl, laidNext, _, [], rfl, others, rfl⟩
    refine .weaken turn (.chain (induction _ next) fun result after => .join ?_ fun _ _ => id)
    refine .pure_seen ?_
    rintro _ ⟨_, own, rfl, ⟨before, _, rfl, held, head, _, rfl, laid, arrow, rfl, isArrow⟩, last⟩
      stands run
    have among := run.slice stands
    refine ⟨before, head ++ arrow :: own, by simp, held, laid.function isArrow last ?_⟩
    exact List.IsInfix.trans ⟨before, [], by simp⟩ among

theorem functionType_takes (lays : inner.Lays text) (parser : Parser) :
    Takes text (functionType inner) (TypeTerm.Laid text) parser := by
  unfold functionType
  apply TakesFrom.chain (typeApplication_takes lays parser)
  intro first afterFirst
  apply TakesFrom.bind (many_accept_takes (by decide) (typeApplication_takes lays) afterFirst)
  intro later after
  refine (arrows_takes (· = []) first later after).mono ?_ |>.weaken ?_
  · rintro _ _ ⟨_, _, rfl, rfl, laid⟩
    exact laid
  · exact fun tokens known => ⟨[], tokens, rfl, rfl, known⟩

theorem typeProduction_takes (lays : inner.Lays text) (parser : Parser) :
    Takes text (typeProduction inner) (TypeTerm.Laid text) parser := by
  unfold typeProduction
  simp only [takes_aheadSpan]
  apply TakesFrom.chain (functionType_takes lays parser)
  intro type afterType
  refine .accept (by decide) (fun _ => ?_) fun _ => .pure fun _ laid => laid
  have known : ∀ tokens, type.Laid text tokens → Gathered text true [.type type] tokens :=
    fun _ laid => ⟨fun _ => laid.opens, laid.held⟩
  refine .forgetWith known (.gather ((functionType_takes lays _).mono
    fun _ _ laid => laid.held) fun body after => ?_)
  refine TakesFrom.mono ?_ fun _ _ laid => TypeTerm.LaidOut.laid laid
  exact returnType_takes (fun _ => rfl) (fun _ => rfl) fun _ held => held

/-!
How patterns lie in a text. The span of a pattern goes from its first token to what was consumed last,
so only a constructor operator in parentheses is narrower than its tokens.
-/

theorem returnExpr_takes {make : Span → Expr} (spans : ∀ span, (make span).span = span)
    (other : ∀ span, (make span).isComposed = false)
    (inside : ∀ span, Held text owed → Held text (Node.expr (make span)).children) :
    TakesFrom text origin (Gathered text true owed) (do return make (← spanFrom origin.aheadSpan))
      (Expr.LaidOut text) parser := by
  refine .reach fun span => .pure ?_
  rintro tokens ⟨known, reaches⟩
  refine ⟨known.opens rfl, .whole (by rwa [spans]), .intro ?_ (inside span known.held).nodes⟩
  rw [Node.Exact, other]
  exact nofun

theorem laidOut_token {expr : Expr} {tokens : Tokens}
    (taken : Gathered text true [] tokens ∧ tokens = [(parser.ahead, parser.aheadSpan)])
    (span : expr.span = parser.aheadSpan) (other : expr.isComposed = false)
    (children : (Node.expr expr).children = []) : expr.LaidOut text tokens := by
  obtain ⟨known, rfl⟩ := taken
  obtain ⟨found, later, split, isWide⟩ := known.opens rfl
  cases split
  have covers := @Name.covers_singleton (.simple parser.aheadSpan) _ rfl isWide
  refine ⟨covers.opens, .whole (by rw [span]; exact covers.reaches), .intro ?_ ?_⟩
  · rw [Node.Exact, other]
    exact nofun
  · rw [children]
    exact nofun

theorem literal_takes (parser : Parser) : Takes text literal (Expr.LaidOut text) parser := by
  unfold literal
  simp only [takes_ahead]
  split
  · rename_i kind found
    simp only [takes_aheadSpan]
    have firm : isFirm parser.ahead = true := by
      revert found
      cases parser.ahead <;> rintro ⟨⟩ <;> rfl
    exact .beginWith firm (.pure fun _ taken => laidOut_token taken rfl rfl rfl)
  · exact rejected_takes

theorem wildcard_takes (found : parser.ahead = .underscore) :
    Takes text wildcard (Expr.LaidOut text) parser := by
  unfold wildcard
  simp only [takes_aheadSpan]
  exact .beginWith (by rw [found]; rfl) (.pure fun _ taken => laidOut_token taken rfl rfl rfl)

theorem tupleConstructor_takes :
    TakesFrom text origin (Gathered text true []) (tupleConstructor origin.aheadSpan)
      (Expr.LaidOut text) parser := by
  unfold tupleConstructor
  refine .skipAll (.forget (.closing (by decide) fun _ _ => ?_))
  exact returnExpr_takes (fun _ => rfl) (fun _ => rfl)
    fun span _ => ⟨List.forall_mem_singleton.2 (Name.every_exact (.special span))⟩

theorem held_name (name : Name) : Held text [.name name] :=
  ⟨List.forall_mem_singleton.2 name.every_exact⟩

theorem aliasAfter_takes {atom : Parse Expr}
    (takes : ∀ start, Gathers text atom (fun made => [.expr made]) start) (name : Name)
    (parser : Parser) :
    TakesFrom text origin (Expr.LaidOut text (.identifier name))
      (aliasAfter atom origin.aheadSpan name) (Expr.LaidOut text) parser := by
  have known : ∀ tokens, Expr.LaidOut text (.identifier name) tokens →
      Gathered text true [.name name] tokens :=
    fun _ laid => ⟨fun _ => laid.opens, held_name name⟩
  unfold aliasAfter
  refine .accept (by decide) (fun _ => ?_) fun _ => .pure fun _ laid => laid
  refine .forgetWith known (.gather (takes _) fun pattern after => ?_)
  exact returnExpr_takes (fun _ => rfl) (fun _ => rfl) fun _ held => held

theorem variableOrAlias_takes {atom : Parse Expr}
    (takes : ∀ start, Gathers text atom (fun made => [.expr made]) start) (parser : Parser) :
    Takes text (variableOrAlias atom) (Expr.LaidOut text) parser := by
  unfold variableOrAlias
  simp only [takes_aheadSpan]
  refine .chain (variableIdentifier_takes parser) fun name after => ?_
  exact .weaken (fun _ covers => Expr.laidOut_identifier covers) (aliasAfter_takes takes name after)

theorem lazyPattern_takes {atom : Parse Expr}
    (takes : ∀ start, Gathers text atom (fun made => [.expr made]) start)
    (found : parser.ahead = .tilde) :
    Takes text (lazyPattern atom) (Expr.LaidOut text) parser := by
  unfold lazyPattern
  simp only [takes_aheadSpan]
  refine .begin (by rw [found]; rfl) (.gather (takes _) fun pattern after => ?_)
  exact returnExpr_takes (fun _ => rfl) (fun _ => rfl) fun _ held => held

theorem takes_constructorThenParen {β : Type} {taken : Tokens → Prop} {made : β → Tokens → Prop}
    {next : Bool → Parse β}
    (later : ∀ follows after, Alike parser after →
      (follows = true → parser.ahead.isConstructorOperator = true ∧
        parser.consume.ahead = .closeParen) →
      TakesFrom text origin taken (next follows) made after) :
    TakesFrom text origin taken (constructorThenParen >>= next) made parser := by
  unfold constructorThenParen
  simp only [takes_bind_assoc, takes_ahead]
  split
  · rename_i isOperator
    simp only [takes_bind_assoc]
    apply TakesFrom.peek (Nat.le_refl 1) (by decide)
    intro found after alike same
    refine later _ after alike fun follows => ⟨isOperator, ?_⟩
    rw [← same rfl]
    exact of_decide_eq_true follows
  · exact later false parser ⟨rfl, rfl, rfl⟩ (by simp)

theorem enclosed_takes {term : Parse Expr}
    (takes : ∀ start, Gathers text term (fun made => [.expr made]) start) (first : Expr)
    (parser : Parser) :
    TakesFrom text origin (Gathered text true [.expr first]) (enclosed term origin.aheadSpan first)
      (Expr.LaidOut text) parser := by
  unfold enclosed
  simp only [takes_isAt]
  split
  · refine .gather (many_gathers (accept_quiet (by decide)) takes parser) fun later _ =>
      .closing (by decide) fun _ _ => ?_
    exact returnExpr_takes (fun _ => rfl) (fun _ => rfl) fun _ held => held
  · refine .closing (by decide) fun _ _ => ?_
    exact returnExpr_takes (fun _ => rfl) (fun _ => rfl) fun _ held => held

theorem listEnd_takes {elements : List Expr} (among : elements.map .expr ⊆ owed)
    (parser : Parser) :
    TakesFrom text origin (Gathered text true owed) (listEnd origin.aheadSpan elements)
      (Expr.LaidOut text) parser := by
  unfold listEnd
  refine .closing (by decide) fun _ _ => ?_
  exact returnExpr_takes (fun _ => rfl) (fun _ => rfl) fun _ held => held.subset (by simpa using among)

theorem pattern_gathers (lays : inner.Lays text) (parser : Parser) :
    Gathers text inner.pattern (fun made => [.expr made]) parser :=
  (lays.pattern parser).mono fun _ _ laid => laid.held

theorem parenthesizedPattern_takes (lays : inner.Lays text) (found : parser.ahead = .openParen) :
    Takes text (parenthesizedPattern inner) (Expr.LaidOut text) parser := by
  have firm : isFirm parser.ahead = true := by rw [found]; rfl
  unfold parenthesizedPattern
  simp only [takes_aheadSpan]
  refine .beginWith firm (.accept (by decide) (fun _ => ?_) fun _ => ?_)
  · exact .forgetWith (fun _ known => known.1)
      (returnExpr_takes (fun _ => rfl) (fun _ => rfl) fun _ _ => .nil)
  simp only [Bool.false_eq_true, if_false, takes_isAt]
  split
  · exact .weaken (fun _ known => known.1) tupleConstructor_takes
  refine takes_constructorThenParen fun follows after alike closes => ?_
  split
  · rename_i isTrue
    obtain ⟨isOperator, closing⟩ := closes isTrue
    have isOperator : after.ahead.isConstructorOperator = true := by rwa [alike.ahead]
    have closing : after.consume.ahead = .closeParen := by rwa [alike.next]
    unfold constructorSymbol
    simp only [takes_bind_assoc, takes_aheadSpan, takes_ahead]
    rw [if_pos isOperator]
    refine takes_bind_assoc.2 (.take (isFirm_of_constructorOperator isOperator) ?_)
    refine takes_pure_bind.2 (.consume (isAtEnd_of_ahead (by decide) closing) (.pure ?_))
    rintro _ ⟨_, _, rfl, ⟨_, _, rfl, ⟨opened, rfl⟩, rfl, isWide⟩, rfl⟩
    have covers : Name.Covers (.special after.aheadSpan) [(after.ahead, after.aheadSpan)] :=
      Name.covers_singleton rfl isWide
    exact ⟨((opened.opens rfl).append _).append _, .enclosed found closing (.plain covers.reaches),
      .intro (by rintro ⟨⟩) (held_name _).nodes⟩
  exact .weaken (fun _ known => known.1) (.gather (pattern_gathers lays after)
    fun first afterFirst => enclosed_takes (pattern_gathers lays) first afterFirst)

theorem listPattern_takes (lays : inner.Lays text) (found : parser.ahead = .openBracket) :
    Takes text (listPattern inner) (Expr.LaidOut text) parser := by
  unfold listPattern
  simp only [takes_aheadSpan]
  refine .begin (by rw [found]; rfl) ?_
  simp only [takes_isAt]
  split
  · exact listEnd_takes (List.Subset.refl _) _
  · exact .gather (separated_gathers (by decide) (pattern_gathers lays) _) fun _ after =>
      listEnd_takes (List.Subset.refl _) after

theorem patternAtom_takes (lays : inner.Lays text) (parser : Parser) :
    Takes text (patternAtom inner) (Expr.LaidOut text) parser := by
  unfold patternAtom
  simp only [takes_ahead]
  split
  · exact variableOrAlias_takes lays.patternAtom parser
  · exact .chain (qualifiedIdentifier_takes parser) fun _ _ =>
      .pure fun _ covers => Expr.laidOut_identifier covers
  · exact wildcard_takes ‹_›
  · exact lazyPattern_takes lays.patternAtom ‹_›
  · exact literal_takes parser
  · exact literal_takes parser
  · exact literal_takes parser
  · exact literal_takes parser
  · exact parenthesizedPattern_takes lays ‹_›
  · exact listPattern_takes lays ‹_›
  · exact rejected_takes

theorem patternAtoms_takes (lays : inner.Lays text) (parser : Parser) :
    Takes text (patternAtoms inner) (Series (Expr.LaidOut text) (· = [])) parser :=
  many_while_takes (patternAtom_takes lays) parser

theorem patternAtoms_gathers (lays : inner.Lays text) (parser : Parser) :
    Gathers text (patternAtoms inner) (List.map .expr) parser :=
  (patternAtoms_takes lays parser).mono fun _ _ series => series.held fun _ _ laid => laid.held

theorem laidOut_application {function : Expr} {arguments : List Expr} {span : Span}
    {tokens : Tokens} (taken : Tokens.Then (function.LaidOut text)
      (Series (Expr.LaidOut text) (· = []) arguments) tokens)
    (reaches : span.Reaches tokens) (among : tokens <:+: text) :
    Expr.LaidOut text (.application function arguments span) tokens := by
  obtain ⟨head, _, rfl, laid, series⟩ := taken
  have held := series.held fun _ _ laid => laid.held
  obtain ⟨lists, rfl, all⟩ := series.flatten
  have composed : Expr.Composed (.application function arguments span) (head ++ lists.flatten) :=
    .application laid.atomic (all.imp fun _ _ laid => laid.atomic)
  exact composed.laidOut (laid.opens.append _) reaches among (laid.held.append held)

theorem constructorPattern_takes (lays : inner.Lays text) (constructor : Expr) (parser : Parser) :
    TakesFrom text origin (constructor.LaidOut text)
      (constructorPattern inner origin.aheadSpan constructor) (Expr.LaidOut text) parser := by
  have rounds : ∀ start, Takes text
      (oneRound argumentFollows (patternAtom inner))
      (fun found => found.elim (· = []) (Expr.LaidOut text)) start := by
    intro start
    unfold oneRound argumentFollows
    simp only [takes_bind_assoc, takes_ahead]
    split
    · refine takes_bind_assoc.2 (takes_qualifiedSymbolFollows fun follows after _ => ?_)
      cases follows with
      | true => exact .pure fun _ none => none
      | false =>
        refine takes_after_look (takes_pure_bind.2 ?_)
        refine .chain (patternAtom_takes lays after) fun made final => ?_
        exact .pure fun _ laid => laid
    · exact .pure fun _ none => none
  unfold constructorPattern
  refine .bind (many_takes rounds parser) fun arguments after => ?_
  split
  · rename_i none
    rw [List.isEmpty_iff] at none
    subst none
    refine .pure ?_
    rintro _ ⟨_, _, rfl, laid, series⟩
    obtain ⟨_, rfl, all⟩ := series.flatten
    cases all
    simpa using laid
  · refine .reachWith ?_ fun span => .pure ?_
    · rintro _ ⟨_, later, rfl, laid, -⟩
      exact laid.opens.append later
    · rintro tokens ⟨taken, reaches, among⟩
      exact laidOut_application taken reaches among

theorem takes_parenthesizedConstructorFollows {β : Type} {taken : Tokens → Prop}
    {made : β → Tokens → Prop} {next : Bool → Parse β}
    (later : ∀ follows after, Alike parser after →
      TakesFrom text origin taken (next follows) made after) :
    TakesFrom text origin taken (parenthesizedConstructorFollows >>= next) made parser := by
  unfold parenthesizedConstructorFollows
  simp only [takes_bind_assoc]
  apply TakesFrom.peek (Nat.le_refl 1) (by decide)
  intro token after alike _
  split
  · exact later true after alike
  · split
    · simp only [takes_bind_assoc]
      apply TakesFrom.peek (by decide) (by decide)
      intro final last alikeLast _
      exact later _ last (alike.trans alikeLast)
    · exact later false after alike

/-- A sign and an operand behind it, up to where the parser stands. -/
theorem laidOut_negation {operand : Expr} {span : Span} {sign : Token × Span} {rest : Tokens}
    (isSign : sign.1 = .minus) (isWide : sign.2.isPoint = false) (laid : operand.LaidOut text rest)
    (reaches : span.Reaches (sign :: rest)) (among : sign :: rest <:+: text) :
    Expr.LaidOut text (.negation operand span) (sign :: rest) :=
  (Expr.Composed.negation isSign (.atomic laid.atomic)).laidOut ⟨sign, rest, rfl, isWide⟩ reaches
    among laid.held

theorem numeral_takes (parser : Parser) : Takes text numeral (Expr.LaidOut text) parser := by
  unfold numeral
  simp only [takes_ahead]
  split
  · exact literal_takes parser
  · exact literal_takes parser
  · exact rejected_takes

theorem negativeLiteral_takes (found : parser.ahead = .minus) :
    Takes text negativeLiteral (Expr.LaidOut text) parser := by
  unfold negativeLiteral
  simp only [takes_aheadSpan]
  refine .beginWith (by rw [found]; rfl) (.bind (numeral_takes _) fun operand after => ?_)
  refine .reachWith ?_ fun span => .pure ?_
  · rintro _ ⟨_, later, rfl, ⟨known, -⟩, -⟩
    exact (known.opens rfl).append later
  · rintro _ ⟨⟨_, rest, rfl, ⟨known, rfl⟩, laid⟩, reaches, among⟩
    obtain ⟨_, _, split, isWide⟩ := known.opens rfl
    cases split
    exact laidOut_negation found isWide laid reaches among

theorem operandPattern_takes (lays : inner.Lays text) (parser : Parser) :
    Takes text (operandPattern inner) (Expr.LaidOut text) parser := by
  unfold operandPattern
  simp only [takes_aheadSpan, takes_ahead]
  split
  · exact negativeLiteral_takes ‹_›
  · refine .chain (qualifiedIdentifier_takes parser) fun name after => ?_
    exact .weaken (fun _ covers => Expr.laidOut_identifier covers)
      (constructorPattern_takes lays (.identifier name) after)
  · refine takes_parenthesizedConstructorFollows fun follows after alike => ?_
    split
    · refine .chain (takes_after_look (patternAtom_takes lays after)) fun constructor final => ?_
      exact constructorPattern_takes lays constructor final
    · exact takes_after_look (patternAtom_takes lays after)
  · exact patternAtom_takes lays parser

/-- Two patterns with an operator between them, up to where the parser stands. -/
theorem laidOut_binary {left right : Expr} {operator : Name} {span : Span} {tokens : Tokens}
    (taken : Tokens.Then (Tokens.Then (left.LaidOut text) operator.Between) (right.LaidOut text)
      tokens)
    (reaches : span.Reaches tokens) (among : tokens <:+: text) :
    Expr.LaidOut text (.binary left operator right span) tokens := by
  obtain ⟨_, after, rfl, ⟨before, between, rfl, laidLeft, stands⟩, laidRight⟩ := taken
  refine (Expr.Composed.binary (.atomic laidLeft.atomic) stands (.atomic laidRight.atomic)).laidOut
    ((laidLeft.opens.append _).append _) reaches among ?_
  exact laidLeft.held.append ((held_name operator).append laidRight.held)

theorem patternAfter_takes (lays : inner.Lays text) (left : Expr) (parser : Parser) :
    TakesFrom text origin (left.LaidOut text) (patternAfter inner origin.aheadSpan left)
      (Expr.LaidOut text) parser := by
  unfold patternAfter
  refine .bind (constructorOperator?_takes parser) fun operator afterOperator => ?_
  cases operator with
  | none =>
    refine .pure ?_
    rintro _ ⟨_, _, rfl, laid, rfl⟩
    rwa [List.append_nil]
  | some operator =>
    refine .bind (lays.pattern afterOperator) fun right after => ?_
    refine .reachWith ?_ fun span => .pure ?_
    · rintro _ ⟨_, after, rfl, ⟨before, between, rfl, laid, -⟩, -⟩
      exact (laid.opens.append _).append _
    · rintro tokens ⟨taken, reaches, among⟩
      exact laidOut_binary taken reaches among

theorem patternProduction_takes (lays : inner.Lays text) (parser : Parser) :
    Takes text (patternProduction inner) (Expr.LaidOut text) parser := by
  unfold patternProduction
  simp only [takes_aheadSpan]
  exact .chain (operandPattern_takes lays parser) (patternAfter_takes lays)

end Offside.Haskell.Grammar
