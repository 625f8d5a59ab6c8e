import Offside.Proofs.Extents.Rules
import Offside.Proofs.Reading.Names

/-!
Which tokens a name is made of. The span of a name reaches from its first segment to its last, and so
over all that was taken for it. Only parentheses and backticks around a name stay outside its span.
-/

namespace Offside

set_option autoImplicit false

open Offside.Haskell Offside.Lexical Offside.Parser

structure Name.Covers (name : Name) (tokens : Tokens) : Prop where
  opens : tokens.Opens
  reaches : name.span.Reaches tokens

theorem Name.covers_singleton {name : Name} {found : Token × Span} (same : name.span = found.2)
    (isWide : found.2.isPoint = false) : name.Covers [found] := by
  refine ⟨⟨found, [], rfl, isWide⟩, ?_, ?_⟩
  · rw [same, Tokens.start?, Tokens.wide_cons isWide]
    rfl
  · rw [same, Tokens.stop?, Tokens.wide_cons isWide]
    rfl

namespace Haskell.Grammar

open Offside.Parse

variable {β : Type} {text : Tokens} {origin parser : Parser} {taken : Tokens → Prop}
  {made : β → Tokens → Prop}

theorem takeName {make : Span → Name} (spans : ∀ span, (make span).span = span)
    (firm : isFirm parser.ahead = true) :
    Takes text (do consume; return make parser.aheadSpan) Name.Covers parser := by
  refine .take firm (.pure ?_)
  rintro _ ⟨_, _, rfl, rfl, rfl, isWide⟩
  exact Name.covers_singleton (spans _) isWide

theorem nameAt_takes {token : Token} (firm : isFirm token = true) (parser : Parser) :
    Takes text (nameAt token) Name.Covers parser := by
  unfold nameAt
  simp only [takes_aheadSpan]
  have known := expect_apply (inner_of_firm firm) parser
  by_cases same : parser.ahead = token
  · rw [if_pos same] at known
    have firm : isFirm parser.ahead = true := by rwa [same]
    have named : Takes text (do consume; return .simple parser.aheadSpan) Name.Covers parser :=
      takeName (fun _ => rfl) firm
    exact .congr (by rw [bind_apply, known]; rfl) named
  · rw [if_neg same] at known
    exact .spoil known (fail_spoils parser) id

theorem variableIdentifier_takes (parser : Parser) :
    Takes text variableIdentifier Name.Covers parser :=
  nameAt_takes rfl parser

theorem properIdentifier_takes (parser : Parser) :
    Takes text properIdentifier Name.Covers parser :=
  nameAt_takes rfl parser

theorem isFirm_of_variableOperator {token : Token} (isOperator : token.isVariableOperator = true) :
    isFirm token = true := by
  cases token <;> first | rfl | cases isOperator

theorem isFirm_of_constructorOperator {token : Token}
    (isOperator : token.isConstructorOperator = true) : isFirm token = true := by
  cases token <;> first | rfl | cases isOperator

theorem variableSymbol_takes (parser : Parser) :
    Takes text variableSymbol Name.Covers parser := by
  unfold variableSymbol
  simp only [takes_aheadSpan, takes_ahead]
  split
  · rename_i found
    exact takeName (fun _ => rfl) (isFirm_of_variableOperator found)
  · exact .fail id

theorem constructorSymbol_takes (parser : Parser) :
    Takes text constructorSymbol Name.Covers parser := by
  unfold constructorSymbol
  simp only [takes_aheadSpan, takes_ahead]
  split
  · rename_i found
    exact takeName (fun _ => rfl) (isFirm_of_constructorOperator found)
  · exact .fail id

theorem symbol_takes (parser : Parser) : Takes text symbol Name.Covers parser := by
  unfold symbol
  simp only [takes_ahead]
  split
  · exact constructorSymbol_takes parser
  · exact variableSymbol_takes parser

theorem eitherIdentifier_takes (parser : Parser) :
    Takes text eitherIdentifier Name.Covers parser := by
  unfold eitherIdentifier
  simp only [takes_isAt]
  split
  · exact variableIdentifier_takes parser
  · exact properIdentifier_takes parser

section Looking

/-- Looking for a qualifier takes nothing. One that follows is a proper identifier with a dot after
it. -/
theorem takes_qualifierFollows {next : Bool → Parse β}
    (later : ∀ follows after, Alike parser after →
      (follows = true → parser.ahead = .properIdentifier ∧ parser.consume.ahead = .dot) →
      TakesFrom text origin taken (next follows) made after) :
    TakesFrom text origin taken (qualifierFollows >>= next) made parser := by
  unfold qualifierFollows
  simp only [takes_bind_assoc, takes_isAt]
  split
  · exact later false parser ⟨rfl, rfl, rfl⟩ (by simp)
  · rename_i proper
    have proper : parser.ahead = .properIdentifier := by simpa using proper
    simp only [takes_bind_assoc]
    apply TakesFrom.peek (Nat.le_refl 1) (by decide)
    intro middle afterMiddle alikeMiddle dot
    split
    · exact later false afterMiddle alikeMiddle (by simp)
    · rename_i isDot
      have dot : parser.consume.ahead = .dot := by
        rw [← dot rfl]
        simpa using isDot
      simp only [takes_bind_assoc]
      apply TakesFrom.peek (by decide) (by decide)
      intro last afterLast alikeLast _
      have alike := alikeMiddle.trans alikeLast
      split
      · simp only [takes_bind_assoc, takes_aheadSpan]
        apply TakesFrom.peekSpan (by decide) (by decide)
        intro _ afterFirst alikeFirst
        simp only [takes_bind_assoc]
        apply TakesFrom.peekSpan (by decide) (by decide)
        intro _ afterSecond alikeSecond
        exact later _ afterSecond ((alike.trans alikeFirst).trans alikeSecond)
          fun _ => ⟨proper, dot⟩
      · exact later false afterLast alike (by simp)

theorem takes_qualifiedSymbolFollows {isKind : Token → Bool} {next : Bool → Parse β}
    (later : ∀ follows after, Alike parser after →
      TakesFrom text origin taken (next follows) made after) :
    TakesFrom text origin taken (qualifiedSymbolFollows isKind >>= next) made parser := by
  unfold qualifiedSymbolFollows
  simp only [takes_bind_assoc]
  apply takes_qualifierFollows
  intro follows after alike _
  cases follows with
  | false => exact later false after alike
  | true =>
    simp only [if_true, takes_bind_assoc]
    apply TakesFrom.peek (by decide) (by decide)
    intro token final alikeFinal _
    exact later _ final (alike.trans alikeFinal)

theorem takes_quotedFollows {token : Token} {next : Bool → Parse β}
    (later : ∀ follows after, Alike parser after →
      (follows = true → parser.ahead = .backtick) →
      TakesFrom text origin taken (next follows) made after) :
    TakesFrom text origin taken (quotedFollows token >>= next) made parser := by
  unfold quotedFollows
  simp only [takes_bind_assoc, takes_isAt]
  split
  · rename_i quoted
    simp only [takes_bind_assoc]
    apply TakesFrom.peek (Nat.le_refl 1) (by decide)
    intro found after alike _
    exact later _ after alike fun _ => by simpa using quoted
  · exact later false parser ⟨rfl, rfl, rfl⟩ (by simp)

end Looking

def IsQualifier (name : Name) (tokens : Tokens) : Prop :=
  ∃ found dot, tokens = [found, dot] ∧ name.span = found.2 ∧ found.2.isPoint = false

theorem qualifier_takes (proper : parser.ahead = .properIdentifier)
    (dot : parser.consume.ahead = .dot) : Takes text qualifier IsQualifier parser := by
  unfold qualifier
  simp only [takes_aheadSpan]
  refine .take (by rw [proper]; rfl) (.consume (isAtEnd_of_ahead (by decide) dot) (.pure ?_))
  rintro _ ⟨_, _, rfl, ⟨_, _, rfl, rfl, rfl, isWide⟩, rfl⟩
  exact ⟨_, _, rfl, rfl, isWide⟩

theorem qualifiers_takes (parser : Parser) :
    Takes text (many qualifierFollows qualifier) (Series IsQualifier (· = [])) parser := by
  apply many_takes
  intro start
  unfold oneRound
  apply takes_qualifierFollows
  intro follows after alike found
  cases follows with
  | false => exact .pure fun _ none => none
  | true =>
    obtain ⟨proper, dot⟩ := found rfl
    apply TakesFrom.chain (.append (qualifier_takes (alike.ahead.trans proper)
      (alike.next.trans dot)))
    intro name final
    refine .pure ?_
    rintro _ ⟨_, _, rfl, rfl, held⟩
    exact held

theorem ofSegments_takes (qualifiers : List Name) (last : Name) :
    TakesFrom text origin (Tokens.Then (Series IsQualifier (· = []) qualifiers) last.Covers)
      (ofSegments (qualifiers ++ [last])) Name.Covers parser := by
  unfold ofSegments
  cases qualifiers with
  | nil =>
    refine .pure ?_
    rintro _ ⟨_, _, rfl, row, covers⟩
    obtain ⟨_, rfl, all⟩ := row.flatten
    cases all
    exact covers
  | cons first later =>
    obtain ⟨second, others, split⟩ := List.exists_cons_of_ne_nil
      (List.append_ne_nil_of_right_ne_nil later (List.cons_ne_nil last []))
    have final : (second :: others).getLast (List.cons_ne_nil _ _) = last := by
      simp [← split]
    rw [List.cons_append, split, ofSegments_several, final, Span.join]
    split
    · refine .pure ?_
      rintro _ ⟨_, tokens, rfl, row, covers⟩
      obtain ⟨_, rfl, all⟩ := row.flatten
      cases all with
      | @cons _ _ _ rounds isFirst _ =>
        obtain ⟨found, dot, rfl, same, isWide⟩ := isFirst
        refine ⟨⟨found, _, rfl, isWide⟩, ?_, ?_⟩
        · change _ = some first.span.start
          rw [same]
          exact Tokens.Opens.start rfl isWide
        · exact Tokens.stop?_append covers.reaches.stop _
    · exact .of_unclean (raise_spoils parser _)

theorem qualifiedBy_takes {last : Parse Name}
    (takes : ∀ start, Takes text last Name.Covers start) (parser : Parser) :
    Takes text (qualifiedBy last) Name.Covers parser := by
  unfold qualifiedBy
  apply TakesFrom.chain (qualifiers_takes parser)
  intro qualifiers after
  apply TakesFrom.bind (takes after)
  intro name final
  exact ofSegments_takes qualifiers name

theorem qualifiedIdentifier_takes (parser : Parser) :
    Takes text qualifiedIdentifier Name.Covers parser :=
  qualifiedBy_takes eitherIdentifier_takes parser

/-- The name of a term, whether it is an operator or not. -/
theorem qualifiedTerm_takes (parser : Parser) :
    Takes text qualifiedTerm (fun term => term.name.Covers) parser := by
  unfold qualifiedTerm
  apply TakesFrom.chain (qualifiers_takes parser)
  intro qualifiers after
  simp only [takes_ahead]
  split
  · apply TakesFrom.bind (symbol_takes after)
    intro name final
    apply TakesFrom.chain (ofSegments_takes qualifiers name)
    intro whole last
    exact .pure fun _ covers => covers
  · apply TakesFrom.bind (eitherIdentifier_takes after)
    intro name final
    apply TakesFrom.chain (ofSegments_takes qualifiers name)
    intro whole last
    exact .pure fun _ covers => covers

theorem quotedOperator_takes (quoted : parser.ahead = .backtick) :
    Takes text quotedOperator Name.Between parser := by
  unfold quotedOperator
  refine .consume (isAtEnd_of_ahead (by decide) quoted) ?_
  apply TakesFrom.bind (qualifiedIdentifier_takes parser.consume)
  intro name after
  refine .expectOrSkipTo (by decide) fun _ _ => .pure ?_
  rintro _ ⟨_, _, rfl, ⟨_, tokens, rfl, ⟨_, _, rfl, rfl, rfl⟩, covers⟩, rfl⟩
  exact .quoted quoted rfl covers.reaches

def maybeBetween (found : Option Name) : Tokens → Prop := found.elim (· = []) Name.Between

theorem maybeBetween_some {production : Parse Name}
    (takes : Takes text production Name.Covers parser) :
    Takes text (do return some (← production)) maybeBetween parser :=
  .chain takes fun _ _ => .pure fun _ covers => .plain covers.reaches

theorem maybeBetween_quoted (quoted : parser.ahead = .backtick) :
    Takes text (do return some (← quotedOperator)) maybeBetween parser :=
  .chain (quotedOperator_takes quoted) fun _ _ => .pure fun _ between => between

/-- A step that only looked ahead leaves open what comes after it. -/
theorem takes_after_look {production : Parse β} {after : Parser}
    (takes : Takes text production made after) :
    TakesFrom text parser (· = []) production made after := by
  refine (TakesFrom.append takes).mono ?_
  rintro _ _ ⟨_, _, rfl, rfl, held⟩
  exact held

theorem operator?_takes (parser : Parser) : Takes text operator? maybeBetween parser := by
  unfold operator?
  simp only [takes_ahead]
  split
  · exact maybeBetween_some (symbol_takes parser)
  · apply takes_qualifiedSymbolFollows
    intro follows after alike
    cases follows with
    | true => exact takes_after_look (maybeBetween_some (qualifiedBy_takes symbol_takes after))
    | false =>
      rw [if_neg Bool.false_ne_true]
      split
      · rename_i quoted
        exact takes_after_look (maybeBetween_quoted (alike.ahead.trans quoted))
      · exact .pure fun _ none => none

theorem variableOperator?_takes (parser : Parser) :
    Takes text variableOperator? maybeBetween parser := by
  unfold variableOperator?
  simp only [takes_ahead]
  split
  · exact maybeBetween_some (variableSymbol_takes parser)
  · apply takes_quotedFollows
    intro follows after alike quoted
    cases follows with
    | true => exact takes_after_look (maybeBetween_quoted (alike.ahead.trans (quoted rfl)))
    | false => exact .pure fun _ none => none

theorem constructorOperator?_takes (parser : Parser) :
    Takes text constructorOperator? maybeBetween parser := by
  unfold constructorOperator?
  simp only [takes_ahead]
  split
  · exact maybeBetween_some (constructorSymbol_takes parser)
  · apply takes_qualifiedSymbolFollows
    intro follows afterSymbol alikeSymbol
    cases follows with
    | true =>
      exact takes_after_look
        (maybeBetween_some (qualifiedBy_takes constructorSymbol_takes afterSymbol))
    | false =>
      rw [if_neg Bool.false_ne_true]
      apply takes_quotedFollows
      intro follows after alike quoted
      cases follows with
      | true =>
        exact takes_after_look (maybeBetween_quoted (alike.ahead.trans (quoted rfl)))
      | false => exact .pure fun _ none => none

end Haskell.Grammar

/-!
How the operands of a text lie in it. An operand is laid when it is made of its tokens and all nodes
below it stand where they should. Operands that are laid make a larger one that is: its span starts
with the first token and ends where the last operand does, which is at the last token unless that
operand is in parentheses.
-/

open Offside.Parse

variable {text : Tokens}

/-- A name has nothing below it that needs a place of its own. -/
theorem Name.every_exact (name : Name) : (Node.name name).Every (Node.Exact text) := by
  refine .intro trivial fun child member => ?_
  match name with
  | .qualified segments span =>
    obtain ⟨segment, among, rfl⟩ := List.mem_map.1 member
    exact segment.every_exact
  | .simple _ | .operator _ | .special _ | .error _ => cases member
termination_by sizeOf name
decreasing_by
  have smaller := List.sizeOf_lt_of_mem among
  simp only [Name.qualified.sizeOf_spec]
  omega

namespace Expr

/-- The span of an operand ends with its tokens, or with a name that they close. -/
inductive Ends (expr : Expr) (tokens : Tokens) : Prop
  | whole (stop : tokens.stop? = some expr.span.stop)
  | short {name : Name} {before closing : Tokens}
      (named : expr.lastOperand = .identifier name) (split : tokens = before ++ closing)
      (closes : closing.CloseName) (stop : before.stop? = some expr.span.stop)

/-- An operand of which the first token has a width, with all nodes below in place. -/
structure Laid (text : Tokens) (expr : Expr) (tokens : Tokens) : Prop where
  opens : tokens.Opens
  division : expr.Over tokens
  ends : expr.Ends tokens
  every : (Node.expr expr).Every (Node.Exact text)

structure LaidOut (text : Tokens) (expr : Expr) (tokens : Tokens) : Prop where
  opens : tokens.Opens
  atomic : expr.Atomic tokens
  every : (Node.expr expr).Every (Node.Exact text)

variable {tokens : Tokens}

/-- A node ends where its last operand does, if that is composed of no others. -/
theorem Atomic.behind {expr operand : Expr} (atomic : operand.Atomic tokens) (front : Tokens)
    (last : ∀ name, operand = .identifier name → expr.lastOperand = .identifier name)
    (stop : expr.span.stop = operand.span.stop) : expr.Ends (front ++ tokens) := by
  cases atomic with
  | whole reaches => exact .whole (by rw [stop]; exact Tokens.stop?_append reaches.stop front)
  | @enclosed name inside opening closing opens closes between =>
    cases between with
    | plain reaches =>
      refine @Ends.short _ _ name (front ++ opening :: inside) [closing] (last name rfl)
        (by simp) (Or.inl (by simp [closes])) ?_
      rw [stop]
      exact Tokens.stop?_append (Tokens.stop?_cons reaches.stop opening) front
    | @quoted own first final quotes quotesToo reaches =>
      refine @Ends.short _ _ name (front ++ opening :: first :: own) [final, closing]
        (last name rfl) (by simp) (Or.inr (by simp [closes, quotesToo])) ?_
      rw [stop]
      exact Tokens.stop?_append
        (Tokens.stop?_cons (Tokens.stop?_cons reaches.stop first) opening) front

theorem Atomic.ends {expr : Expr} (atomic : expr.Atomic tokens) : expr.Ends tokens :=
  atomic.behind [] (fun name same => by rw [same]; rfl) rfl

theorem LaidOut.laid {expr : Expr} (laid : expr.LaidOut text tokens) : expr.Laid text tokens :=
  ⟨laid.opens, .atomic laid.atomic, laid.atomic.ends, laid.every⟩

theorem LaidOut.held {expr : Expr} (laid : expr.LaidOut text tokens) : Held text [.expr expr] :=
  ⟨List.forall_mem_singleton.2 laid.every⟩

theorem Laid.held {expr : Expr} (laid : expr.Laid text tokens) : Held text [.expr expr] :=
  ⟨List.forall_mem_singleton.2 laid.every⟩

theorem Ends.behind {expr operand : Expr} {front tokens : Tokens} (ends : operand.Ends tokens)
    (last : expr.lastOperand = operand.lastOperand) (stop : expr.span.stop = operand.span.stop) :
    expr.Ends (front ++ tokens) := by
  cases ends with
  | whole ended => exact .whole (by rw [stop]; exact Tokens.stop?_append ended front)
  | @short name before closing named split closes ended =>
    refine .short (last.trans named) (by rw [split, List.append_assoc]) closes ?_
    rw [stop]
    exact Tokens.stop?_append ended front

/-- A composed node with a span from its first token to the end of its last operand is laid. -/
theorem Composed.laid {expr : Expr} (composed : expr.Composed tokens) (opens : tokens.Opens)
    (start : tokens.start? = some expr.span.start) (ends : expr.Ends tokens)
    (among : tokens <:+: text) (held : Held text (Node.expr expr).children) :
    expr.Laid text tokens := by
  refine ⟨opens, .composed composed, ends, .intro (fun _ => ⟨tokens, among, composed, ?_⟩) held.nodes⟩
  cases ends with
  | whole stop => exact Or.inl ⟨start, stop⟩
  | @short name before closing named split closes stop =>
    rw [split] at start
    exact Or.inr ⟨⟨name, named⟩, before, closing, split, closes,
      Tokens.start?_of_append start stop, stop⟩

/-- A composed node that reaches over all its tokens is laid out as a whole. -/
theorem Composed.laidOut {expr : Expr} (composed : expr.Composed tokens) (opens : tokens.Opens)
    (reaches : expr.span.Reaches tokens) (among : tokens <:+: text)
    (held : Held text (Node.expr expr).children) : expr.LaidOut text tokens :=
  ⟨opens, .whole reaches,
    .intro (fun _ => ⟨tokens, among, composed, Or.inl reaches⟩) held.nodes⟩

theorem laidOut_identifier {name : Name} (covers : name.Covers tokens) :
    LaidOut text (.identifier name) tokens :=
  ⟨covers.opens, .whole covers.reaches, .intro nofun (List.forall_mem_singleton.2 name.every_exact)⟩

end Expr

namespace TypeTerm

/-- A type of which the first token has a width, with all nodes below in place. Its span ends with its
tokens, or its last operand is in parentheses. -/
structure Laid (text : Tokens) (type : TypeTerm) (tokens : Tokens) : Prop where
  opens : tokens.Opens
  division : type.Over tokens
  extent : ∃ opening closing, type.span.ReachesBetween opening closing tokens ∧
    (closing = [] ∨ type.EndsEnclosed tokens)
  every : (Node.type type).Every (Node.Exact text)

structure LaidOut (text : Tokens) (type : TypeTerm) (tokens : Tokens) : Prop where
  opens : tokens.Opens
  operand : type.Operand tokens
  extent : ∃ opening closing, type.span.ReachesBetween opening closing tokens ∧
    (opening = [] ∧ closing = [] ∨ type.Enclosed tokens)
  every : (Node.type type).Every (Node.Exact text)

theorem laidOut_whole {type : TypeTerm} {tokens : Tokens} (opens : tokens.Opens)
    (reaches : type.span.Reaches tokens) (every : (Node.type type).Every (Node.Exact text)) :
    type.LaidOut text tokens where
  opens := opens
  operand := .whole reaches
  extent := ⟨[], [], ⟨nofun, nofun, tokens, (List.append_nil _).symm, reaches⟩, Or.inl ⟨rfl, rfl⟩⟩
  every := every

theorem Laid.enclosed {type : TypeTerm} {tokens : Tokens} {opening closing : Token × Span}
    (laid : type.Laid text tokens) (opens : opening.1 = .openParen) (wide : opening.2.isPoint = false)
    (closes : closing.1 = .closeParen) : type.LaidOut text (opening :: (tokens ++ [closing])) where
  opens := ⟨opening, _, rfl, wide⟩
  operand := .enclosed opens closes laid.division
  extent := by
    obtain ⟨front, back, ⟨allOpen, allClose, middle, rfl, reaches⟩, -⟩ := laid.extent
    refine ⟨opening :: front, back ++ [closing], ⟨List.forall_mem_cons.2 ⟨opens, allOpen⟩, ?_, middle,
      by simp, reaches⟩, Or.inr ⟨_, opening, closing, rfl, opens, closes, laid.division⟩⟩
    exact List.forall_mem_append.2 ⟨allClose, List.forall_mem_singleton.2 closes⟩
  every := laid.every

theorem LaidOut.laid {type : TypeTerm} {tokens : Tokens} (laid : type.LaidOut text tokens) :
    type.Laid text tokens := by
  refine ⟨laid.opens, .operand laid.operand, ?_, laid.every⟩
  obtain ⟨opening, closing, reaches, whole | enclosed⟩ := laid.extent
  · exact ⟨opening, closing, reaches, Or.inl whole.2⟩
  · exact ⟨opening, closing, reaches, Or.inr (.here enclosed)⟩

theorem LaidOut.held {type : TypeTerm} {tokens : Tokens} (laid : type.LaidOut text tokens) :
    Held text [.type type] :=
  ⟨List.forall_mem_singleton.2 laid.every⟩

theorem Laid.held {type : TypeTerm} {tokens : Tokens} (laid : type.Laid text tokens) :
    Held text [.type type] :=
  ⟨List.forall_mem_singleton.2 laid.every⟩

theorem LaidOut.function {parameter result : TypeTerm} {before after : Tokens}
    {arrow : Token × Span} (first : parameter.LaidOut text before) (isArrow : arrow.1 = .arrow)
    (last : result.Laid text after) (among : before ++ arrow :: after <:+: text) :
    Laid text (.function parameter result (parameter.span.through result.span))
      (before ++ arrow :: after) := by
  obtain ⟨opening, inner, ⟨opens, -, head, leads, reachesHead⟩, outer⟩ := first.extent
  obtain ⟨front, closing, ⟨-, closes, tail, follows, reachesTail⟩, ended⟩ := last.extent
  have reaches : (parameter.span.through result.span).ReachesBetween opening closing
      (before ++ arrow :: after) := by
    refine ⟨opens, closes, head ++ (inner ++ arrow :: front ++ tail), by simp [leads, follows], ?_, ?_⟩
    · exact Tokens.start?_append reachesHead.start _
    · exact Tokens.stop?_append (Tokens.stop?_append reachesTail.stop _) head
  have starts : opening = [] ∨ parameter.Enclosed before := outer.imp_left And.left
  refine ⟨first.opens.append _, .function isArrow first.operand last.division,
    ⟨opening, closing, reaches, ended.imp_right (.later first.operand)⟩, .intro (fun _ => ?_) ?_⟩
  · exact ⟨parameter, result, _, before, arrow, after, rfl, among, isArrow, first.operand, last.division,
      opening, closing, reaches, starts, ended⟩
  · simpa using And.intro first.every last.every

end TypeTerm

namespace Haskell.Grammar

structure Level.Lays (text : Tokens) (inner : Level) : Prop where
  expression : ∀ parser, Gathers text inner.expression (fun made => [.expr made]) parser
  pattern : ∀ parser, Takes text inner.pattern (Expr.LaidOut text) parser
  type : ∀ parser, Takes text inner.type (TypeTerm.Laid text) parser
  expressionAtom : ∀ parser, Gathers text inner.expressionAtom (fun made => [.expr made]) parser
  patternAtom : ∀ parser, Gathers text inner.patternAtom (fun made => [.expr made]) parser
  parentheses : ∀ parser, parser.ahead = .openParen →
    Takes text inner.parentheses (Expr.LaidOut text) parser
  brackets : ∀ parser, parser.ahead = .openBracket →
    Takes text inner.brackets (Expr.LaidOut text) parser
  declBlock : ∀ parser, Gathers text inner.declBlock (List.map Node.decl) parser
  alternativeBlock : ∀ parser,
    Gathers text inner.alternativeBlock (List.map Node.alternative) parser
  statementBlock : ∀ parser, Gathers text inner.statementBlock (List.map Node.statement) parser

/-- A rejected token was reported, so nothing is promised. -/
theorem reject_takes {origin parser : Parser} {taken : Tokens → Prop}
    {made : Span → Tokens → Prop} : TakesFrom text origin taken reject made parser := by
  unfold reject
  simp only [takes_aheadSpan, takes_ahead]
  split
  · exact TakesFrom.reportUnexpected id
  · exact TakesFrom.fail id

theorem rejected_takes {α : Type} {origin parser : Parser} {taken : Tokens → Prop}
    {made : α → Tokens → Prop} {build : Span → α} :
    TakesFrom text origin taken (do return build (← reject)) made parser :=
  .chain reject_takes fun _ _ => .pure fun _ held => held

end Haskell.Grammar

end Offside
