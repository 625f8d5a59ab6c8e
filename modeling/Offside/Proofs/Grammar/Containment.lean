import Offside.Proofs.Grammar.Recovery
import Offside.Proofs.Parser.Reading

/-!
Which items keep their errors to themselves. A declaration whose production always stops within its
item, wherever the item stands, costs no other item anything. Declarations that are skipped are of this
kind, and so are malformed ones that are given up on the spot: after a name comes a token that nothing
can start with, or the right-hand side of a binding starts with a token that starts no expression.
-/

namespace Offside

set_option autoImplicit false

open Offside.Lexical Offside.Parser

namespace Parser

variable {parser : Parser}

theorem isAtEnd_of_rest {found : Token × Span} {later : List (Token × Span)}
    (rest : parser.rest = found :: later) : parser.isAtEnd = false := by
  cases ended : parser.isAtEnd with
  | false => rfl
  | true =>
    rw [(rest_eq_nil_iff parser).2 ended] at rest
    cases rest

theorem rest_fail {found : Token × Span} {later : List (Token × Span)}
    (rest : parser.rest = found :: later) : parser.fail.rest = later := by
  have inside : parser.reportUnexpected.isAtEnd = false := by
    simpa [isAtEnd, ahead_reportUnexpected] using isAtEnd_of_rest rest
  rw [← rest_reportUnexpected, rest_consume inside] at rest
  rw [fail, consumeInner, if_neg (by simp [inside])]
  exact (List.cons.inj rest).2

theorem rest_leaveNesting (parser : Parser) : parser.leaveNesting.rest = parser.rest := by
  unfold leaveNesting
  split
  · rfl
  · rfl

theorem rest_consume_tail {found : Token × Span} {later : List (Token × Span)}
    (rest : parser.rest = found :: later) :
    parser.ahead = found.1 ∧ parser.consume.rest = later := by
  rw [rest_consume (isAtEnd_of_rest rest)] at rest
  obtain ⟨first, others⟩ := List.cons.inj rest
  exact ⟨congrArg Prod.fst first, others⟩

end Parser

namespace Parse

variable {α β : Type} {parser middle : Parser}

theorem bind_of {first : Parse α} {next : α → Parse β} {value : α} {result : β × Parser}
    (runs : first parser = (value, middle)) (later : next value middle = result) :
    (first >>= next) parser = result := by
  rw [bind_apply, runs, later]

theorem accept_other {token : Token} (inner : token ≠ .endOfInput) (other : parser.ahead ≠ token) :
    accept token parser = (false, parser) := by
  rw [accept_apply inner, if_neg other]

theorem accept_found {token : Token} (inner : token ≠ .endOfInput) (found : parser.ahead = token) :
    accept token parser = (true, parser.consume) := by
  rw [accept_apply inner, if_pos found]

def Halts (production : Parse α) (holds : Parser → Prop) (parser : Parser) : Prop :=
  holds (production parser).2

section Halts

variable {first : Parse α} {next : α → Parse β} {holds middle : Parser → Prop}

theorem Halts.step {value : α} {after : Parser} (known : first parser = (value, after))
    (later : Halts (next value) holds after) : Halts (first >>= next) holds parser := by
  rw [Halts, bind_apply, known]
  exact later

theorem Halts.bind (halts : Halts first middle parser)
    (later : ∀ value after, middle after → Halts (next value) holds after) :
    Halts (first >>= next) holds parser :=
  later _ _ halts

@[simp] theorem halts_ahead {next : Token → Parse β} :
    Halts (Parse.ahead >>= next) holds parser ↔ Halts (next parser.ahead) holds parser :=
  Iff.rfl

@[simp] theorem halts_aheadSpan {next : Span → Parse β} :
    Halts (Parse.aheadSpan >>= next) holds parser ↔ Halts (next parser.aheadSpan) holds parser :=
  Iff.rfl

@[simp] theorem halts_isAt {token : Token} {next : Bool → Parse β} :
    Halts (isAt token >>= next) holds parser ↔
      Halts (next (decide (parser.ahead = token))) holds parser :=
  Iff.rfl

@[simp] theorem halts_bind_assoc {γ : Type} {second : α → Parse γ} {third : γ → Parse β} :
    Halts ((first >>= second) >>= third) holds parser ↔
      Halts (first >>= fun value => second value >>= third) holds parser :=
  Iff.rfl

end Halts

end Parse

namespace Haskell.Grammar

open Offside.Parse

variable {files : FileId → Prop} {inner : Level} {parser : Parser}

/-- The production for the item stops within it, wherever the item stands. -/
def Item.Stops (item : Item) : Prop :=
  ∀ (files : FileId → Prop) (importing : Bool) (parser : Parser) (ending : Token × Span)
    (later : List (Token × Span)),
    parser.Ready files nestingLimit → itemEnds.contains ending.1 = true →
      parser.rest = item.tokens ++ ending :: later →
        (itemDecl importing parser parser).2.StopsIn item.tokens (ending :: later)

/-- The production for the item reports something and yet stops within the item. -/
def Item.Recovers (item : Item) : Prop :=
  ∀ (files : FileId → Prop) (importing : Bool) (parser : Parser) (ending : Token × Span)
    (later : List (Token × Span)),
    parser.Ready files nestingLimit → itemEnds.contains ending.1 = true →
      parser.rest = item.tokens ++ ending :: later →
        ¬(itemDecl importing parser parser).2.Clean ∧
          (itemDecl importing parser parser).2.StopsIn item.tokens (ending :: later)

theorem Item.Recovers.stops {item : Item} (recovers : item.Recovers) : item.Stops :=
  fun files importing parser ending later ready ends rest =>
    (recovers files importing parser ending later ready ends rest).2

theorem stops_of_unsupported {item : Item} (found : item.first.1 ∈ unsupportedKeywords) :
    item.Stops := by
  intro files importing parser ending later _ ends rest
  exact ⟨[], List.nil_suffix, rfl, rest_of_unsupported importing found ends rest⟩

/-- By induction on the items: from within an item the skip behind it reaches the next one. -/
theorem contained_of_stops (closing : Span) (later : List (Span × Item)) (importing : Bool)
    (item : Item) (parser : Parser) (ready : parser.Ready files nestingLimit)
    (rest : parser.rest = blockTokens closing item later)
    (stops : ∀ entry ∈ item :: later.map Prod.snd, entry.Stops) :
    Contained closing importing item later parser := by
  induction later generalizing importing item parser with
  | nil =>
    obtain ⟨left, _, closed, stopped⟩ := stops item List.mem_cons_self files importing parser
      (.closeBrace, closing) [] ready rfl rest
    obtain ⟨_, restAfter⟩ := afterDecl_leads importing ready
    rw [stopped, afterItem, skipped_of_closed rfl [] left 0 closed] at restAfter
    have ahead : (afterDecl importing parser).ahead = .closeBrace :=
      (rest_consume_tail restAfter).1
    rw [Contained, itemFollows_apply]
    simp [ahead]
  | cons next later induction =>
    obtain ⟨separator, next⟩ := next
    obtain ⟨nextOthers, nextFront⟩ := blockTokens_cons closing next later
    have stopped := stops item List.mem_cons_self files importing parser
      (.semicolon, separator) (blockTokens closing next later) ready rfl rest
    obtain ⟨leads, restAfter⟩ := afterDecl_leads importing ready
    have skips : (afterDecl importing parser).rest = blockTokens closing next later := by
      obtain ⟨left, _, closed, restHere⟩ := stopped
      rw [restAfter, restHere]
      apply afterItem_of_closed closed
      intro found member separates
      have goesOn := next.goesOn
      rw [nextFront] at member
      rw [Option.some.inj member, separates] at goesOn
      cases goesOn
    refine ⟨stopped, induction _ next _ (leads.ready ready) skips ?_⟩
    exact fun entry member => stops entry (List.mem_cons_of_mem item member)

/-! What is looked for behind a name and not found. -/

theorem quotedFollows_of_other {token : Token} (quote : parser.ahead ≠ .backtick) :
    quotedFollows token parser = (false, parser) :=
  bind_of (isAt_of_ne quote) rfl

theorem variableOperator?_of_other (symbol : parser.ahead.isVariableOperator = false)
    (quote : parser.ahead ≠ .backtick) : variableOperator? parser = (none, parser) := by
  refine bind_of (rfl : Parse.ahead parser = _) ?_
  rw [if_neg (by simp [symbol])]
  exact bind_of (quotedFollows_of_other quote) rfl

theorem operator?_of_other (symbol : parser.ahead.isOperator = false)
    (proper : parser.ahead ≠ .properIdentifier) (quote : parser.ahead ≠ .backtick) :
    operator? parser = (none, parser) := by
  have unqualified : qualifiedSymbolFollows Token.isOperator parser = (false, parser) :=
    bind_of (bind_of (isAt_of_ne proper) rfl : qualifierFollows parser = _) rfl
  refine bind_of (rfl : Parse.ahead parser = _) ?_
  rw [if_neg (by simp [symbol])]
  refine bind_of unqualified ?_
  rw [if_neg Bool.false_ne_true, if_neg quote]
  rfl

theorem patternContinues_of_other (sign : parser.ahead ≠ .atSign)
    (symbol : parser.ahead.isConstructorOperator = false) (quote : parser.ahead ≠ .backtick) :
    patternContinues parser = (false, parser) := by
  refine bind_of (rfl : Parse.ahead parser = _) ?_
  rw [if_neg (by simp [sign, symbol])]
  exact quotedFollows_of_other quote

theorem patternAtoms_of_other (other : startsPatternAtom parser.ahead = false) :
    patternAtoms inner parser = ([], parser) := by
  apply many_of_stop
  change (startsPatternAtom parser.ahead, parser) = _
  rw [other]

theorem itemDecl_of_name (importing : Bool) (named : parser.ahead = .identifier) :
    itemDecl importing parser parser =
      declAfterName outermost parser.aheadSpan (.simple parser.aheadSpan) parser.consume := by
  have expected : expect .identifier parser = (true, parser.consume) := by
    rw [expect_apply (by decide), if_pos named]
  have read : variableIdentifier parser = (.simple parser.aheadSpan, parser.consume) :=
    bind_of (rfl : Parse.aheadSpan parser = _) (bind_of expected rfl)
  have noImport : importsAt importing parser = false := by simp [importsAt, named]
  rw [itemDecl, noImport, if_neg Bool.false_ne_true]
  refine bind_of (rfl : Parse.ahead parser = _) ?_
  rw [named]
  refine bind_of (rfl : Parse.ahead parser = _) ?_
  rw [named]
  refine bind_of (rfl : Parse.aheadSpan parser = _) (bind_of (rfl : Parse.ahead parser = _) ?_)
  rw [named]
  exact bind_of read rfl

/-- A token with which no declaration goes on behind its name. -/
def isStray (token : Token) : Bool :=
  !startsPatternAtom token && !token.isOperator &&
    !([Token.comma, .doubleColon, .atSign, .backtick, .pipe, .equals].contains token)

theorem declAfterName_of_stray {start : Span} {name : Name} (stray : isStray parser.ahead = true) :
    Halts (declAfterName inner start name) (· = parser.reportUnexpected) parser := by
  simp only [isStray, Token.isOperator, Bool.and_eq_true, Bool.not_eq_true', Bool.or_eq_false_iff,
    List.contains_eq_mem, List.mem_cons, List.not_mem_nil, or_false, decide_eq_false_iff_not,
    not_or] at stray
  obtain ⟨⟨atom, function, constructor⟩, comma, colons, sign, quote, pipe, equals⟩ := stray
  unfold declAfterName
  simp only [halts_isAt, comma, colons, decide_false, Bool.or_false, Bool.false_eq_true, if_false]
  apply Halts.step (patternContinues_of_other sign constructor quote)
  apply Halts.step (variableOperator?_of_other function quote)
  apply Halts.step (patternAtoms_of_other atom)
  unfold rightSide
  simp only [halts_bind_assoc, halts_aheadSpan, halts_isAt, pipe, decide_false, Bool.false_eq_true,
    if_false]
  exact Halts.step (accept_other (by decide) equals) rfl

/-- A name and a token that is out of place there, whatever comes after it. -/
def Item.HasStray (item : Item) : Prop :=
  item.first.1 = .identifier ∧ ∃ stray ∈ item.others.head?, isStray stray.1 = true

theorem Item.HasStray.recovers {item : Item} (malformed : item.HasStray) : item.Recovers := by
  intro files importing parser ending later ready _ rest
  obtain ⟨named, stray, next, isStray⟩ := malformed
  obtain ⟨more, others⟩ := List.head?_eq_some_iff.1 next
  obtain ⟨ahead, restName⟩ := rest_consume_tail rest
  rw [others] at restName
  obtain ⟨aheadStray, _⟩ := rest_consume_tail restName
  have stopped := @declAfterName_of_stray outermost parser.consume
    parser.aheadSpan (.simple parser.aheadSpan) (by rwa [aheadStray])
  rw [Halts] at stopped
  rw [itemDecl_of_name importing (ahead.trans named), stopped]
  refine ⟨reportUnexpected_spoils _, item.others, List.suffix_cons _ _, ?_, ?_⟩
  · have closed := item.closed
    simp only [isClosed, Bool.and_eq_true] at closed
    rw [named] at closed
    exact closed.2
  · rw [rest_reportUnexpected, restName, others]
    rfl

/-- A token at which no operand starts and that closes nothing around one. -/
def isMisplaced (token : Token) : Bool :=
  !closesOperand token && !startsAtom token &&
    !([Token.tilde, .backslash, .kwLet, .kwIf, .kwCase, .kwDo, .minus, .openBrace].contains token)

theorem ne_of_misplaced {token : Token} (misplaced : isMisplaced parser.ahead = true)
    (other : isMisplaced token = false) : parser.ahead ≠ token := by
  rintro rfl
  rw [other] at misplaced
  cases misplaced

theorem reject_of_misplaced (misplaced : isMisplaced parser.ahead = true) :
    reject parser = (parser.aheadSpan, parser.fail) := by
  have closes : closesOperand parser.ahead = false := by
    simp only [isMisplaced, Bool.and_eq_true, Bool.not_eq_true'] at misplaced
    exact misplaced.1.1
  refine bind_of (rfl : Parse.aheadSpan parser = _) (bind_of (rfl : Parse.ahead parser = _) ?_)
  rw [if_neg (by simp [closes])]
  rfl

theorem signedOperand_of_misplaced {β : Type} {next : Operand → Parse β} {holds : Parser → Prop}
    (misplaced : isMisplaced parser.ahead = true)
    (later : Halts (arguments inner parser.aheadSpan (.error parser.aheadSpan) >>= next) holds
      parser.fail) :
    Halts (signedOperand inner >>= next) holds parser := by
  have other : ∀ {token}, isMisplaced token = false → parser.ahead ≠ token :=
    ne_of_misplaced misplaced
  unfold signedOperand operand application atom
  simp only [halts_bind_assoc, halts_isAt, halts_ahead, other (rfl : isMisplaced .minus = false),
    decide_false, Bool.false_eq_true, if_false]
  split
  case h_6 =>
    simp only [halts_aheadSpan, halts_bind_assoc, halts_ahead]
    split
    case h_11 => exact Halts.step (bind_of (reject_of_misplaced misplaced) rfl) later
    all_goals
      rename_i found
      exact absurd found (other rfl)
  all_goals
    rename_i found
    exact absurd found (other rfl)

theorem atom_of_literal (written : parser.ahead.isLiteral = true) :
    ∃ value, atom inner parser = (value, parser.consume) := by
  have reads : ∀ kind, literalKind? parser.ahead = some kind →
      literal parser = (.literal kind parser.aheadSpan, parser.consume) := by
    intro kind found
    refine bind_of (rfl : Parse.ahead parser = _) ?_
    rw [found]
    rfl
  have same : ∃ kind, literalKind? parser.ahead = some kind ∧
      atom inner parser = literal parser := by
    cases found : parser.ahead <;> simp only [found, Token.isLiteral, Bool.false_eq_true] at written
    all_goals exact ⟨_, rfl, bind_of (rfl : Parse.ahead parser = _) (by rw [found])⟩
  obtain ⟨kind, known, same⟩ := same
  exact ⟨_, same.trans (reads kind known)⟩

/-- Literals are taken as arguments up to the first token that is none. -/
theorem arguments_of_literals {start : Span} {function : Expr} {literals : List (Token × Span)}
    {stop : Token × Span} {later : List (Token × Span)}
    (each : ∀ found ∈ literals, found.1.isLiteral = true) (stops : startsAtom stop.1 = false)
    (rest : parser.rest = literals ++ stop :: later) :
    ∃ operand after, arguments inner start function parser = ((operand, none), after) ∧
      (after.Clean → parser.Clean) ∧ after.rest = stop :: later := by
  have rounds : ∀ (bound : Nat) (parser : Parser), parser.rest = literals ++ stop :: later →
      parser.remaining ≤ bound → ∃ values after,
        repeatBelow (return startsAtom (← Parse.ahead)) (argument inner) bound parser =
            ((values, none), after) ∧
          (after.Clean → parser.Clean) ∧ after.rest = stop :: later := by
    clear rest
    induction literals with
    | nil =>
      intro bound parser rest _
      have asked : (do return startsAtom (← Parse.ahead) : Parse Bool) parser = (false, parser) := by
        change (startsAtom parser.ahead, parser) = _
        rw [(rest_consume_tail rest).1, stops]
      refine ⟨[], parser, ?_, id, rest⟩
      rw [repeatBelow, asked]
    | cons found literals induction =>
      rw [List.forall_mem_cons] at each
      intro bound parser rest bounded
      obtain ⟨ahead, restLater⟩ := rest_consume_tail rest
      have written : parser.ahead.isLiteral = true := by rw [ahead, each.1]
      have kinds : startsAtom parser.ahead = true ∧ parser.ahead ≠ .properIdentifier := by
        revert written
        cases parser.ahead <;> simp [Token.isLiteral, startsAtom]
      have asked : (do return startsAtom (← Parse.ahead) : Parse Bool) parser = (true, parser) := by
        change (startsAtom parser.ahead, parser) = _
        rw [kinds.1]
      obtain ⟨value, known⟩ := @atom_of_literal inner parser written
      have argued : argument inner parser = (.inl value, parser.consume) := by
        refine bind_of (isAt_of_ne kinds.2) ?_
        rw [if_neg Bool.false_ne_true]
        exact bind_of known rfl
      have fewer := Nat.lt_of_lt_of_le (remaining_consume_lt (isAtEnd_of_rest rest)) bounded
      obtain ⟨values, after, repeated, clean, left⟩ :=
        induction each.2 parser.consume.remaining parser.consume restLater (Nat.le_refl _)
      refine ⟨value :: values, after, ?_, fun ended => clean_of_consume (clean ended), left⟩
      rw [repeatBelow, asked]
      simp only [argued, if_pos fewer, repeated]
  obtain ⟨values, after, repeated, clean, left⟩ := rounds _ parser rest (Nat.le_refl _)
  have known : repeatUntil (return startsAtom (← Parse.ahead)) (argument inner) parser =
      ((values, none), after) := repeated
  cases found : values.getLast? with
  | none =>
    refine ⟨function, after, bind_of known ?_, clean, left⟩
    simp only [found]
    rfl
  | some last =>
    have joined : ∃ span joined, join start last.span after = (span, joined) ∧
        (joined.Clean → after.Clean) ∧ joined.rest = after.rest := by
      unfold join Span.join
      split
      · exact ⟨_, _, rfl, id, rfl⟩
      · exact ⟨_, _, rfl, fun ended => absurd ended (raise_spoils after _), rfl⟩
    obtain ⟨span, joined, known', kept, same⟩ := joined
    refine ⟨.application function values span, joined, bind_of known ?_, clean ∘ kept,
      same.trans left⟩
    simp only [found]
    exact bind_of known' rfl

/-- A token that is out of place at the start of an expression is passed, and so are literals behind
it. -/
theorem expression_of_misplaced {opener stop : Token × Span} {literals later : List (Token × Span)}
    (misplaced : isMisplaced opener.1 = true)
    (each : ∀ found ∈ literals, found.1.isLiteral = true)
    (stops : itemEnds.contains stop.1 = true)
    (rest : parser.rest = opener :: (literals ++ stop :: later)) :
    Halts (expressionProduction inner) (fun after => ¬after.Clean ∧ after.rest = stop :: later)
      parser := by
  have ahead := (rest_consume_tail rest).1
  have ends : startsAtom stop.1 = false ∧ stop.1.isOperator = false ∧
      stop.1 ≠ .properIdentifier ∧ stop.1 ≠ .backtick ∧ stop.1 ≠ .doubleColon := by
    revert stops
    cases stop.1 <;> simp [itemEnds, startsAtom, Token.isOperator, Token.isVariableOperator,
      Token.isConstructorOperator]
  obtain ⟨operand, after, read, clean, left⟩ := @arguments_of_literals inner parser.fail
    parser.aheadSpan (.error parser.aheadSpan) literals stop later each ends.1 (rest_fail rest)
  have aheadAfter := (rest_consume_tail left).1
  have noOperator : operator? after = (none, after) := by
    apply operator?_of_other <;> rw [aheadAfter]
    exacts [ends.2.1, ends.2.2.1, ends.2.2.2.1]
  have chained : chainFrom inner false parser.aheadSpan operand none after = ((operand, none), after) := by
    have pending : pendingOperator none after = (none, after) := noOperator
    rw [chainFrom, chainBelow, pending]
  have spoilt : ¬after.Clean := fun ended => fail_spoils parser (clean ended)
  unfold expressionProduction chain annotated
  simp only [halts_bind_assoc, halts_aheadSpan]
  apply signedOperand_of_misplaced (by rwa [ahead])
  apply Halts.step read
  simp only [halts_bind_assoc]
  apply Halts.step chained
  apply Halts.step (rfl : (Pure.pure operand : Parse Expr) after = _)
  exact Halts.step (accept_other (by decide) (by rw [aheadAfter]; exact ends.2.2.2.2))
    ⟨spoilt, left⟩

/-- A binding whose right-hand side starts with a token that is out of place there, followed by
literals or by nothing. -/
def Item.HasMisplaced (item : Item) : Prop :=
  item.first.1 = .identifier ∧ ∃ sign opener literals, item.others = sign :: opener :: literals ∧
    sign.1 = .equals ∧ isMisplaced opener.1 = true ∧ ∀ found ∈ literals, found.1.isLiteral = true

/-- The expression is a nesting level down, and no declarations follow it. -/
theorem rightSide_of_misplaced {parser : Parser} {sign opener stop : Token × Span}
    {literals later : List (Token × Span)} (room : parser.depth < nestingLimit)
    (equals : sign.1 = .equals) (misplaced : isMisplaced opener.1 = true)
    (each : ∀ found ∈ literals, found.1.isLiteral = true)
    (stops : itemEnds.contains stop.1 = true)
    (rest : parser.rest = sign :: opener :: (literals ++ stop :: later)) :
    Halts (rightSide outermost .equals)
      (fun after => ¬after.Clean ∧ after.rest = stop :: later) parser := by
  obtain ⟨ahead, restLater⟩ := rest_consume_tail rest
  have noPipe : parser.ahead ≠ .pipe := by simp [ahead, equals]
  have noWhere : stop.1 ≠ .kwWhere := by
    intro found
    rw [found] at stops
    revert stops
    decide
  have nested : Halts outermost.expression
      (fun after => ¬after.Clean ∧ after.rest = stop :: later) parser.consume := by
    have entered : Parse.enterNesting parser.consume =
        (none, { parser.consume with depth := parser.consume.depth + 1 }) := by
      change parser.consume.enterNesting = _
      rw [Parser.enterNesting, if_pos (by rwa [(consume_keeps parser).2.1])]
    apply Halts.step entered
    refine Halts.bind (expression_of_misplaced misplaced each stops restLater) ?_
    rintro expr after ⟨spoilt, left⟩
    exact ⟨fun ended => spoilt (clean_of_leaveNesting ended), (rest_leaveNesting after).trans left⟩
  unfold rightSide finishRightSide
  simp only [halts_aheadSpan, halts_isAt, noPipe, decide_false, Bool.false_eq_true, if_false]
  apply Halts.step (accept_found (by decide) (ahead.trans equals))
  refine Halts.bind nested ?_
  rintro expr after ⟨spoilt, left⟩
  have other : after.ahead ≠ .kwWhere := by rwa [(rest_consume_tail left).1]
  have none : whereDecls? outermost after = ([], after) := by
    unfold whereDecls?
    rw [bind_apply, accept_other (by decide) other]
    rfl
  exact Halts.step none ⟨spoilt, left⟩

theorem Item.HasMisplaced.recovers {item : Item} (malformed : item.HasMisplaced) :
    item.Recovers := by
  intro files importing parser ending later ready ends rest
  obtain ⟨named, sign, opener, literals, others, equals, misplaced, each⟩ := malformed
  obtain ⟨ahead, restName⟩ := rest_consume_tail rest
  rw [others] at restName
  have aheadSign : parser.consume.ahead = .equals := (rest_consume_tail restName).1.trans equals
  have room : parser.consume.depth < nestingLimit := by
    have total := ready.room
    rw [(consume_keeps parser).2.1, show parser.depth = 0 by omega]
    decide
  have read := rightSide_of_misplaced room equals misplaced each ends restName
  have stopped : Halts (declAfterName outermost parser.aheadSpan (.simple parser.aheadSpan))
      (fun after => ¬after.Clean ∧ after.rest = ending :: later) parser.consume := by
    unfold declAfterName
    simp only [halts_isAt, aheadSign, reduceCtorEq, decide_false, Bool.or_false, Bool.false_eq_true,
      if_false]
    apply Halts.step (patternContinues_of_other (by simp [aheadSign]) (by rw [aheadSign]; rfl)
      (by simp [aheadSign]))
    apply Halts.step (variableOperator?_of_other (by rw [aheadSign]; rfl) (by simp [aheadSign]))
    apply Halts.step (patternAtoms_of_other (by rw [aheadSign]; rfl))
    exact Halts.bind read fun body after ended => ended
  rw [itemDecl_of_name importing (ahead.trans named)]
  exact ⟨stopped.1, [], List.nil_suffix, rfl, stopped.2⟩

/-- Items whose errors stay with them: skipped ones, and two kinds of malformed ones. -/
def Item.KeepsErrors (item : Item) : Prop :=
  item.first.1 ∈ unsupportedKeywords ∨ item.HasStray ∨ item.HasMisplaced

theorem Item.KeepsErrors.stops {item : Item} (kind : item.KeepsErrors) : item.Stops := by
  rcases kind with unsupported | stray | misplaced
  · exact stops_of_unsupported unsupported
  · exact stray.recovers.stops
  · exact misplaced.recovers.stops

end Haskell.Grammar

namespace Haskell

open Offside.Haskell.Grammar

variable {file : FileId} {stream : TokenStream}

/-- After the opening brace of a body its items are what is left. -/
theorem body_start {opening : Span} {body : List (Token × Span)}
    (within : stream.Within (· = file)) (shape : stream.inner = (.openBrace, opening) :: body)
    (context : Context) :
    (Parser.start stream context).ahead = .openBrace ∧
      (Parser.start stream context).consume.Ready (· = file) nestingLimit ∧
      (Parser.start stream context).consume.rest = body := by
  have rest := (rest_start stream context).trans shape
  have ahead := (head?_rest (Parser.start stream context) (.openBrace, opening)
    (by rw [rest]; rfl)).symm
  have brace : (Parser.start stream context).ahead = .openBrace := congrArg Prod.fst ahead
  have inside := Parse.isAtEnd_of_ahead (by decide) brace
  refine ⟨brace, (Leads.consume inside).ready (start_ready within context), ?_⟩
  rw [rest_consume inside] at rest
  exact (List.cons.inj rest).2

/-- The declarations begin at the items exactly when every production stops in its item, as all do
where each item keeps its errors. -/
theorem decls_begin_items_iff {opening closing : Span} {first : Item} {later : List (Span × Item)}
    (within : stream.Within (· = file))
    (shape : stream.inner = (.openBrace, opening) :: blockTokens closing first later)
    (distinct : (stream.inner.map fun found => found.2.start).Nodup) (context : Context) :
    ∃ after program, parse stream context = .ok (true, after) ∧ after.program = some program ∧
      (program.decls.map (fun decl => decl.span.start) =
          (first :: later.map Prod.snd).map Item.start ↔
        Contained closing true first later (Parser.start stream context).consume) ∧
      ((∀ item ∈ first :: later.map Prod.snd, item.KeepsErrors) →
        program.decls.map (fun decl => decl.span.start) =
          (first :: later.map Prod.snd).map Item.start) := by
  obtain ⟨brace, ready, rest⟩ := body_start within shape context
  have found : (parseTokens stream context).1 =
      some (program (Parser.start stream context)).1 :=
    parseTokens_program (Parse.isAtEnd_of_ahead (by decide) brace)
  have unharmed := (parseTokens_run within context).fault_of_single
  have exact_iff : (program (Parser.start stream context)).1.decls.map
        (fun decl => decl.span.start) = (first :: later.map Prod.snd).map Item.start ↔
      Contained closing true first later (Parser.start stream context).consume := by
    rw [program_decls brace]
    apply starts_iff_contained closing later true first _ ready rest
    rw [shape, List.map_cons, List.nodup_cons] at distinct
    rw [rest]
    exact distinct.2
  refine ⟨_, _, parse_of_some unharmed found, rfl, exact_iff, fun keeps => exact_iff.2 ?_⟩
  exact contained_of_stops closing later true first _ ready rest fun item member =>
    (keeps item member).stops

/-- Declarations that are skipped, with unbalanced brackets and a separator inside braces. -/
theorem decls_begin_skipped_items :
    let stream := TokenStream.spaced [.openBrace, .kwData, .openParen, .semicolon, .kwClass,
      .closeBracket, .openBrace, .semicolon, .closeBrace, .closeBrace]
    ∃ after program, parse stream {} = .ok (true, after) ∧ after.program = some program ∧
      program.decls.map (fun decl => decl.span.start) = [⟨0, 2⟩, ⟨0, 8⟩] := by
  intro stream
  let first : Item := ⟨(.kwData, .slot 1), [(.openParen, .slot 2)], by decide⟩
  let second : Item :=
    ⟨(.kwClass, .slot 4), [(.closeBracket, .slot 5), (.openBrace, .slot 6), (.semicolon, .slot 7),
      (.closeBrace, .slot 8)], by decide⟩
  have within : stream.Within (· = .single) := TokenStream.spaced_within (by decide)
  have shape : stream.inner =
      (.openBrace, .slot 0) :: blockTokens (.slot 9) first [(.slot 3, second)] := by decide +kernel
  have distinct : (stream.inner.map fun found => found.2.start).Nodup := by decide +kernel
  obtain ⟨after, program, parsed, stored, -, starts⟩ :=
    decls_begin_items_iff within shape distinct {}
  refine ⟨after, program, parsed, stored, starts ?_⟩
  intro item member
  simp only [List.map_cons, List.map_nil, List.mem_cons, List.not_mem_nil, or_false] at member
  rcases member with rfl | rfl
  · exact .inl (by decide)
  · exact .inl (by decide)

/-- A parenthesis that is not closed takes the item after it along. -/
theorem unclosed_parenthesis_loses_item :
    let stream := TokenStream.spaced [.openBrace, .identifier, .equals, .openParen, .identifier,
      .semicolon, .identifier, .equals, .integer, .closeBrace]
    (∃ first second : Item,
      stream.inner =
        (.openBrace, .slot 0) :: blockTokens (.slot 9) first [(.slot 5, second)] ∧
      first.start = ⟨0, 2⟩ ∧ second.start = ⟨0, 12⟩) ∧
      (parseTokens stream {}).2.fault = none ∧
      (parseTokens stream {}).1.map (fun program => program.decls.map fun decl =>
        decl.span.start) = some [⟨0, 2⟩] := by
  intro stream
  refine ⟨⟨⟨(.identifier, .slot 1),
      [(.equals, .slot 2), (.openParen, .slot 3), (.identifier, .slot 4)], by decide⟩,
    ⟨(.identifier, .slot 6), [(.equals, .slot 7), (.integer, .slot 8)], by decide⟩, ?_, rfl, rfl⟩,
    ?_, ?_⟩
  · decide +kernel
  · decide +kernel
  · decide +kernel

end Haskell

end Offside
