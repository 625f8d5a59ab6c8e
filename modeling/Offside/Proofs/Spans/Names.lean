import Offside.Proofs.Spans.Blocks

/-!
Where names stand. A name of one segment has the place of its token; one of several goes from its first
segment to its last and covers them all. Parentheses around a symbol and backticks around an identifier
are no part of the name.
-/

namespace Offside.Haskell.Grammar

set_option autoImplicit false

open Offside.Parser Offside.Parse

variable {file : FileId} {parser : Parser}

/-- Tokens of a kind that is none of those that layout adds, nor the end of input, have a width. -/
theorem firm_of_kind {isKind : Token → Bool} {token : Token}
    (other : [Token.openBrace, .closeBrace, .semicolon, .endOfInput].all fun loose => !isKind loose)
    (found : isKind token = true) : isFirm token = true := by
  rw [← Bool.not_eq_false]
  intro loose
  have among : token ∈ [Token.openBrace, .closeBrace, .semicolon, .endOfInput] := by
    simpa [isFirm, Layout.isAdded, or_iff_not_imp_left] using loose
  simpa [found] using List.all_eq_true.1 other token among

theorem nameAt_locates {token : Token} (firm : isFirm token = true) (parser : Parser) :
    Locates file (nameAt token) (fun name => [.name name]) parser := by
  unfold nameAt
  simp only [locates_aheadSpan]
  apply LocatesFrom.takeDue firm
  · exact .pure rfl
  · exact .pure_of_unclean (fail_spoils parser)

theorem variableIdentifier_locates (parser : Parser) :
    Locates file variableIdentifier (fun name => [.name name]) parser :=
  nameAt_locates rfl parser

theorem properIdentifier_locates (parser : Parser) :
    Locates file properIdentifier (fun name => [.name name]) parser :=
  nameAt_locates rfl parser

theorem variableSymbol_locates (parser : Parser) :
    Locates file variableSymbol (fun name => [.name name]) parser := by
  unfold variableSymbol
  simp only [locates_aheadSpan, locates_ahead]
  split
  · rename_i found
    apply LocatesFrom.take (firm_of_kind rfl found)
    exact .pure_over rfl (List.nil_subset _) rfl
  · apply LocatesFrom.fail
    exact .pure_of_unclean (fail_spoils parser)

theorem constructorSymbol_locates (parser : Parser) :
    Locates file constructorSymbol (fun name => [.name name]) parser := by
  unfold constructorSymbol
  simp only [locates_aheadSpan, locates_ahead]
  split
  · rename_i found
    apply LocatesFrom.take (firm_of_kind rfl found)
    exact .pure_over rfl (List.nil_subset _) rfl
  · apply LocatesFrom.fail
    exact .pure_of_unclean (fail_spoils parser)

theorem symbol_locates (parser : Parser) :
    Locates file symbol (fun name => [.name name]) parser := by
  unfold symbol
  simp only [locates_ahead]
  split
  · exact constructorSymbol_locates parser
  · exact variableSymbol_locates parser

section Looking

theorem qualifierFollows_looks (parser : Parser) : Looks qualifierFollows parser := by
  refine .isAt (.ite (fun _ => .pure) fun _ => .bind (.peek (by decide) (by decide))
    fun _ _ => .ite (fun _ => .pure) fun _ => .bind (.peek (by decide) (by decide))
      fun _ _ => .ite (fun _ => ?_) fun _ => .pure)
  exact .aheadSpan (.bind (.peekSpan (by decide) (by decide)) fun _ _ =>
    .bind (.peekSpan (by decide) (by decide)) fun _ _ => .pure)

theorem ahead_of_qualifierFollows (follows : (qualifierFollows parser).1 = true) :
    parser.ahead = .properIdentifier := by
  by_contra other
  have absent : qualifierFollows parser = (false, parser) := by
    change (if (!decide (parser.ahead = .properIdentifier)) = true then _ else _ : Parse Bool)
      parser = _
    rw [if_pos (by simpa using other)]
    rfl
  rw [absent] at follows
  cases follows

theorem qualifiedSymbolFollows_looks (isKind : Token → Bool) (parser : Parser) :
    Looks (qualifiedSymbolFollows isKind) parser :=
  .bind (qualifierFollows_looks parser) fun _ _ =>
    .ite (fun _ => .bind (.peek (by decide) (by decide)) fun _ _ => .pure) fun _ => .pure

theorem quotedFollows_looks (token : Token) (parser : Parser) :
    Looks (quotedFollows token) parser :=
  .isAt (.ite (fun _ => .bind (.peek (by decide) (by decide)) fun _ _ => .pure) fun _ => .pure)

end Looking

theorem qualifiers_locates (parser : Parser) :
    Locates file (many qualifierFollows qualifier) (List.map .name) parser := by
  apply many_locates
  intro start
  apply LocatesFrom.look (qualifierFollows_looks start)
  intro follows after found alike
  cases follows with
  | false => exact .pure rfl
  | true =>
    have proper : after.ahead = .properIdentifier :=
      alike.ahead.trans (ahead_of_qualifierFollows found)
    have round : Locates file qualifier (fun name => [.name name]) after := by
      unfold qualifier
      simp only [locates_aheadSpan]
      exact .take (by rw [proper]; rfl) (.consume (.pure rfl))
    exact round_locates round

theorem ofSegments_locates {origin : Span} {segments : List Name} (read : segments ≠ []) :
    LocatesFrom file origin (segments.map .name) (ofSegments segments) (fun name => [.name name])
      parser := by
  unfold ofSegments
  match segments, read with
  | [name], _ => exact .pure rfl
  | first :: second :: later, _ =>
    rw [ofSegments_several, Span.join]
    split
    · have last : (Node.name first :: (second :: later).map .name).getLast? =
          some (.name ((second :: later).getLast (List.cons_ne_nil second later))) := by
        rw [List.getLast?_cons_of_ne_nil (by simp), List.getLast?_map,
          List.getLast?_eq_some_getLast (List.cons_ne_nil second later)]
        rfl
      refine .reown (fun _ row => ?_) (.pure rfl)
      rw [← List.append_nil (List.map _ _)] at row
      exact @NestedRow.join _ _ _ _ _ [] _ _ _ row last (List.Subset.refl _) rfl
    · rename_i differ
      exact .of_unclean ⟨[], Run.raise trivial trivial differ⟩ (raise_spoils parser _)

theorem segments_locates {origin : Span} {last : Parse Name} {qualifiers : List Name}
    (lastLocates : Locates file last (fun name => [.name name]) parser) :
    LocatesFrom file origin (qualifiers.map .name)
      (do let name ← last; ofSegments (qualifiers ++ [name])) (fun name => [.name name]) parser := by
  apply LocatesFrom.bind lastLocates
  intro name after
  have whole : LocatesFrom file origin ((qualifiers ++ [name]).map .name)
      (ofSegments (qualifiers ++ [name])) (fun name => [.name name]) after :=
    ofSegments_locates (by simp)
  rwa [List.map_append] at whole

theorem qualifiedBy_locates {last : Parse Name}
    (lastLocates : ∀ start, Locates file last (fun name => [.name name]) start)
    (parser : Parser) : Locates file (qualifiedBy last) (fun name => [.name name]) parser := by
  unfold qualifiedBy
  apply LocatesFrom.bind (qualifiers_locates parser)
  intro qualifiers after
  exact segments_locates (lastLocates after)

theorem eitherIdentifier_locates (parser : Parser) :
    Locates file eitherIdentifier (fun name => [.name name]) parser := by
  unfold eitherIdentifier
  simp only [locates_isAt]
  split
  · exact variableIdentifier_locates parser
  · exact properIdentifier_locates parser

theorem qualifiedIdentifier_locates (parser : Parser) :
    Locates file qualifiedIdentifier (fun name => [.name name]) parser :=
  qualifiedBy_locates eitherIdentifier_locates parser

theorem enclosedName_locates {name : Parse Name} {closing : Token} (inner : closing ≠ .endOfInput)
    (nameLocates : ∀ start, Locates file name (fun name => [.name name]) start) (parser : Parser) :
    Locates file
      (do
        consume
        let name ← name
        let _ ← expectOrSkipTo closing
        return name)
      (fun name => [.name name]) parser := by
  apply LocatesFrom.consume
  apply LocatesFrom.bind (nameLocates parser.consume)
  intro name after
  apply LocatesFrom.expectOrSkipTo inner
  intro _ final
  exact .pure rfl

theorem parenthesizedSymbol_locates {last : Parse Name}
    (lastLocates : ∀ start, Locates file last (fun name => [.name name]) start) (parser : Parser) :
    Locates file (parenthesizedSymbol last) (fun name => [.name name]) parser :=
  enclosedName_locates (by decide) (qualifiedBy_locates lastLocates) parser

theorem quotedOperator_locates (parser : Parser) :
    Locates file quotedOperator (fun name => [.name name]) parser :=
  enclosedName_locates (by decide) qualifiedIdentifier_locates parser

theorem variableName_locates (parser : Parser) :
    Locates file variableName (fun name => [.name name]) parser := by
  unfold variableName
  simp only [locates_isAt]
  split
  · exact parenthesizedSymbol_locates variableSymbol_locates parser
  · exact variableIdentifier_locates parser

theorem variableOrConstructor_locates (parser : Parser) :
    Locates file variableOrConstructor (fun name => [.name name]) parser := by
  unfold variableOrConstructor
  simp only [locates_ahead]
  split
  · exact parenthesizedSymbol_locates symbol_locates parser
  · exact properIdentifier_locates parser
  · exact variableIdentifier_locates parser

theorem moduleName_locates (parser : Parser) :
    Locates file moduleName (fun name => [.name name]) parser := by
  have further : ∀ start, Locates file
      (many
        (do if ← isAt .dot then return (← Parse.peek 1) = .properIdentifier else return false)
        (do consume; properIdentifier))
      (List.map .name) start := by
    refine many_locates fun start => ?_
    refine .look (.isAt (.ite (fun _ => .bind (.peek (by decide) (by decide)) fun _ _ => .pure)
      fun _ => .pure)) fun follows after _ _ => ?_
    cases follows with
    | false => exact .pure rfl
    | true =>
      have read : Locates file (do consume; properIdentifier) (fun name => [.name name]) after :=
        .consume ((properIdentifier_locates after.consume).finish fun _ => rfl)
      exact round_locates read
  unfold moduleName
  apply LocatesFrom.bind (properIdentifier_locates parser)
  intro first afterFirst
  apply LocatesFrom.bind (further afterFirst)
  intro later after
  exact @ofSegments_locates _ _ _ (first :: later) (List.cons_ne_nil first later)

theorem qualifiedTerm_locates (parser : Parser) :
    Locates file qualifiedTerm (fun term => [.name term.name]) parser := by
  unfold qualifiedTerm
  apply LocatesFrom.bind (qualifiers_locates parser)
  intro qualifiers after
  simp only [locates_ahead]
  split
  · apply locates_bind_assoc.1
    apply LocatesFrom.chain (segments_locates (symbol_locates after))
    intro name final
    exact .pure rfl
  · apply locates_bind_assoc.1
    apply LocatesFrom.chain (segments_locates (eitherIdentifier_locates after))
    intro name final
    exact .pure rfl

theorem operator?_locates (parser : Parser) :
    Locates file operator? (fun found => found.toList.map .name) parser := by
  unfold operator?
  simp only [locates_ahead]
  split
  · exact round_locates (symbol_locates parser)
  · apply LocatesFrom.look (qualifiedSymbolFollows_looks _ parser)
    intro follows after _ _
    cases follows with
    | true => exact round_locates (qualifiedBy_locates symbol_locates after)
    | false =>
      rw [if_neg Bool.false_ne_true]
      split
      · exact round_locates (quotedOperator_locates after)
      · exact .pure rfl

theorem variableOperator?_locates (parser : Parser) :
    Locates file variableOperator? (fun found => found.toList.map .name) parser := by
  unfold variableOperator?
  simp only [locates_ahead]
  split
  · exact round_locates (variableSymbol_locates parser)
  · apply LocatesFrom.look (quotedFollows_looks _ parser)
    intro follows after _ _
    cases follows with
    | true => exact round_locates (quotedOperator_locates after)
    | false => exact .pure rfl

theorem constructorOperator?_locates (parser : Parser) :
    Locates file constructorOperator? (fun found => found.toList.map .name) parser := by
  unfold constructorOperator?
  simp only [locates_ahead]
  split
  · exact round_locates (constructorSymbol_locates parser)
  · apply LocatesFrom.look (qualifiedSymbolFollows_looks _ parser)
    intro follows afterSymbol _ _
    cases follows with
    | true =>
      exact round_locates (qualifiedBy_locates constructorSymbol_locates afterSymbol)
    | false =>
      rw [if_neg Bool.false_ne_true]
      apply LocatesFrom.look (quotedFollows_looks _ afterSymbol)
      intro follows after _ _
      cases follows with
      | true => exact round_locates (quotedOperator_locates after)
      | false => exact .pure rfl

/-!
Where types stand. A type in brackets goes from the opening bracket on, and a function type from its
parameter to its result. Parentheses around a single type are no part of it.
-/

variable {inner : Level}

theorem arrowConstructor_locates {origin : Span} {owed : List Node} (opened : owed ≠ [])
    (parser : Parser) :
    LocatesFrom file origin owed (arrowConstructor origin) (fun made => [.type made]) parser := by
  unfold arrowConstructor
  apply LocatesFrom.skipAll
  apply LocatesFrom.accept_either (by decide)
  intro _ before
  apply LocatesFrom.expectOrSkipTo (by decide)
  intro _ after
  exact .made_over (fun span => .name (.special span)) opened (by simp)
    (fun _ => rfl) (by simp) fun _ => rfl

theorem parenthesizedType_locates (locates : inner.Locates file)
    (opened : parser.ahead = .openParen) :
    Locates file (parenthesizedType inner) (fun made => [.type made]) parser := by
  unfold parenthesizedType
  simp only [locates_aheadSpan]
  apply LocatesFrom.take (by rw [opened]; rfl)
  apply LocatesFrom.accept (by decide)
  · intro _
    exact .made (by simp) (by simp) fun _ => rfl
  · intro _
    simp only [locates_isAt, if_neg Bool.false_ne_true]
    split
    · exact arrowConstructor_locates (by simp) parser.consume
    · apply LocatesFrom.bind (locates.type parser.consume)
      intro first afterFirst
      simp only [locates_isAt]
      split
      · apply LocatesFrom.bind (many_accept_locates (by decide) locates.type afterFirst)
        intro later afterLater
        apply LocatesFrom.expectOrSkipTo (by decide)
        intro _ after
        exact .made (by simp) (by simp) fun _ => rfl
      · apply LocatesFrom.expectOrSkipTo (by decide)
        intro _ after
        exact .keep (by simp)

theorem listType_locates (locates : inner.Locates file) (opened : parser.ahead = .openBracket) :
    Locates file (listType inner) (fun made => [.type made]) parser := by
  unfold listType
  simp only [locates_aheadSpan]
  apply LocatesFrom.take (by rw [opened]; rfl)
  apply LocatesFrom.accept (by decide)
  · intro _
    exact .made_over (fun span => .name (.special span)) (by simp) (by simp)
      (fun _ => rfl) (by simp) fun _ => rfl
  · intro _
    apply LocatesFrom.bind (locates.type parser.consume)
    intro element afterElement
    apply LocatesFrom.expectOrSkipTo (by decide)
    intro _ after
    exact .made (by simp) (by simp) fun _ => rfl

theorem typeAtom_locates (locates : inner.Locates file) (parser : Parser) :
    Locates file (typeAtom inner) (fun made => [.type made]) parser := by
  unfold typeAtom
  simp only [locates_ahead]
  split
  · apply LocatesFrom.bind (qualifiedIdentifier_locates parser)
    intro name after
    exact .pure_over rfl (List.Subset.refl _) rfl
  · apply LocatesFrom.bind (variableIdentifier_locates parser)
    intro name after
    exact .pure_over rfl (List.Subset.refl _) rfl
  · rename_i opened
    exact parenthesizedType_locates locates opened
  · rename_i opened
    exact listType_locates locates opened
  · exact rejected_locates parser

theorem typeApplication_locates (locates : inner.Locates file) (parser : Parser) :
    Locates file (typeApplication inner) (fun made => [.type made]) parser := by
  unfold typeApplication
  simp only [locates_aheadSpan]
  apply LocatesFrom.bind (typeAtom_locates locates parser)
  intro head afterHead
  apply LocatesFrom.bind (many_while_locates (typeAtom_locates locates) afterHead)
  intro arguments after
  split
  · exact .keep (by simp)
  · exact .made (by simp) (by simp) fun _ => rfl

/-- By induction on the parameters: the type of the later ones comes right after the first, whatever
stands in front. -/
theorem arrows_locates {origin : Span} (front : List Node) (first : TypeTerm)
    (later : List TypeTerm) (parser : Parser) :
    LocatesFrom file origin (front ++ (first :: later).map .type) (arrows first later)
      (fun made => front ++ [.type made]) parser := by
  induction later generalizing front first with
  | nil => exact .pure rfl
  | cons next later induction =>
    have result : LocatesFrom file origin (front ++ (first :: next :: later).map .type)
        (arrows next later) (fun made => front ++ [.type first, .type made]) parser := by
      have behind := induction (front ++ [.type first]) next
      simp only [List.append_assoc] at behind
      exact behind
    apply LocatesFrom.chain result
    intro result after
    apply LocatesFrom.join
    · refine .reown (fun _ row => ?_) (.pure rfl)
      exact @NestedRow.join _ _ _ [] _ front [.type result] (.type first) (.type result) row rfl
        (List.Subset.refl _) rfl
    · exact fun _ _ unclean => .pure_of_unclean unclean

theorem functionType_locates (locates : inner.Locates file) (parser : Parser) :
    Locates file (functionType inner) (fun made => [.type made]) parser := by
  unfold functionType
  apply LocatesFrom.bind (typeApplication_locates locates parser)
  intro first afterFirst
  apply LocatesFrom.bind
    (many_accept_locates (by decide) (typeApplication_locates locates) afterFirst)
  intro later after
  exact arrows_locates [] first later after

theorem typeProduction_locates (locates : inner.Locates file) (parser : Parser) :
    Locates file (typeProduction inner) (fun made => [.type made]) parser := by
  unfold typeProduction
  simp only [locates_aheadSpan]
  apply LocatesFrom.bind (functionType_locates locates parser)
  intro type afterType
  apply LocatesFrom.accept (by decide)
  · intro _
    apply LocatesFrom.bind (functionType_locates locates _)
    intro body after
    exact .made (by simp) (by simp) fun _ => rfl
  · intro _
    exact .pure rfl

end Offside.Haskell.Grammar
