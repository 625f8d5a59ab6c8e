import Offside.Proofs.Grammar.Names
import Offside.Proofs.Parser.Reading

/-!
Names are read with one mark for each of their segments. Dots between segments, parentheses around a
symbol and backticks around an identifier leave none.
-/

namespace Offside.Haskell.Grammar

set_option autoImplicit false

open Offside.Parser Offside.Parse

variable {texts : Position → Option Lexeme} {parser : Parser}

theorem spells_name {found : Token × Span} (named : Leaf.ofKind? found.1 = some .name) :
    Spells texts [.leaf (.name found.2)] [found] :=
  .leaf (by simp [Leaf.ofToken?, named]) .nil

theorem nameAt_reads {token : Token} (inner : token ≠ .endOfInput)
    (named : Leaf.ofKind? token = some .name) (parser : Parser) :
    Reads texts [] (nameAt token) Name.marks parser := by
  unfold nameAt
  simp only [reads_aheadSpan]
  apply ReadsFrom.expect inner
  · intro _
    apply ReadsFrom.settle (spells_name named)
    exact Reads.pure (by simp)
  · exact Reads.pure_of_unclean (fail_spoils parser)

theorem variableIdentifier_reads (parser : Parser) :
    Reads texts [] variableIdentifier Name.marks parser :=
  nameAt_reads (by decide) rfl parser

theorem properIdentifier_reads (parser : Parser) :
    Reads texts [] properIdentifier Name.marks parser :=
  nameAt_reads (by decide) rfl parser

theorem spells_variableOperator {found : Token × Span}
    (isOperator : found.1.isVariableOperator = true) :
    Spells texts [.leaf (.name found.2)] [found] := by
  unfold Token.isVariableOperator at isOperator
  split at isOperator
  · rename_i symbol
    exact spells_name (by rw [symbol]; rfl)
  · rename_i minus
    exact .sign (Or.inl minus) .nil
  · rename_i dot
    exact .sign (Or.inr dot) .nil
  · cases isOperator

theorem spells_constructorOperator {found : Token × Span}
    (isOperator : found.1.isConstructorOperator = true) :
    Spells texts [.leaf (.name found.2)] [found] := by
  unfold Token.isConstructorOperator at isOperator
  split at isOperator
  · rename_i symbol
    exact spells_name (by rw [symbol]; rfl)
  · rename_i colon
    exact spells_name (by rw [colon]; rfl)
  · cases isOperator

theorem variableSymbol_reads (parser : Parser) :
    Reads texts [] variableSymbol Name.marks parser := by
  unfold variableSymbol
  simp only [reads_aheadSpan, reads_ahead]
  split
  · rename_i found
    apply Reads.consume (isAtEnd_of_kind rfl found) (spells_variableOperator found)
    exact Reads.pure (by simp)
  · apply Reads.fail
    exact Reads.pure_of_unclean (fail_spoils parser)

theorem constructorSymbol_reads (parser : Parser) :
    Reads texts [] constructorSymbol Name.marks parser := by
  unfold constructorSymbol
  simp only [reads_aheadSpan, reads_ahead]
  split
  · rename_i found
    apply Reads.consume (isAtEnd_of_kind rfl found) (spells_constructorOperator found)
    exact Reads.pure (by simp)
  · apply Reads.fail
    exact Reads.pure_of_unclean (fail_spoils parser)

theorem symbol_reads (parser : Parser) : Reads texts [] symbol Name.marks parser := by
  unfold symbol
  simp only [reads_ahead]
  split
  · exact constructorSymbol_reads parser
  · exact variableSymbol_reads parser

section Looking

variable {β : Type} {owed : List Mark} {held : List (Token × Span)} {marks : β → List Mark}

/-- Looking for a qualifier passes nothing. One that follows is a proper identifier with a dot after
it. -/
theorem reads_qualifierFollows {next : Bool → Parse β}
    (reads : ∀ follows after, Alike parser after →
      (follows = true → parser.ahead = .properIdentifier ∧ parser.consume.ahead = .dot) →
      ReadsFrom texts owed held (next follows) marks after) :
    ReadsFrom texts owed held (qualifierFollows >>= next) marks parser := by
  unfold qualifierFollows
  simp only [reads_bind_assoc, reads_isAt]
  split
  · exact reads false parser ⟨rfl, rfl, rfl⟩ (by simp)
  · rename_i proper
    have proper : parser.ahead = .properIdentifier := by simpa using proper
    simp only [reads_bind_assoc]
    apply ReadsFrom.peek (Nat.le_refl 1) (by decide)
    intro middle afterMiddle alikeMiddle dot
    split
    · exact reads false afterMiddle alikeMiddle (by simp)
    · rename_i isDot
      have dot : parser.consume.ahead = .dot := by
        rw [← dot rfl]
        simpa using isDot
      simp only [reads_bind_assoc]
      apply ReadsFrom.peek (by decide) (by decide)
      intro last afterLast alikeLast _
      have alike := alikeMiddle.trans alikeLast
      split
      · simp only [reads_bind_assoc, reads_aheadSpan]
        apply ReadsFrom.peekSpan (by decide) (by decide)
        intro _ afterFirst alikeFirst
        simp only [reads_bind_assoc]
        apply ReadsFrom.peekSpan (by decide) (by decide)
        intro _ afterSecond alikeSecond
        exact reads _ afterSecond ((alike.trans alikeFirst).trans alikeSecond)
          fun _ => ⟨proper, dot⟩
      · exact reads false afterLast alike (by simp)

theorem reads_qualifiedSymbolFollows {isKind : Token → Bool} {next : Bool → Parse β}
    (reads : ∀ follows after, Alike parser after →
      ReadsFrom texts owed held (next follows) marks after) :
    ReadsFrom texts owed held (qualifiedSymbolFollows isKind >>= next) marks parser := by
  unfold qualifiedSymbolFollows
  simp only [reads_bind_assoc]
  apply reads_qualifierFollows
  intro follows after alike _
  cases follows with
  | false => exact reads false after alike
  | true =>
    simp only [if_true, reads_bind_assoc]
    apply ReadsFrom.peek (by decide) (by decide)
    intro token final alikeFinal _
    exact reads _ final (alike.trans alikeFinal)

theorem reads_quotedFollows {token : Token} {next : Bool → Parse β}
    (reads : ∀ follows after, Alike parser after →
      (follows = true → parser.ahead = .backtick) →
      ReadsFrom texts owed held (next follows) marks after) :
    ReadsFrom texts owed held (quotedFollows token >>= next) marks parser := by
  unfold quotedFollows
  simp only [reads_bind_assoc, reads_isAt]
  split
  · rename_i quoted
    simp only [reads_bind_assoc]
    apply ReadsFrom.peek (Nat.le_refl 1) (by decide)
    intro found after alike _
    exact reads _ after alike fun _ => by simpa using quoted
  · exact reads false parser ⟨rfl, rfl, rfl⟩ (by simp)

end Looking

theorem qualifier_reads (proper : parser.ahead = .properIdentifier)
    (dot : parser.consume.ahead = .dot) : Reads texts [] qualifier Name.marks parser := by
  unfold qualifier
  simp only [reads_aheadSpan]
  apply Reads.consume (isAtEnd_of_ahead (by decide) proper) (spells_name (by rw [proper]; rfl))
  apply Reads.pass dot rfl
  exact Reads.pure (by simp)

theorem qualifiers_reads (parser : Parser) :
    Reads texts [] (many qualifierFollows qualifier) (List.flatMap Name.marks) parser := by
  apply many_reads
  intro start
  apply reads_qualifierFollows
  intro follows after alike found
  cases follows with
  | false => exact Reads.pure rfl
  | true =>
    obtain ⟨proper, dot⟩ := found rfl
    apply Reads.bind (qualifier_reads (alike.ahead.trans proper) (alike.next.trans dot))
    intro name final
    exact Reads.pure rfl

theorem ofSegments_reads (segments : List Name) (parser : Parser) :
    Reads texts (segments.flatMap Name.marks) (ofSegments segments) Name.marks parser := by
  unfold ofSegments
  match segments with
  | [] => exact Reads.pure (by simp)
  | [name] => exact Reads.pure (by simp)
  | first :: second :: later =>
    rw [ofSegments_several, Span.join]
    split
    · exact Reads.pure (by simp)
    · rename_i differ
      exact ReadsFrom.of_unclean ⟨[], Run.raise trivial trivial differ⟩ (raise_spoils parser _)

theorem segments_reads {last : Parse Name} {qualifiers : List Name}
    (lastReads : Reads texts [] last Name.marks parser) :
    Reads texts (qualifiers.flatMap Name.marks)
      (do let name ← last; ofSegments (qualifiers ++ [name])) Name.marks parser := by
  apply Reads.bind lastReads
  intro name after
  have reads : Reads texts _ _ Name.marks after := ofSegments_reads (qualifiers ++ [name]) after
  simpa using reads

theorem qualifiedBy_reads {last : Parse Name}
    (lastReads : ∀ start, Reads texts [] last Name.marks start) (parser : Parser) :
    Reads texts [] (qualifiedBy last) Name.marks parser := by
  unfold qualifiedBy
  apply Reads.bind (qualifiers_reads parser)
  intro qualifiers after
  exact segments_reads (lastReads after)

theorem eitherIdentifier_reads (parser : Parser) :
    Reads texts [] eitherIdentifier Name.marks parser := by
  unfold eitherIdentifier
  simp only [reads_isAt]
  split
  · exact variableIdentifier_reads parser
  · exact properIdentifier_reads parser

theorem qualifiedIdentifier_reads (parser : Parser) :
    Reads texts [] qualifiedIdentifier Name.marks parser :=
  qualifiedBy_reads eitherIdentifier_reads parser

theorem enclosedName_reads {name : Parse Name} {opening closing : Token}
    (found : parser.ahead = opening) (quietOpening : opening.isQuiet = true)
    (quietClosing : closing.isQuiet = true)
    (nameReads : ∀ start, Reads texts [] name Name.marks start) :
    Reads texts []
      (do
        consume
        let name ← name
        let _ ← expectOrSkipTo closing
        return name)
      Name.marks parser := by
  apply Reads.pass found quietOpening
  apply Reads.bind (nameReads parser.consume)
  intro name after
  apply Reads.expectOrSkipTo quietClosing
  intro _ final
  exact Reads.pure rfl

theorem parenthesizedSymbol_reads {last : Parse Name} (found : parser.ahead = .openParen)
    (lastReads : ∀ start, Reads texts [] last Name.marks start) :
    Reads texts [] (parenthesizedSymbol last) Name.marks parser :=
  enclosedName_reads found rfl rfl (qualifiedBy_reads lastReads)

theorem quotedOperator_reads (found : parser.ahead = .backtick) :
    Reads texts [] quotedOperator Name.marks parser :=
  enclosedName_reads found rfl rfl qualifiedIdentifier_reads

theorem variableName_reads (parser : Parser) :
    Reads texts [] variableName Name.marks parser := by
  unfold variableName
  simp only [reads_isAt]
  split
  · rename_i found
    exact parenthesizedSymbol_reads (by simpa using found) variableSymbol_reads
  · exact variableIdentifier_reads parser

theorem variableOrConstructor_reads (parser : Parser) :
    Reads texts [] variableOrConstructor Name.marks parser := by
  unfold variableOrConstructor
  simp only [reads_ahead]
  split
  · rename_i found
    exact parenthesizedSymbol_reads found symbol_reads
  · exact properIdentifier_reads parser
  · exact variableIdentifier_reads parser

theorem moduleName_reads (parser : Parser) : Reads texts [] moduleName Name.marks parser := by
  unfold moduleName
  apply Reads.bind (properIdentifier_reads parser)
  intro first afterFirst
  have later : Reads texts []
      (many
        (do if ← isAt .dot then return (← Parse.peek 1) = .properIdentifier else return false)
        (do consume; properIdentifier))
      (List.flatMap Name.marks) afterFirst := by
    apply many_reads
    intro start
    unfold oneRound
    simp only [reads_bind_assoc, reads_isAt]
    split
    · rename_i dot
      have dot : start.ahead = .dot := by simpa using dot
      simp only [reads_bind_assoc]
      apply ReadsFrom.peek (Nat.le_refl 1) (by decide)
      intro found after alike _
      simp only [reads_pure_bind]
      split
      · simp only [reads_bind_assoc]
        apply Reads.pass (alike.ahead.trans dot) rfl
        apply Reads.bind (properIdentifier_reads after.consume)
        intro name final
        exact Reads.pure rfl
      · exact Reads.pure rfl
    · exact Reads.pure rfl
  apply Reads.bind later
  intro names after
  exact ofSegments_reads (first :: names) after

theorem qualifiedTerm_reads (parser : Parser) :
    Reads texts [] qualifiedTerm (fun term => term.name.marks) parser := by
  unfold qualifiedTerm
  apply Reads.bind (qualifiers_reads parser)
  intro qualifiers after
  simp only [reads_ahead]
  split
  · apply reads_bind_assoc.1
    apply Reads.chain (segments_reads (symbol_reads after))
    intro name final
    exact Reads.pure rfl
  · apply reads_bind_assoc.1
    apply Reads.chain (segments_reads (eitherIdentifier_reads after))
    intro name final
    exact Reads.pure rfl

abbrev operatorMarks (found : Option Name) : List Mark := found.elim [] Name.marks

theorem some_reads {name : Parse Name} (nameReads : Reads texts [] name Name.marks parser) :
    Reads texts [] (do return some (← name)) operatorMarks parser := by
  apply Reads.bind nameReads
  intro found after
  exact Reads.pure rfl

theorem operator?_reads (parser : Parser) : Reads texts [] operator? operatorMarks parser := by
  unfold operator?
  simp only [reads_ahead]
  split
  · exact some_reads (symbol_reads parser)
  · apply reads_qualifiedSymbolFollows
    intro follows after alike
    cases follows with
    | true => exact some_reads (qualifiedBy_reads symbol_reads after)
    | false =>
      rw [if_neg Bool.false_ne_true]
      split
      · rename_i quoted
        exact some_reads (quotedOperator_reads (alike.ahead.trans quoted))
      · exact Reads.pure rfl

theorem variableOperator?_reads (parser : Parser) :
    Reads texts [] variableOperator? operatorMarks parser := by
  unfold variableOperator?
  simp only [reads_ahead]
  split
  · exact some_reads (variableSymbol_reads parser)
  · apply reads_quotedFollows
    intro follows after alike quoted
    cases follows with
    | true => exact some_reads (quotedOperator_reads (alike.ahead.trans (quoted rfl)))
    | false => exact Reads.pure rfl

theorem constructorOperator?_reads (parser : Parser) :
    Reads texts [] constructorOperator? operatorMarks parser := by
  unfold constructorOperator?
  simp only [reads_ahead]
  split
  · exact some_reads (constructorSymbol_reads parser)
  · apply reads_qualifiedSymbolFollows
    intro follows afterSymbol alikeSymbol
    cases follows with
    | true => exact some_reads (qualifiedBy_reads constructorSymbol_reads afterSymbol)
    | false =>
      rw [if_neg Bool.false_ne_true]
      apply reads_quotedFollows
      intro follows after alike quoted
      cases follows with
      | true => exact some_reads (quotedOperator_reads (alike.ahead.trans (quoted rfl)))
      | false => exact Reads.pure rfl

end Offside.Haskell.Grammar
