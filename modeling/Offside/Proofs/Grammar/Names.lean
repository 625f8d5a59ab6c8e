import Offside.Haskell.Grammar.Names
import Offside.Proofs.Parser.Repetition
import Offside.Proofs.Tree.Errors

/-!
Names end with every missing segment reported where it is missing. Reading a name passes a token
unless the input has ended.
-/

namespace Offside

set_option autoImplicit false

/-- The error nodes of a name were reported, and its span may be joined with others. -/
abbrev Name.Backed (files : FileId → Prop) (name : Name) (parser : Parser) : Prop :=
  parser.Backs files name.errors name.span

theorem Name.stable_backed (files : FileId → Prop) : Parse.Stable files (Name.Backed files) :=
  fun _ _ _ leads backed => leads.backs backed

theorem Name.backed_of_no_errors {files : FileId → Prop} {name : Name} {parser : Parser}
    (sound : name.errors = []) (placed : parser.Places files name.span) :
    name.Backed files parser :=
  ⟨by rw [sound]; exact parser.accounts_nil, placed⟩

theorem Name.backed_error {files : FileId → Prop} {span : Span} {parser : Parser}
    (accounted : parser.Accounts [span]) (placed : parser.Places files span) :
    (Name.error span).Backed files parser :=
  ⟨by simpa using accounted, placed⟩

namespace Parser

theorem accounts_names {parser : Parser} {names : List Name} :
    parser.Accounts (Name.listErrors names) ↔ ∀ name ∈ names, parser.Accounts name.errors :=
  accounts_collected (fun _ => Name.mem_listErrors) parser

end Parser

namespace Haskell.Grammar

open Offside.Parser Offside.Parse

variable {files : FileId → Prop} {further : Nat} {parser : Parser}

def readsName (files : FileId → Prop) (parser : Parser) (name : Name) (after : Parser) : Prop :=
  name.Backed files after ∧ (parser.isAtEnd = false → after.remaining < parser.remaining)

theorem nameAt_ends {token : Token} (inner : token ≠ .endOfInput) (parser : Parser) :
    Ends files further (nameAt token) parser (readsName files parser) := by
  unfold nameAt
  apply Ends.of_ready
  intro ready
  simp only [ends_aheadSpan]
  apply Ends.bind (expect_ends inner parser)
  intro found after leads ended
  have placed := leads.places ready.toValid.placed
  cases found with
  | true => exact Ends.pure ⟨Name.backed_of_no_errors (by simp) placed, ended.2⟩
  | false => exact Ends.pure ⟨Name.backed_error (ended.1 rfl) placed, ended.2⟩

theorem variableIdentifier_ends (parser : Parser) :
    Ends files further variableIdentifier parser (readsName files parser) :=
  nameAt_ends (by decide) parser

theorem properIdentifier_ends (parser : Parser) :
    Ends files further properIdentifier parser (readsName files parser) :=
  nameAt_ends (by decide) parser

theorem isAtEnd_of_kind {isKind : Token → Bool} (inner : isKind .endOfInput = false)
    (found : isKind parser.ahead = true) : parser.isAtEnd = false := by
  simp only [Parser.isAtEnd, decide_eq_false_iff_not]
  intro ended
  rw [ended, inner] at found
  cases found

/-- A symbol of some kind, and the name that is built from its span. -/
theorem symbolOf_ends {isKind : Token → Bool} {build : Span → Name}
    (inner : isKind .endOfInput = false) (sound : ∀ span, (build span).errors = [])
    (spanned : ∀ span, (build span).span = span) (parser : Parser) :
    Ends files further
      (do
        let span ← aheadSpan
        if isKind (← ahead) then
          consume
          return build span
        else
          fail
          return .error span)
      parser (readsName files parser) := by
  apply Ends.of_ready
  intro ready
  simp only [ends_aheadSpan, ends_ahead]
  split
  · rename_i found
    have inside := isAtEnd_of_kind inner found
    apply Ends.consume inside
    intro leads
    refine Ends.pure ⟨Name.backed_of_no_errors (sound _) ?_, remaining_consume_lt⟩
    rw [spanned]
    exact leads.places ready.toValid.placed
  · apply Ends.fail
    intro leads
    have placed := leads.places ready.toValid.placed
    exact Ends.pure ⟨Name.backed_error (fail_accounts ready.toValid) placed, remaining_fail_lt⟩

theorem variableSymbol_ends (parser : Parser) :
    Ends files further variableSymbol parser (readsName files parser) :=
  symbolOf_ends rfl (by simp) (by simp [Name.span]) parser

theorem constructorSymbol_ends (parser : Parser) :
    Ends files further constructorSymbol parser (readsName files parser) :=
  symbolOf_ends rfl (by simp) (by simp [Name.span]) parser

theorem symbol_ends (parser : Parser) :
    Ends files further symbol parser (readsName files parser) := by
  unfold symbol
  simp only [ends_ahead]
  split
  · exact constructorSymbol_ends parser
  · exact variableSymbol_ends parser

/-- A qualifier that follows is a proper identifier with a dot after it. -/
theorem qualifierFollows_ends (parser : Parser) :
    Ends files further qualifierFollows parser fun follows after =>
      Alike parser after ∧
        (follows = true → parser.ahead = .properIdentifier ∧ parser.consume.ahead = .dot) := by
  unfold qualifierFollows
  simp only [ends_isAt]
  split
  · exact Ends.pure ⟨⟨rfl, rfl, rfl⟩, by simp⟩
  · rename_i proper
    have proper : parser.ahead = .properIdentifier := by simpa using proper
    apply Ends.peek (Nat.le_refl 1) (by decide)
    intro middle afterMiddle _ alikeMiddle next
    split
    · exact Ends.pure ⟨alikeMiddle, by simp⟩
    · rename_i isDot
      have dot : parser.consume.ahead = .dot := by
        rw [← next rfl]
        simpa using isDot
      apply Ends.peek (by decide) (by decide)
      intro last afterLast _ alikeLast _
      have alike := alikeMiddle.trans alikeLast
      split
      · simp only [ends_aheadSpan]
        apply Ends.peekSpan (by decide) (by decide)
        intro _ afterFirst _ alikeFirst
        apply Ends.peekSpan (by decide) (by decide)
        intro _ afterSecond _ alikeSecond
        exact Ends.pure ⟨(alike.trans alikeFirst).trans alikeSecond, fun _ => ⟨proper, dot⟩⟩
      · exact Ends.pure ⟨alike, by simp⟩

theorem qualifier_ends (first : parser.ahead = .properIdentifier)
    (second : parser.consume.ahead = .dot) :
    Ends files further qualifier parser fun name after =>
      after.remaining < parser.remaining ∧ name.Backed files after := by
  unfold qualifier
  apply Ends.of_ready
  intro ready
  have inside := isAtEnd_of_ahead (by decide) first
  have insideNext := isAtEnd_of_ahead (by decide) second
  simp only [ends_aheadSpan]
  apply Ends.consume inside
  intro leads
  apply Ends.consume insideNext
  intro leadsNext
  have placed := (leads.trans leadsNext).places ready.toValid.placed
  have fewer := Nat.lt_trans (remaining_consume_lt insideNext) (remaining_consume_lt inside)
  exact Ends.pure ⟨fewer, Name.backed_of_no_errors (by simp) placed⟩

theorem qualifiers_ends (parser : Parser) :
    Ends files further (many qualifierFollows qualifier) parser fun names after =>
      ∀ name ∈ names, name.Backed files after := by
  apply many_ends (Name.stable_backed files)
  intro start
  apply (qualifierFollows_ends start).mono
  intro follows after leads ended goes
  obtain ⟨proper, next⟩ := ended.2 goes
  apply (qualifier_ends (ended.1.ahead.trans proper) (ended.1.next.trans next)).mono
  intro name final _ held
  exact ⟨Nat.lt_of_lt_of_le held.1 leads.remaining_le, held.2⟩

theorem ofSegments_several (first second : Name) (later : List Name) :
    Name.ofSegments (first :: second :: later) =
      (first.span.join ((second :: later).getLast (List.cons_ne_nil _ _)).span).map
        (.qualified (first :: second :: later)) := by
  simp only [Name.ofSegments, bind, Except.bind, pure, Except.pure, Except.map]

theorem ofSegments_ends {segments : List Name} (nonempty : segments ≠ [])
    (backed : ∀ name ∈ segments, name.Backed files parser) :
    Ends files further (ofSegments segments) parser fun name after => name.Backed files after := by
  unfold ofSegments
  match segments, nonempty, backed with
  | [name], _, backed => exact Ends.pure (backed name List.mem_cons_self)
  | first :: second :: later, _, backed =>
    have firstBacked := backed first List.mem_cons_self
    have lastBacked := backed _ (List.mem_cons_of_mem first
      (List.getLast_mem (List.cons_ne_nil second later)))
    rw [ofSegments_several, Span.join]
    split
    · refine Ends.pure ⟨?_, firstBacked.placed⟩
      rw [Name.errors, accounts_names]
      exact fun name member => (backed name member).accounted
    · rename_i differ
      intro _
      have harmed := raise_fault_ne_none parser (.filesDiffer first.span.file
        ((second :: later).getLast (List.cons_ne_nil second later)).span.file)
      exact ⟨Leads.raise firstBacked.placed lastBacked.placed differ,
        fun unharmed => absurd unharmed harmed, fun unharmed => absurd unharmed harmed⟩

theorem segments_ends {last : Parse Name} {qualifiers : List Name}
    (backed : ∀ name ∈ qualifiers, name.Backed files parser)
    (lastEnds : Ends files further last parser (readsName files parser)) :
    Ends files further (do let name ← last; ofSegments (qualifiers ++ [name])) parser
      (readsName files parser) := by
  apply Ends.bind lastEnds
  intro name afterName leadsName read
  have segments : ∀ segment ∈ qualifiers ++ [name], segment.Backed files afterName := by
    intro segment member
    rcases List.mem_append.1 member with earlier | final
    · exact Name.stable_backed files segment _ _ leadsName (backed segment earlier)
    · rw [List.mem_singleton.1 final]
      exact read.1
  apply (ofSegments_ends (by simp) segments).mono
  intro whole final leadsWhole held
  exact ⟨held, fun inside => Nat.lt_of_le_of_lt leadsWhole.remaining_le (read.2 inside)⟩

/-- A name that is read after steps which may have passed a token themselves. -/
theorem readsName.after {middle final : Parser} {name : Name} (leads : Leads files parser middle)
    (goesOn : Leads files middle final) (read : readsName files middle name final) :
    readsName files parser name final := by
  refine ⟨read.1, fun inside => ?_⟩
  rcases leads.progress_or_still with progress | still
  · exact Nat.lt_of_le_of_lt goesOn.remaining_le progress
  · have insideMiddle : middle.isAtEnd = false := by
      simpa [Parser.isAtEnd, still.1] using inside
    exact Nat.lt_of_lt_of_le (read.2 insideMiddle) leads.remaining_le

theorem qualifiedBy_ends {last : Parse Name}
    (lastEnds : ∀ start, Ends files further last start (readsName files start))
    (parser : Parser) : Ends files further (qualifiedBy last) parser (readsName files parser) := by
  unfold qualifiedBy
  apply Ends.bind (qualifiers_ends parser)
  intro qualifiers after leads backed
  apply (segments_ends backed (lastEnds after)).mono
  intro name final goesOn read
  exact read.after leads goesOn

theorem eitherIdentifier_ends (parser : Parser) :
    Ends files further eitherIdentifier parser (readsName files parser) := by
  unfold eitherIdentifier
  simp only [ends_isAt]
  split
  · exact variableIdentifier_ends parser
  · exact properIdentifier_ends parser

theorem qualifiedIdentifier_ends (parser : Parser) :
    Ends files further qualifiedIdentifier parser (readsName files parser) :=
  qualifiedBy_ends eitherIdentifier_ends parser

/-- A name between two marks, the first of which is passed unseen. -/
theorem enclosedName_ends {name : Parse Name} {mark : Token} (inner : mark ≠ .endOfInput)
    (nameEnds : ∀ start, Ends files further name start (readsName files start))
    (inside : parser.isAtEnd = false) :
    Ends files further
      (do
        consume
        let name ← name
        let _ ← expectOrSkipTo mark
        return name)
      parser (readsName files parser) := by
  apply Ends.consume inside
  intro leads
  apply Ends.bind (nameEnds parser.consume)
  intro name afterName leadsName read
  apply Ends.expectOrSkipTo inner
  intro _ after leadsAfter
  refine Ends.pure ⟨Name.stable_backed files name _ _ leadsAfter read.1, fun _ => ?_⟩
  have fewer := Nat.le_trans leadsAfter.remaining_le leadsName.remaining_le
  exact Nat.lt_of_le_of_lt fewer (remaining_consume_lt inside)

theorem parenthesizedSymbol_ends {last : Parse Name}
    (lastEnds : ∀ start, Ends files further last start (readsName files start))
    (inside : parser.isAtEnd = false) :
    Ends files further (parenthesizedSymbol last) parser (readsName files parser) :=
  enclosedName_ends (by decide) (qualifiedBy_ends lastEnds) inside

theorem quotedOperator_ends (inside : parser.isAtEnd = false) :
    Ends files further quotedOperator parser (readsName files parser) :=
  enclosedName_ends (by decide) qualifiedIdentifier_ends inside

theorem variableName_ends (parser : Parser) :
    Ends files further variableName parser (readsName files parser) := by
  unfold variableName
  simp only [ends_isAt]
  split
  · rename_i found
    have found : parser.ahead = .openParen := by simpa using found
    exact parenthesizedSymbol_ends variableSymbol_ends (isAtEnd_of_ahead (by decide) found)
  · exact variableIdentifier_ends parser

theorem variableOrConstructor_ends (parser : Parser) :
    Ends files further variableOrConstructor parser (readsName files parser) := by
  unfold variableOrConstructor
  simp only [ends_ahead]
  split
  · rename_i found
    exact parenthesizedSymbol_ends symbol_ends (isAtEnd_of_ahead (by decide) found)
  · exact properIdentifier_ends parser
  · exact variableIdentifier_ends parser

theorem moduleName_ends (parser : Parser) :
    Ends files further moduleName parser (readsName files parser) := by
  unfold moduleName
  apply Ends.bind (properIdentifier_ends parser)
  intro first afterFirst leadsFirst read
  have later : Ends files further
      (many
        (do if ← isAt .dot then return (← Parse.peek 1) = .properIdentifier else return false)
        (do consume; properIdentifier))
      afterFirst fun names after => ∀ name ∈ names, name.Backed files after := by
    apply many_ends (Name.stable_backed files)
    intro start
    simp only [ends_isAt]
    split
    · rename_i dot
      have dot : start.ahead = .dot := by simpa using dot
      apply Ends.peek (Nat.le_refl 1) (by decide)
      intro next after leads alike _
      apply Ends.pure
      intro _
      have inside : after.isAtEnd = false := isAtEnd_of_ahead (by decide) (alike.ahead.trans dot)
      apply Ends.consume inside
      intro leadsDot
      apply (properIdentifier_ends after.consume).mono
      intro name final leadsName held
      have fewer := Nat.lt_of_lt_of_le (remaining_consume_lt inside) leads.remaining_le
      exact ⟨Nat.lt_of_le_of_lt leadsName.remaining_le fewer, held.1⟩
    · exact Ends.pure (by simp)
  apply Ends.bind later
  intro names afterNames leads backed
  have segments : ∀ segment ∈ first :: names, segment.Backed files afterNames := by
    intro segment member
    rcases List.mem_cons.1 member with rfl | member
    · exact Name.stable_backed files segment _ _ leads read.1
    · exact backed segment member
  apply (ofSegments_ends (List.cons_ne_nil first names) segments).mono
  intro whole final leadsWhole held
  refine ⟨held, fun inside => ?_⟩
  have fewer := Nat.le_trans leadsWhole.remaining_le leads.remaining_le
  exact Nat.lt_of_le_of_lt fewer (read.2 inside)

def Term.name : Term → Name
  | .operand name | .operator name => name

theorem qualifiedTerm_ends (parser : Parser) :
    Ends files further qualifiedTerm parser fun term after =>
      readsName files parser term.name after := by
  unfold qualifiedTerm
  apply Ends.bind (qualifiers_ends parser)
  intro qualifiers after leads backed
  simp only [ends_ahead]
  split
  · apply ends_bind_assoc.1
    apply Ends.bind (segments_ends backed (symbol_ends after))
    intro name final goesOn read
    exact Ends.pure (read.after leads goesOn)
  · apply ends_bind_assoc.1
    apply Ends.bind (segments_ends backed (eitherIdentifier_ends after))
    intro name final goesOn read
    exact Ends.pure (read.after leads goesOn)

theorem qualifiedSymbolFollows_ends {isKind : Token → Bool} (parser : Parser) :
    Ends files further (qualifiedSymbolFollows isKind) parser fun follows after =>
      Alike parser after ∧ (follows = true → parser.isAtEnd = false) := by
  unfold qualifiedSymbolFollows
  apply Ends.bind (qualifierFollows_ends parser)
  intro follows afterFirst _ ended
  cases follows with
  | false => exact Ends.pure ⟨ended.1, by simp⟩
  | true =>
    apply Ends.peek (by decide) (by decide)
    intro token after _ alike _
    exact Ends.pure ⟨ended.1.trans alike, fun _ => isAtEnd_of_ahead (by decide) (ended.2 rfl).1⟩

theorem quotedFollows_ends {token : Token} (parser : Parser) :
    Ends files further (quotedFollows token) parser fun follows after =>
      Alike parser after ∧ (follows = true → parser.isAtEnd = false) := by
  unfold quotedFollows
  simp only [ends_isAt]
  split
  · rename_i quoted
    have quoted : parser.ahead = .backtick := by simpa using quoted
    apply Ends.peek (Nat.le_refl 1) (by decide)
    intro next after _ alike _
    exact Ends.pure ⟨alike, fun _ => isAtEnd_of_ahead (by decide) quoted⟩
  · exact Ends.pure ⟨⟨rfl, rfl, rfl⟩, by simp⟩

def readsOperator (files : FileId → Prop) (parser : Parser) (found : Option Name)
    (after : Parser) : Prop :=
  ∀ name ∈ found, name.Backed files after ∧ after.remaining < parser.remaining

theorem readsOperator_none (files : FileId → Prop) (parser after : Parser) :
    readsOperator files parser none after := by
  intro name member
  cases member

theorem some_ends {name : Parse Name} {middle : Parser} (leads : Leads files parser middle)
    (inside : middle.isAtEnd = false)
    (nameEnds : Ends files further name middle (readsName files middle)) :
    Ends files further (do return some (← name)) middle (readsOperator files parser) := by
  apply Ends.bind nameEnds
  intro found after _ read
  apply Ends.pure
  intro name member
  rw [← Option.some.inj member]
  exact ⟨read.1, Nat.lt_of_lt_of_le (read.2 inside) leads.remaining_le⟩

theorem operator?_ends (parser : Parser) :
    Ends files further operator? parser (readsOperator files parser) := by
  unfold operator?
  simp only [ends_ahead]
  split
  · rename_i found
    exact some_ends (Leads.refl parser) (isAtEnd_of_kind rfl found) (symbol_ends parser)
  · apply Ends.bind (qualifiedSymbolFollows_ends parser)
    intro follows after leads ended
    have same := ended.1.isAtEnd
    cases follows with
    | true =>
      exact some_ends leads (same.trans (ended.2 rfl)) (qualifiedBy_ends symbol_ends after)
    | false =>
      rw [if_neg Bool.false_ne_true]
      split
      · rename_i quoted
        have inside := same.trans (isAtEnd_of_ahead (by decide) quoted)
        exact some_ends leads inside (quotedOperator_ends inside)
      · exact Ends.pure (readsOperator_none files parser after)

theorem variableOperator?_ends (parser : Parser) :
    Ends files further variableOperator? parser (readsOperator files parser) := by
  unfold variableOperator?
  simp only [ends_ahead]
  split
  · rename_i found
    exact some_ends (Leads.refl parser) (isAtEnd_of_kind rfl found) (variableSymbol_ends parser)
  · apply Ends.bind (quotedFollows_ends parser)
    intro follows after leads ended
    cases follows with
    | true =>
      have inside := ended.1.isAtEnd.trans (ended.2 rfl)
      exact some_ends leads inside (quotedOperator_ends inside)
    | false => exact Ends.pure (readsOperator_none files parser after)

theorem constructorOperator?_ends (parser : Parser) :
    Ends files further constructorOperator? parser (readsOperator files parser) := by
  unfold constructorOperator?
  simp only [ends_ahead]
  split
  · rename_i found
    exact some_ends (Leads.refl parser) (isAtEnd_of_kind rfl found) (constructorSymbol_ends parser)
  · apply Ends.bind (qualifiedSymbolFollows_ends parser)
    intro follows afterSymbol leadsSymbol endedSymbol
    cases follows with
    | true =>
      have inside := endedSymbol.1.isAtEnd.trans (endedSymbol.2 rfl)
      exact some_ends leadsSymbol inside (qualifiedBy_ends constructorSymbol_ends afterSymbol)
    | false =>
      rw [if_neg Bool.false_ne_true]
      apply Ends.bind (quotedFollows_ends afterSymbol)
      intro quoted after leads ended
      cases quoted with
      | true =>
        have inside := ended.1.isAtEnd.trans (ended.2 rfl)
        exact some_ends (leadsSymbol.trans leads) inside (quotedOperator_ends inside)
      | false => exact Ends.pure (readsOperator_none files parser after)

end Haskell.Grammar

end Offside
