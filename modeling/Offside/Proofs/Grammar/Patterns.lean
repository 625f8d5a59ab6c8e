import Offside.Haskell.Grammar.Patterns
import Offside.Proofs.Grammar.Types

/-!
Patterns end with every missing part reported, and atoms pass a token each.
-/

namespace Offside

set_option autoImplicit false

@[simp] theorem Parser.accounts_exprs {parser : Parser} {exprs : List Expr} :
    parser.Accounts (Expr.listErrors exprs) ↔ ∀ expr ∈ exprs, parser.Accounts expr.errors :=
  accounts_collected (fun _ => Expr.mem_listErrors) parser

namespace Haskell.Grammar

open Offside.Parser Offside.Parse

variable {files : FileId → Prop} {further : Nat} {inner : Level} {parser : Parser}

def readsExpr (files : FileId → Prop) (parser : Parser) (expr : Expr) (after : Parser) : Prop :=
  expr.Backed files after ∧ after.remaining < parser.remaining

theorem backed_identifier {name : Name} (backed : name.Backed files parser) :
    (Expr.identifier name).Backed files parser :=
  ⟨by simpa using backed.accounted, backed.placed⟩

theorem backed_error {span : Span} (backed : parser.Backs files [span] span) :
    (Expr.error span).Backed files parser :=
  ⟨by simpa using backed.accounted, backed.placed⟩

theorem literal_ends (parser : Parser) :
    Ends files further literal parser fun expr after =>
      expr.Backed files after ∧
        (closesOperand parser.ahead = false → after.remaining < parser.remaining) := by
  unfold literal
  apply Ends.of_ready
  intro ready
  simp only [ends_ahead]
  split
  · rename_i kind found
    have inside : parser.isAtEnd = false := by
      simp only [Parser.isAtEnd, decide_eq_false_iff_not]
      intro ended
      rw [ended] at found
      cases found
    simp only [ends_aheadSpan]
    apply Ends.consume inside
    intro leads
    have placed := leads.places ready.toValid.placed
    exact Ends.pure ⟨⟨by simp, placed⟩, fun _ => remaining_consume_lt inside⟩
  · apply Ends.bind (reject_ends parser)
    intro span after _ rejected
    exact Ends.pure ⟨backed_error rejected.1, rejected.2⟩

theorem tupleConstructor_ends {start : Span} (placed : parser.Places files start) :
    Ends files further (tupleConstructor start) parser (Expr.Backed files) := by
  unfold tupleConstructor
  apply Ends.skipAll
  intro leadsCommas
  apply Ends.expectOrSkipTo (by decide)
  intro _ after leads
  have placedEnd := (leadsCommas.trans leads).places placed
  exact Ends.pure ⟨by simp, placedEnd.spanFrom⟩

theorem aliasAfter_ends {atom : Parse Expr} {start : Span} {name : Name}
    (atomEnds : ∀ start, Ends files further atom start (Expr.Backed files))
    (placed : parser.Places files start) (backed : name.Backed files parser) :
    Ends files further (aliasAfter atom start name) parser (Expr.Backed files) := by
  unfold aliasAfter
  apply Ends.accept (by decide)
  · intro _ leadsSign
    apply Ends.bind (atomEnds parser.consume)
    intro pattern after leads backedPattern
    have goesOn := leadsSign.trans leads
    refine Ends.pure ⟨?_, (goesOn.places placed).spanFrom⟩
    simpa using And.intro (goesOn.accounts backed.accounted) backedPattern.accounted
  · intro _
    exact Ends.pure (backed_identifier backed)

theorem variableOrAlias_ends {atom : Parse Expr}
    (atomEnds : ∀ start, Ends files further atom start (Expr.Backed files))
    (inside : parser.isAtEnd = false) :
    Ends files further (variableOrAlias atom) parser (readsExpr files parser) := by
  unfold variableOrAlias
  apply Ends.of_ready
  intro ready
  simp only [ends_aheadSpan]
  apply Ends.bind (variableIdentifier_ends parser)
  intro name middle leads read
  have placed := leads.places ready.toValid.placed
  apply (aliasAfter_ends atomEnds placed read.1).mono
  intro expr after goesOn backed
  exact ⟨backed, Nat.lt_of_le_of_lt goesOn.remaining_le (read.2 inside)⟩

theorem lazyPattern_ends {atom : Parse Expr}
    (atomEnds : ∀ start, Ends files further atom start (Expr.Backed files))
    (inside : parser.isAtEnd = false) :
    Ends files further (lazyPattern atom) parser (readsExpr files parser) := by
  unfold lazyPattern
  apply Ends.of_ready
  intro ready
  simp only [ends_aheadSpan]
  apply Ends.passing inside
  intro leadsTilde
  apply Ends.bind (atomEnds parser.consume)
  intro pattern after leads backed
  have placed := (leadsTilde.trans leads).places ready.toValid.placed
  refine Ends.pure ⟨?_, placed.spanFrom⟩
  simpa using backed.accounted

theorem wildcard_ends (inside : parser.isAtEnd = false) :
    Ends files further wildcard parser (readsExpr files parser) := by
  unfold wildcard
  apply Ends.of_ready
  intro ready
  simp only [ends_aheadSpan]
  apply Ends.passing inside
  intro leads
  exact Ends.pure ⟨by simp, leads.places ready.toValid.placed⟩

theorem constructorThenParen_ends (parser : Parser) :
    Ends files further constructorThenParen parser fun follows after =>
      Alike parser after ∧
        (follows = true → parser.ahead.isConstructorOperator = true ∧
          parser.consume.ahead = .closeParen) := by
  unfold constructorThenParen
  simp only [ends_ahead]
  split
  · rename_i found
    apply Ends.peek (Nat.le_refl 1) (by decide)
    intro token after _ alike next
    refine Ends.pure ⟨alike, fun follows => ⟨found, ?_⟩⟩
    rw [← next rfl]
    simpa using follows
  · exact Ends.pure ⟨⟨rfl, rfl, rfl⟩, by simp⟩

theorem constructorSymbol_apply (found : parser.ahead.isConstructorOperator = true) :
    constructorSymbol parser = (.special parser.aheadSpan, parser.consume) := by
  change (if parser.ahead.isConstructorOperator then _ else _ : Parse Name) parser = _
  rw [if_pos found]
  rfl

theorem enclosed_ends {term : Parse Expr} {start : Span} {first : Expr}
    (termEnds : ∀ start, Ends files further term start (Expr.Backed files))
    (placed : parser.Places files start) (backed : first.Backed files parser) :
    Ends files further (enclosed term start first) parser (Expr.Backed files) := by
  unfold enclosed
  simp only [ends_isAt]
  split
  · apply Ends.bind (many_accept_ends (by decide) (Expr.stable_backed files) termEnds parser)
    intro later afterLater leadsLater backedLater
    apply Ends.expectOrSkipTo (by decide)
    intro _ after leads
    have placedEnd := (leadsLater.trans leads).places placed
    have firstEnd := (leadsLater.trans leads).accounts backed.accounted
    have laterEnd : ∀ expr ∈ later, after.Accounts expr.errors := fun expr member =>
      leads.accounts (backedLater expr member).accounted
    refine Ends.pure ⟨?_, placedEnd.spanFrom⟩
    simpa using And.intro firstEnd laterEnd
  · apply Ends.expectOrSkipTo (by decide)
    intro _ after leads
    refine Ends.pure ⟨?_, (leads.places placed).spanFrom⟩
    simpa using leads.accounts backed.accounted

theorem parenthesizedPattern_ends (sound : inner.Sound files further)
    (inside : parser.isAtEnd = false) :
    Ends files further (parenthesizedPattern inner) parser (readsExpr files parser) := by
  unfold parenthesizedPattern
  apply Ends.of_ready
  intro ready
  simp only [ends_aheadSpan]
  apply Ends.passing inside
  intro leads
  have placed := leads.places ready.toValid.placed
  apply Ends.accept (by decide)
  · intro _ leadsClose
    exact Ends.pure ⟨by simp, (leadsClose.places placed).spanFrom⟩
  · intro _
    simp only [Bool.false_eq_true, if_false, ends_isAt]
    split
    · exact tupleConstructor_ends placed
    · apply Ends.bind (constructorThenParen_ends parser.consume)
      intro follows middle leadsMiddle ended
      cases follows with
      | true =>
        obtain ⟨found, next⟩ := ended.2 rfl
        have foundMiddle : middle.ahead.isConstructorOperator = true := by
          rw [ended.1.ahead]
          exact found
        have leadsName : Leads files middle middle.consume :=
          Leads.consume (isAtEnd_of_kind rfl foundMiddle)
        apply Ends.of_ready
        intro readyMiddle
        apply Ends.step (constructorSymbol_apply foundMiddle) leadsName
        apply Ends.consume (isAtEnd_of_ahead (by decide) (ended.1.next.trans next))
        intro leadsClose
        have placedName := (leadsName.trans leadsClose).places readyMiddle.toValid.placed
        exact Ends.pure (backed_identifier
          (Name.backed_of_no_errors (by simp) placedName))
      | false =>
        rw [if_neg Bool.false_ne_true]
        apply Ends.bind (sound.pattern middle)
        intro first afterFirst leadsFirst backed
        have placedFirst := (leadsMiddle.trans leadsFirst).places placed
        exact enclosed_ends sound.pattern placedFirst backed

theorem listEnd_ends {start : Span} {elements : List Expr} (placed : parser.Places files start)
    (backed : ∀ expr ∈ elements, expr.Backed files parser) :
    Ends files further (listEnd start elements) parser (Expr.Backed files) := by
  unfold listEnd
  apply Ends.expectOrSkipTo (by decide)
  intro _ after leads
  have elementsEnd : ∀ expr ∈ elements, after.Accounts expr.errors := fun expr member =>
    leads.accounts (backed expr member).accounted
  exact Ends.pure ⟨by simpa using elementsEnd, (leads.places placed).spanFrom⟩

theorem listPattern_ends (sound : inner.Sound files further) (inside : parser.isAtEnd = false) :
    Ends files further (listPattern inner) parser (readsExpr files parser) := by
  unfold listPattern
  apply Ends.of_ready
  intro ready
  simp only [ends_aheadSpan]
  apply Ends.passing inside
  intro leads
  have placed := leads.places ready.toValid.placed
  simp only [ends_isAt]
  split
  · exact listEnd_ends placed (by simp)
  · apply Ends.bind (separated_ends (by decide) (Expr.stable_backed files) sound.pattern _)
    intro elements middle leadsElements backed
    exact listEnd_ends (leadsElements.places placed) backed

theorem closesOperand_of_startsPatternAtom {token : Token}
    (starts : startsPatternAtom token = true) : closesOperand token = false := by
  cases token <;> first | rfl | cases starts

theorem patternAtom_ends (sound : inner.Sound files further) (parser : Parser) :
    Ends files further (patternAtom inner) parser fun expr after =>
      expr.Backed files after ∧
        (startsPatternAtom parser.ahead = true → after.remaining < parser.remaining) := by
  have always : ∀ {production : Parse Expr},
      Ends files further production parser (readsExpr files parser) →
      Ends files further production parser fun expr after =>
        expr.Backed files after ∧
          (startsPatternAtom parser.ahead = true → after.remaining < parser.remaining) := by
    intro production ends
    exact ends.mono fun expr after _ read => ⟨read.1, fun _ => read.2⟩
  unfold patternAtom
  simp only [ends_ahead]
  split
  · rename_i found
    exact always (variableOrAlias_ends sound.patternAtom (isAtEnd_of_ahead (by decide) found))
  · rename_i found
    apply Ends.bind (qualifiedIdentifier_ends parser)
    intro name after _ read
    exact Ends.pure ⟨backed_identifier read.1,
      fun _ => read.2 (isAtEnd_of_ahead (by decide) found)⟩
  · rename_i found
    exact always (wildcard_ends (isAtEnd_of_ahead (by decide) found))
  · rename_i found
    exact always (lazyPattern_ends sound.patternAtom (isAtEnd_of_ahead (by decide) found))
  iterate 4
    · apply (literal_ends parser).mono
      intro expr after _ read
      exact ⟨read.1, fun starts => read.2 (closesOperand_of_startsPatternAtom starts)⟩
  · rename_i found
    exact always (parenthesizedPattern_ends sound (isAtEnd_of_ahead (by decide) found))
  · rename_i found
    exact always (listPattern_ends sound (isAtEnd_of_ahead (by decide) found))
  · apply Ends.bind (reject_ends parser)
    intro span after _ rejected
    exact Ends.pure ⟨backed_error rejected.1,
      fun starts => rejected.2 (closesOperand_of_startsPatternAtom starts)⟩

/-- Atoms are read while one is due, which is only where one starts. -/
theorem manyAtoms_ends (sound : inner.Sound files further) {follows : Parse Bool}
    (followsEnds : ∀ start, Ends files further follows start fun goes after =>
      after.ahead = start.ahead ∧ (goes = true → startsPatternAtom start.ahead = true))
    (parser : Parser) :
    Ends files further (many follows (patternAtom inner)) parser fun exprs after =>
      ∀ expr ∈ exprs, expr.Backed files after := by
  apply many_ends (Expr.stable_backed files)
  intro start
  apply (followsEnds start).mono
  intro goes after leads ended going
  apply (patternAtom_ends sound after).mono
  intro expr final _ read
  refine ⟨Nat.lt_of_lt_of_le (read.2 ?_) leads.remaining_le, read.1⟩
  rw [ended.1]
  exact ended.2 going

theorem patternAtoms_ends (sound : inner.Sound files further) (parser : Parser) :
    Ends files further (patternAtoms inner) parser fun exprs after =>
      ∀ expr ∈ exprs, expr.Backed files after := by
  apply manyAtoms_ends sound
  intro start
  simp only [ends_ahead]
  exact Ends.pure ⟨rfl, id⟩

theorem argumentFollows_ends (parser : Parser) :
    Ends files further argumentFollows parser fun goes after =>
      after.ahead = parser.ahead ∧ (goes = true → startsPatternAtom parser.ahead = true) := by
  unfold argumentFollows
  simp only [ends_ahead]
  split
  · rename_i starts
    apply Ends.bind (qualifiedSymbolFollows_ends parser)
    intro follows after _ ended
    exact Ends.pure ⟨ended.1.ahead, fun _ => starts⟩
  · exact Ends.pure ⟨rfl, by simp⟩

theorem constructorPattern_ends (sound : inner.Sound files further) {start : Span}
    {constructor : Expr} (placed : parser.Places files start)
    (backed : constructor.Backed files parser) :
    Ends files further (constructorPattern inner start constructor) parser
      (Expr.Backed files) := by
  unfold constructorPattern
  apply Ends.bind (manyAtoms_ends sound argumentFollows_ends parser)
  intro exprs after leads backedExprs
  split
  · exact Ends.pure (leads.backs backed)
  · have exprsEnd : ∀ expr ∈ exprs, after.Accounts expr.errors := fun expr member =>
      (backedExprs expr member).accounted
    refine Ends.pure ⟨?_, (leads.places placed).spanFrom⟩
    simpa using And.intro (leads.accounts backed.accounted) exprsEnd

theorem numeral_ends (parser : Parser) : Ends files further numeral parser (Expr.Backed files) := by
  unfold numeral
  simp only [ends_ahead]
  split
  · exact (literal_ends parser).mono fun _ _ _ read => read.1
  · exact (literal_ends parser).mono fun _ _ _ read => read.1
  · apply Ends.bind (reject_ends parser)
    intro span after _ rejected
    exact Ends.pure (backed_error rejected.1)

theorem negativeLiteral_ends (inside : parser.isAtEnd = false) :
    Ends files further negativeLiteral parser (Expr.Backed files) := by
  unfold negativeLiteral
  apply Ends.of_ready
  intro ready
  simp only [ends_aheadSpan]
  apply Ends.consume inside
  intro leads
  apply Ends.bind (numeral_ends parser.consume)
  intro operand after goesOn backed
  have placed := (leads.trans goesOn).places ready.toValid.placed
  exact Ends.pure ⟨by simpa using backed.accounted, placed.spanFrom⟩

theorem parenthesizedConstructorFollows_ends (parser : Parser) :
    Ends files further parenthesizedConstructorFollows parser fun _ after =>
      Alike parser after := by
  unfold parenthesizedConstructorFollows
  apply Ends.peek (Nat.le_refl 1) (by decide)
  intro next middle _ alike _
  split
  · exact Ends.pure alike
  · split
    · apply Ends.peek (by decide) (by decide)
      intro last after _ alikeLast _
      exact Ends.pure (alike.trans alikeLast)
    · exact Ends.pure alike

theorem operandPattern_ends (sound : inner.Sound files further) (parser : Parser) :
    Ends files further (operandPattern inner) parser (Expr.Backed files) := by
  have atom : ∀ start, Ends files further (patternAtom inner) start (Expr.Backed files) :=
    fun start => (patternAtom_ends sound start).mono fun expr after _ read => read.1
  unfold operandPattern
  apply Ends.of_ready
  intro ready
  simp only [ends_aheadSpan, ends_ahead]
  split
  · rename_i found
    exact negativeLiteral_ends (isAtEnd_of_ahead (by decide) found)
  · apply Ends.bind (qualifiedIdentifier_ends parser)
    intro name after leads read
    exact constructorPattern_ends sound (leads.places ready.toValid.placed)
      (backed_identifier read.1)
  · apply Ends.bind (parenthesizedConstructorFollows_ends parser)
    intro follows middle leads _
    cases follows with
    | true =>
      apply Ends.bind (atom middle)
      intro constructor after goesOn backed
      have placed := (leads.trans goesOn).places ready.toValid.placed
      exact constructorPattern_ends sound placed backed
    | false => exact atom middle
  · exact atom parser

theorem patternAfter_ends (sound : inner.Sound files further) {start : Span} {left : Expr}
    (placed : parser.Places files start) (backed : left.Backed files parser) :
    Ends files further (patternAfter inner start left) parser (Expr.Backed files) := by
  unfold patternAfter
  apply Ends.bind (constructorOperator?_ends parser)
  intro found middle leads read
  cases found with
  | none => exact Ends.pure (leads.backs backed)
  | some operator =>
    have backedOperator := (read operator rfl).1
    apply Ends.bind (sound.pattern middle)
    intro right after goesOn backedRight
    have leftEnd := (leads.trans goesOn).accounts backed.accounted
    have operatorEnd := goesOn.accounts backedOperator.accounted
    refine Ends.pure ⟨?_, ((leads.trans goesOn).places placed).spanFrom⟩
    simpa using And.intro leftEnd (And.intro operatorEnd backedRight.accounted)

theorem patternProduction_ends (sound : inner.Sound files further) (parser : Parser) :
    Ends files further (patternProduction inner) parser (Expr.Backed files) := by
  unfold patternProduction
  apply Ends.of_ready
  intro ready
  simp only [ends_aheadSpan]
  apply Ends.bind (operandPattern_ends sound parser)
  intro left after leads backed
  exact patternAfter_ends sound (leads.places ready.toValid.placed) backed

end Haskell.Grammar

end Offside
