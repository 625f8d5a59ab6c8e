import Offside.Proofs.Grammar.Declarations
import Offside.Proofs.Lockstep.Types

/-!
Patterns and declarations in lockstep. Where a declaration looks past an opening parenthesis, both runs
look at tokens between brackets, which no seam comes between.
-/

namespace Offside.Haskell.Grammar

set_option autoImplicit false

open Offside.Parser Offside.Parse

variable {pairing : Pairing} [lawful : pairing.Lawful] {eager : Bool} {brackets after : List Token}
  {left right : Parser} {inner : Level}

section Patterns

theorem plain_of_literal {token : Token} {kind : LiteralKind}
    (found : literalKind? token = some kind) : token.isPlain = true := by
  cases token <;> first | rfl | cases found

theorem literal_keeps : Keeps pairing true literal (Expr.moved pairing.move) := by
  intro brackets left right
  unfold literal
  apply Mirrors.ahead
  split
  · rename_i kind found
    apply Mirrors.aheadSpan
    apply Mirrors.pass rfl (plain_of_literal found)
    exact fun _ _ => Mirrors.pure (by simp [Expr.moved])
  · exact (reject_keeps brackets left right).map fun _ => by simp [Expr.moved]

theorem tupleConstructor_mirrors (start : Span) :
    Mirrors pairing false (.openParen :: brackets) brackets (tupleConstructor start)
      (tupleConstructor (pairing.move start)) (Expr.moved pairing.move) left right := by
  unfold tupleConstructor
  apply Mirrors.skipAll rfl (Or.inl rfl)
  intro left right
  exact Mirrors.closed (by decide) rfl (by simp [Expr.moved, Name.moved])

theorem aliasAfter_mirrors {atom : Parse Expr}
    (keeps : Keeps pairing eager atom (Expr.moved pairing.move)) (start : Span) (name : Name)
    (left right : Parser) :
    Mirrors pairing false brackets brackets (aliasAfter atom start name)
      (aliasAfter atom (pairing.move start) (name.moved pairing.move)) (Expr.moved pairing.move)
      left right := by
  unfold aliasAfter
  apply Mirrors.accept_plain rfl rfl
  · intro left right
    apply Mirrors.bind (keeps brackets left right).lax
    exact fun pattern left right => Mirrors.finish (by simp [Expr.moved])
  · exact fun _ => Mirrors.pure (by simp [Expr.moved])

theorem variableOrAlias_keeps {atom : Parse Expr}
    (keeps : Keeps pairing eager atom (Expr.moved pairing.move)) :
    Keeps pairing true (variableOrAlias atom) (Expr.moved pairing.move) := by
  intro brackets left right
  unfold variableOrAlias
  apply Mirrors.aheadSpan
  apply Mirrors.bind (variableIdentifier_keeps brackets left right)
  exact aliasAfter_mirrors keeps left.aheadSpan

theorem lazyPattern_mirrors {atom : Parse Expr} (found : left.ahead = .tilde)
    (keeps : Keeps pairing eager atom (Expr.moved pairing.move)) :
    Mirrors pairing true brackets brackets (lazyPattern atom) (lazyPattern atom)
      (Expr.moved pairing.move) left right := by
  unfold lazyPattern
  apply Mirrors.aheadSpan
  apply Mirrors.pass found rfl
  intro left right
  apply Mirrors.bind (keeps brackets left right).lax
  exact fun pattern left right => Mirrors.finish (by simp [Expr.moved])

theorem wildcard_mirrors (found : left.ahead = .underscore) :
    Mirrors pairing true brackets brackets wildcard wildcard (Expr.moved pairing.move) left
      right := by
  unfold wildcard
  apply Mirrors.aheadSpan
  apply Mirrors.pass found rfl
  exact fun _ _ => Mirrors.pure (by simp [Expr.moved])

theorem mirrors_constructorThenParen {β : Type} {next other : Bool → Parse β} {change : β → β}
    (later : ∀ follows left' opposite, Alike left left' →
      (follows = true → left.ahead.isConstructorOperator = true ∧
        left.consume.ahead = .closeParen) →
      Mirrors pairing false brackets after (next follows) (other follows) change left' opposite) :
    Mirrors pairing false brackets after (constructorThenParen >>= next)
      (constructorThenParen >>= other) change left right := by
  unfold constructorThenParen
  simp only [mirrors_bind_assoc]
  apply Mirrors.ahead_blind rfl
  split
  · rename_i found
    simp only [mirrors_bind_assoc]
    apply Mirrors.peek (isAtEnd_of_kind rfl found)
      (Token.isBrace_of_plain (plain_of_constructorOperator found)) (Or.inl rfl) rfl
    intro token left' opposite alike isNext
    exact later _ left' opposite alike fun closes => ⟨found, by simpa [isNext rfl] using closes⟩
  · exact later false left right ⟨rfl, rfl, rfl⟩ (by simp)

theorem enclosed_mirrors {term : Parse Expr}
    (keeps : Keeps pairing eager term (Expr.moved pairing.move)) (start : Span) (first : Expr)
    (left right : Parser) :
    Mirrors pairing false (.openParen :: brackets) brackets (enclosed term start first)
      (enclosed term (pairing.move start) (first.moved pairing.move)) (Expr.moved pairing.move)
      left right := by
  unfold enclosed
  apply Mirrors.isAt rfl
  · intro _
    apply Mirrors.bind (many_accept_mirrors rfl rfl
      (fun left right => (keeps _ left right).lax) left right)
    exact fun later left right => Mirrors.closed (by decide) rfl (by simp [Expr.moved])
  · exact fun _ => Mirrors.closed (by decide) rfl (by simp [Expr.moved])

theorem parenthesizedPattern_mirrors (mirrored : inner.Mirrored)
    (found : left.ahead = .openParen) :
    Mirrors pairing true brackets brackets (parenthesizedPattern inner)
      (parenthesizedPattern inner) (Expr.moved pairing.move) left right := by
  unfold parenthesizedPattern
  apply Mirrors.aheadSpan
  apply Mirrors.take found (by decide) (fun _ => rfl) rfl
  generalize left.aheadSpan = start
  intro left right
  apply Mirrors.accept (by decide) (by simp) rfl rfl
  · exact fun _ _ => Mirrors.finish (by simp [Expr.moved])
  · intro _
    apply Mirrors.isAt rfl
    · exact fun _ => tupleConstructor_mirrors start
    · intro _
      apply mirrors_constructorThenParen
      intro follows left right alike closes
      cases follows with
      | true =>
        obtain ⟨operator, closes⟩ := closes rfl
        rw [← alike.ahead] at operator
        apply Mirrors.bind_here (constructorSymbol_keeps _ left right).lax
        intro right
        rw [constructorSymbol_apply operator]
        apply Mirrors.take (alike.next.trans closes) (by decide) (by simp) rfl
        exact fun _ _ => Mirrors.pure (by simp [Expr.moved, Name.moved])
      | false =>
        apply Mirrors.bind (mirrored.pattern pairing _ left right).lax
        intro first left right
        exact enclosed_mirrors (mirrored.pattern pairing) start first left right

theorem listEnd_mirrors (start : Span) (elements : List Expr) (left right : Parser) :
    Mirrors pairing false (.openBracket :: brackets) brackets (listEnd start elements)
      (listEnd (pairing.move start) (elements.map (Expr.moved pairing.move)))
      (Expr.moved pairing.move) left right :=
  Mirrors.closed (by decide) rfl (by simp [Expr.moved])

theorem listPattern_mirrors (mirrored : inner.Mirrored) (found : left.ahead = .openBracket) :
    Mirrors pairing true brackets brackets (listPattern inner) (listPattern inner)
      (Expr.moved pairing.move) left right := by
  unfold listPattern
  apply Mirrors.aheadSpan
  apply Mirrors.take found (by decide) (fun _ => rfl) rfl
  generalize left.aheadSpan = start
  intro left right
  apply Mirrors.isAt rfl
  · exact fun _ => listEnd_mirrors start [] left right
  · intro _
    apply Mirrors.bind (separated_mirrors rfl rfl (mirrored.pattern pairing _) left right).lax
    exact listEnd_mirrors start

theorem patternAtom_keeps (mirrored : inner.Mirrored) :
    Keeps pairing true (patternAtom inner) (Expr.moved pairing.move) := by
  intro brackets left right
  unfold patternAtom
  apply Mirrors.ahead
  split
  · exact variableOrAlias_keeps (mirrored.patternAtom pairing) brackets left right
  · rename_i found
    apply Mirrors.solid (by rw [found]; rfl)
    exact (qualifiedIdentifier_keeps brackets left right).map fun _ => by simp [Expr.moved]
  · rename_i found
    exact wildcard_mirrors found
  · rename_i found
    exact lazyPattern_mirrors found (mirrored.patternAtom pairing)
  · exact literal_keeps brackets left right
  · exact literal_keeps brackets left right
  · exact literal_keeps brackets left right
  · exact literal_keeps brackets left right
  · rename_i found
    exact parenthesizedPattern_mirrors mirrored found
  · rename_i found
    exact listPattern_mirrors mirrored found
  · exact (reject_keeps brackets left right).map fun _ => by simp [Expr.moved]

theorem patternAtoms_keep (mirrored : inner.Mirrored) :
    Keeps pairing false (patternAtoms inner) (List.map (Expr.moved pairing.move)) :=
  fun _ => many_while_mirrors rfl fun left right _ => (patternAtom_keeps mirrored _ left right).lax

theorem constructorPattern_mirrors (mirrored : inner.Mirrored) (start : Span)
    (constructor : Expr) (left right : Parser) :
    Mirrors pairing false brackets brackets (constructorPattern inner start constructor)
      (constructorPattern inner (pairing.move start) (constructor.moved pairing.move))
      (Expr.moved pairing.move) left right := by
  unfold constructorPattern
  have arguments : Mirrors pairing false brackets brackets
      (many argumentFollows (patternAtom inner)) (many argumentFollows (patternAtom inner))
      (List.map (Expr.moved pairing.move)) left right := by
    apply many_mirrors
    intro left right
    unfold oneRound argumentFollows
    simp only [mirrors_bind_assoc]
    apply Mirrors.ahead_blind rfl
    split
    · simp only [mirrors_bind_assoc]
      apply mirrors_qualifiedSymbolFollows rfl
      intro follows left right _ _
      cases follows with
      | true => exact Mirrors.pure rfl
      | false => exact (patternAtom_keeps mirrored _ left right).lax.map fun _ => rfl
    · exact Mirrors.pure rfl
  apply Mirrors.bind arguments
  intro arguments left right
  rw [List.isEmpty_map]
  split
  · exact Mirrors.pure rfl
  · exact Mirrors.finish (by simp [Expr.moved])

theorem mirrors_parenthesizedConstructorFollows {β : Type} {next other : Bool → Parse β}
    {change : β → β} (found : left.ahead = .openParen)
    (later : ∀ follows left' opposite, Alike left left' →
      Mirrors pairing false brackets after (next follows) (other follows) change left' opposite) :
    Mirrors pairing eager brackets after (parenthesizedConstructorFollows >>= next)
      (parenthesizedConstructorFollows >>= other) change left right := by
  unfold parenthesizedConstructorFollows
  have atEnd := isAtEnd_of_ahead (by decide) found
  have solid : left.ahead.isBrace = false := by rw [found]; rfl
  simp only [mirrors_bind_assoc]
  apply Mirrors.peek atEnd solid (Or.inl rfl) rfl
  intro token middle opposite alike isNext
  split
  · exact later true middle opposite alike
  · split
    · rename_i operator
      simp only [mirrors_bind_assoc]
      have reachable : Pairing.Reachable 2 middle := by
        rw [isNext rfl, ← alike.next] at operator
        refine Or.inr ⟨rfl, ?_, ?_⟩
        · intro ended
          rw [ended] at operator
          cases operator
        · intro closes
          rw [closes] at operator
          cases operator
      apply Mirrors.peek (alike.isAtEnd.trans atEnd) (by rw [alike.ahead]; exact solid) reachable
        rfl
      intro last left' opposite finalAlike _
      exact later _ left' opposite (alike.trans finalAlike)
    · exact later false middle opposite alike

theorem numeral_keeps : Keeps pairing true numeral (Expr.moved pairing.move) := by
  intro brackets left right
  unfold numeral
  apply Mirrors.ahead
  split
  · exact literal_keeps brackets left right
  · exact literal_keeps brackets left right
  · exact (reject_keeps brackets left right).map fun _ => by simp [Expr.moved]

theorem negativeLiteral_mirrors (found : left.ahead = .minus) :
    Mirrors pairing true brackets brackets negativeLiteral negativeLiteral
      (Expr.moved pairing.move) left right := by
  unfold negativeLiteral
  apply Mirrors.aheadSpan
  apply Mirrors.pass found rfl
  intro left right
  apply Mirrors.bind (numeral_keeps brackets left right).lax
  exact fun operand left right => Mirrors.finish (by simp [Expr.moved])

theorem operandPattern_keeps (mirrored : inner.Mirrored) :
    Keeps pairing true (operandPattern inner) (Expr.moved pairing.move) := by
  intro brackets left right
  unfold operandPattern
  apply Mirrors.aheadSpan
  apply Mirrors.ahead
  generalize left.aheadSpan = start
  split
  · rename_i found
    exact negativeLiteral_mirrors found
  · rename_i found
    apply Mirrors.solid (by rw [found]; rfl)
    apply Mirrors.bind (qualifiedIdentifier_keeps brackets left right)
    intro name left right
    have finish : Mirrors pairing false brackets brackets
        (constructorPattern inner start (.identifier name))
        (constructorPattern inner (pairing.move start) ((Expr.identifier name).moved pairing.move))
        (Expr.moved pairing.move) left right :=
      constructorPattern_mirrors mirrored start (.identifier name) left right
    simpa [Expr.moved] using finish
  · rename_i found
    apply mirrors_parenthesizedConstructorFollows found
    intro follows left right _
    cases follows with
    | true =>
      apply Mirrors.bind (patternAtom_keeps mirrored brackets left right).lax
      exact constructorPattern_mirrors mirrored start
    | false => exact (patternAtom_keeps mirrored brackets left right).lax
  · exact patternAtom_keeps mirrored brackets left right

theorem patternAfter_mirrors (mirrored : inner.Mirrored) (start : Span) (first : Expr)
    (left right : Parser) :
    Mirrors pairing false brackets brackets (patternAfter inner start first)
      (patternAfter inner (pairing.move start) (first.moved pairing.move))
      (Expr.moved pairing.move) left right := by
  unfold patternAfter
  apply Mirrors.bind (constructorOperator?_keeps brackets left right)
  intro found left right
  cases found with
  | none => exact Mirrors.pure rfl
  | some operator =>
    apply Mirrors.bind (mirrored.pattern pairing brackets left right).lax
    exact fun _ _ _ => Mirrors.finish (by simp [Expr.moved])

theorem patternProduction_keeps (mirrored : inner.Mirrored) :
    Keeps pairing true (patternProduction inner) (Expr.moved pairing.move) := by
  intro brackets left right
  unfold patternProduction
  apply Mirrors.aheadSpan
  apply Mirrors.bind (operandPattern_keeps mirrored brackets left right)
  exact fun first left right => patternAfter_mirrors mirrored _ first left right

end Patterns

section Declarations

theorem guardedExpr_mirrors (mirrored : inner.Mirrored) {separator : Token}
    (plain : separator.isPlain = true) (found : left.ahead = .pipe) :
    Mirrors pairing true brackets brackets (guardedExpr inner separator)
      (guardedExpr inner separator) (GuardedExpr.moved pairing.move) left right := by
  unfold guardedExpr
  apply Mirrors.aheadSpan
  apply Mirrors.pass found rfl
  intro left right
  apply Mirrors.bind (mirrored.expression pairing brackets left right).lax
  intro guard left right
  apply Mirrors.expect_plain plain
  intro _ left right
  apply Mirrors.bind (mirrored.expression pairing brackets left right).lax
  exact fun body left right => Mirrors.finish (by simp [GuardedExpr.moved])

variable (mirrored : inner.Mirrored)

include mirrored

theorem whereDecls?_keeps :
    Keeps pairing false (whereDecls? inner) (List.map (Decl.moved pairing.move)) := by
  intro brackets left right
  unfold whereDecls?
  apply Mirrors.accept_plain rfl rfl
  · exact mirrored.declBlock pairing brackets
  · exact fun _ => Mirrors.pure rfl

theorem finishRightSide_mirrors (start : Span) (body : Body) (left right : Parser) :
    Mirrors pairing false brackets brackets (finishRightSide inner start body)
      (finishRightSide inner (pairing.move start) (body.moved pairing.move))
      (RightSide.moved pairing.move) left right := by
  unfold finishRightSide
  apply Mirrors.bind (whereDecls?_keeps mirrored brackets left right)
  exact fun decls left right => Mirrors.finish (by simp [RightSide.moved])

theorem rightSide_keeps {separator : Token} (plain : separator.isPlain = true)
    (blind : separator.isTelling = false) :
    Keeps pairing true (rightSide inner separator) (RightSide.moved pairing.move) := by
  intro brackets left right
  unfold rightSide
  apply Mirrors.aheadSpan
  generalize left.aheadSpan = start
  apply Mirrors.isAt rfl
  · intro found
    apply Mirrors.solid (by rw [found]; rfl)
    apply Mirrors.bind (many_isAt_mirrors rfl
      (fun left right found => (guardedExpr_mirrors mirrored plain found).lax) left right)
    intro alternatives left right
    have finish : Mirrors pairing false brackets brackets
        (finishRightSide inner start (.guarded alternatives))
        (finishRightSide inner (pairing.move start)
          ((Body.guarded alternatives).moved pairing.move))
        (RightSide.moved pairing.move) left right :=
      finishRightSide_mirrors mirrored start _ left right
    simpa [Body.moved] using finish
  · intro _
    apply Mirrors.accept_plain plain blind
    · intro left right
      apply Mirrors.bind (mirrored.expression pairing brackets left right).lax
      intro body left right
      have finish : Mirrors pairing false brackets brackets
          (finishRightSide inner start (.plain body))
          (finishRightSide inner (pairing.move start) ((Body.plain body).moved pairing.move))
          (RightSide.moved pairing.move) left right :=
        finishRightSide_mirrors mirrored start _ left right
      simpa [Body.moved] using finish
    · intro _
      apply Mirrors.reportUnexpected
      exact fun _ _ => Mirrors.pure (by simp [RightSide.moved, Body.moved, Expr.moved])

omit mirrored in
/-- A precedence is looked up in the table of lexemes, and stays ahead. -/
theorem exists_precedenceAhead : ∃ precedenceIn : Option Lexeme → Option Nat, ∀ parser : Parser,
    precedenceAhead parser =
      (precedenceIn (parser.context.lexemeAt parser.aheadSpan.start), parser) := by
  let precedenceIn : Option Lexeme → Option Nat := fun lexeme? =>
    (lexeme?.filter (·.category = .integer)).bind fun lexeme => precedenceOf? lexeme.text
  refine ⟨precedenceIn, fun parser => ?_⟩
  have starts : (get : Parse Parser) parser = (parser, parser) := rfl
  unfold precedenceAhead
  rw [bind_apply, starts]
  generalize parser.context.lexemeAt parser.aheadSpan.start = text
  rcases text with _ | ⟨category, text⟩
  · rfl
  · cases category <;> rfl

omit mirrored in
theorem precedenceAhead_mirrors (found : left.ahead = .integer) :
    Mirrors pairing false brackets brackets precedenceAhead precedenceAhead id left right := by
  obtain ⟨precedenceIn, known⟩ := exists_precedenceAhead
  constructor
  · rw [known]
    exact id
  · intro pairs good
    rw [known, known, lawful.lexeme pairs (by rw [found]; rfl)]
    exact ⟨.refl pairs, (fun isEager => nomatch isEager), rfl⟩

omit mirrored in
theorem precedence_keeps : Keeps pairing false precedence id := by
  intro brackets left right
  unfold precedence
  apply Mirrors.isAt rfl
  · intro found
    apply Mirrors.bind_here (precedenceAhead_mirrors found)
    intro right
    obtain ⟨precedenceIn, known⟩ := exists_precedenceAhead
    rw [known left]
    cases precedenceIn (left.context.lexemeAt left.aheadSpan.start) with
    | none =>
      have reported : Mirrors pairing false brackets brackets
          ((do Parse.reportUnexpected; Parse.consume) >>= fun _ => pure (none : Option Nat))
          ((do Parse.reportUnexpected; Parse.consume) >>= fun _ => pure none) id left right :=
        Mirrors.reportAndConsume (isAtEnd_of_ahead (by decide) found) fun _ _ => Mirrors.pure rfl
      exact reported
    | some value =>
      apply Mirrors.pass found rfl
      exact fun _ _ => Mirrors.pure rfl
  · exact fun _ => Mirrors.pure rfl

omit mirrored in
theorem fixityOperator_keeps : Keeps pairing false fixityOperator (Name.moved pairing.move) := by
  intro brackets left right
  unfold fixityOperator
  apply Mirrors.bind (operator?_keeps brackets left right)
  intro found left right
  cases found with
  | some name => exact Mirrors.pure rfl
  | none => exact (reject_keeps brackets left right).lax.map fun _ => by simp [Name.moved]

omit mirrored in
theorem fixityDecl_mirrors (plain : left.ahead.isPlain = true) :
    Mirrors pairing true brackets brackets fixityDecl fixityDecl (Decl.moved pairing.move) left
      right := by
  unfold fixityDecl
  apply Mirrors.aheadSpan
  apply Mirrors.ahead
  apply Mirrors.pass rfl plain
  generalize left.aheadSpan = start
  generalize associativityOf left.ahead = associativity
  intro left right
  apply Mirrors.bind (precedence_keeps brackets left right)
  intro precedence left right
  apply Mirrors.bind (separated_mirrors rfl rfl (fixityOperator_keeps brackets) left right)
  exact fun operators left right => Mirrors.finish (by simp [Decl.moved, FixityDecl.moved])

theorem typeSignature_mirrors (start : Span) (first : Name) (left right : Parser) :
    Mirrors pairing false brackets brackets (typeSignature inner start first)
      (typeSignature inner (pairing.move start) (first.moved pairing.move))
      (Decl.moved pairing.move) left right := by
  unfold typeSignature
  apply Mirrors.bind (many_accept_mirrors rfl rfl
    (fun left right => (variableName_keeps brackets left right).lax) left right)
  intro later left right
  apply Mirrors.expect_plain rfl
  intro _ left right
  apply Mirrors.bind (mirrored.type pairing brackets left right).lax
  exact fun type left right => Mirrors.finish (by simp [Decl.moved, TypeSignature.moved])

theorem operatorClause_mirrors (start : Span) (first : Expr) (operator : Name) (left right : Parser) :
    Mirrors pairing false brackets brackets (operatorClause inner start first operator)
      (operatorClause inner (pairing.move start) (first.moved pairing.move)
        (operator.moved pairing.move))
      (Decl.moved pairing.move) left right := by
  unfold operatorClause
  apply Mirrors.bind (mirrored.pattern pairing brackets left right).lax
  intro second left right
  apply Mirrors.bind (rightSide_keeps mirrored rfl rfl brackets left right).lax
  exact fun body left right => Mirrors.finish (by simp [Decl.moved])

theorem declAfterPattern_mirrors (start : Span) (pattern : Expr) (left right : Parser) :
    Mirrors pairing false brackets brackets (declAfterPattern inner start pattern)
      (declAfterPattern inner (pairing.move start) (pattern.moved pairing.move))
      (Decl.moved pairing.move) left right := by
  unfold declAfterPattern
  apply Mirrors.bind (variableOperator?_keeps brackets left right)
  intro found left right
  cases found with
  | some operator => exact operatorClause_mirrors mirrored start pattern operator left right
  | none =>
    apply Mirrors.bind (rightSide_keeps mirrored rfl rfl brackets left right).lax
    exact fun body left right => Mirrors.finish (by simp [Decl.moved])

theorem patternAfterVariable_mirrors (start : Span) (name : Name) (left right : Parser) :
    Mirrors pairing false brackets brackets (patternAfterVariable inner start name)
      (patternAfterVariable inner (pairing.move start) (name.moved pairing.move))
      (Expr.moved pairing.move) left right := by
  unfold patternAfterVariable
  apply Mirrors.bind (aliasAfter_mirrors (mirrored.patternAtom pairing) start name left right)
  exact patternAfter_mirrors mirrored start

omit mirrored in
theorem mirrors_patternContinues {β : Type} {next other : Bool → Parse β} {change : β → β}
    (later : ∀ follows left' opposite,
      Mirrors pairing false brackets after (next follows) (other follows) change left' opposite) :
    Mirrors pairing false brackets after (patternContinues >>= next) (patternContinues >>= other)
      change left right := by
  unfold patternContinues
  simp only [mirrors_bind_assoc]
  apply Mirrors.ahead_blind rfl
  split
  · exact later true left right
  · apply mirrors_quotedFollows rfl
    exact fun follows left' opposite _ _ => later follows left' opposite

theorem functionClause_mirrors (start : Span) (name : Name) (left right : Parser) :
    Mirrors pairing false brackets brackets (functionClause inner start name)
      (functionClause inner (pairing.move start) (name.moved pairing.move))
      (Decl.moved pairing.move) left right := by
  unfold functionClause
  apply Mirrors.bind (patternAtoms_keep mirrored brackets left right)
  intro parameters left right
  apply Mirrors.bind (rightSide_keeps mirrored rfl rfl brackets left right).lax
  exact fun body left right => Mirrors.finish (by simp [Decl.moved])

theorem declAfterName_mirrors (start : Span) (name : Name) (left right : Parser) :
    Mirrors pairing false brackets brackets (declAfterName inner start name)
      (declAfterName inner (pairing.move start) (name.moved pairing.move))
      (Decl.moved pairing.move) left right := by
  unfold declAfterName
  have signature : Mirrors pairing false brackets brackets _ _ (Decl.moved pairing.move) left
      right :=
    typeSignature_mirrors mirrored start name left right
  apply Mirrors.isAt rfl
  · exact fun _ => Mirrors.isAt rfl (fun _ => signature) fun _ => signature
  · intro _
    apply Mirrors.isAt rfl
    · exact fun _ => signature
    · intro _
      simp only [Bool.or_self, Bool.false_eq_true, if_false]
      apply mirrors_patternContinues
      intro follows left right
      cases follows with
      | true =>
        apply Mirrors.bind (patternAfterVariable_mirrors mirrored start name left right)
        exact fun pattern left right => declAfterPattern_mirrors mirrored start pattern left right
      | false =>
        apply Mirrors.bind (variableOperator?_keeps brackets left right)
        intro found left right
        cases found with
        | some operator =>
          have clause : Mirrors pairing false brackets brackets _ _ (Decl.moved pairing.move)
              left right :=
            operatorClause_mirrors mirrored start (.identifier name) operator left right
          simpa [Expr.moved] using clause
        | none => exact functionClause_mirrors mirrored start name left right

omit mirrored in
theorem mirrors_parenthesizedOperatorFollows {β : Type} {next other : Bool → Parse β}
    {change : β → β} (found : left.ahead = .openParen)
    (later : ∀ follows left' opposite, Alike left left' →
      Mirrors pairing false brackets after (next follows) (other follows) change left' opposite) :
    Mirrors pairing eager brackets after (parenthesizedOperatorFollows >>= next)
      (parenthesizedOperatorFollows >>= other) change left right := by
  unfold parenthesizedOperatorFollows
  have atEnd := isAtEnd_of_ahead (by decide) found
  have solid : left.ahead.isBrace = false := by rw [found]; rfl
  simp only [mirrors_bind_assoc]
  apply Mirrors.peek atEnd solid (Or.inl rfl) rfl
  intro token middle opposite alike isNext
  split
  · rename_i operator
    simp only [mirrors_bind_assoc]
    have reachable : Pairing.Reachable 2 middle := by
      rw [isNext rfl, ← alike.next] at operator
      refine Or.inr ⟨rfl, ?_, ?_⟩
      · intro ended
        rw [ended] at operator
        cases operator
      · intro closes
        rw [closes] at operator
        cases operator
    apply Mirrors.peek (alike.isAtEnd.trans atEnd) (by rw [alike.ahead]; exact solid) reachable rfl
    intro last left' opposite finalAlike _
    exact later _ left' opposite (alike.trans finalAlike)
  · exact later false middle opposite alike

theorem patternDecl_mirrors (start : Span) (left right : Parser) :
    Mirrors pairing true brackets brackets (patternDecl inner start)
      (patternDecl inner (pairing.move start)) (Decl.moved pairing.move) left right :=
  Mirrors.bind (mirrored.pattern pairing brackets left right)
    (declAfterPattern_mirrors mirrored start)

theorem bindingDecl_keeps : Keeps pairing true (bindingDecl inner) (Decl.moved pairing.move) := by
  intro brackets left right
  unfold bindingDecl
  apply Mirrors.aheadSpan
  generalize left.aheadSpan = start
  apply Mirrors.ahead
  split
  · apply Mirrors.bind (variableIdentifier_keeps brackets left right)
    exact fun name left right => declAfterName_mirrors mirrored start name left right
  · rename_i found
    apply mirrors_parenthesizedOperatorFollows found
    intro follows left' right alike
    cases follows with
    | true =>
      apply Mirrors.bind (parenthesizedSymbol_mirrors (alike.ahead.trans found)
        variableSymbol_keeps).lax
      exact fun name left right => declAfterName_mirrors mirrored start name left right
    | false => exact (patternDecl_mirrors mirrored start left' right).lax
  · exact patternDecl_mirrors mirrored start left right

theorem decl_keeps : Keeps pairing true (decl inner) (Decl.moved pairing.move) := by
  intro brackets left right
  unfold decl
  apply Mirrors.ahead
  split
  · rename_i found
    apply Mirrors.aheadSpan
    exact Mirrors.solid (by rw [found]; rfl) (Mirrors.pure (by simp [Decl.moved]))
  · rename_i found
    exact fixityDecl_mirrors (by rw [found]; rfl)
  · rename_i found
    exact fixityDecl_mirrors (by rw [found]; rfl)
  · rename_i found
    exact fixityDecl_mirrors (by rw [found]; rfl)
  · exact bindingDecl_keeps mirrored brackets left right

end Declarations

end Offside.Haskell.Grammar
