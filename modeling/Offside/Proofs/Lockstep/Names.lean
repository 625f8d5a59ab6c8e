import Offside.Proofs.Grammar.Names
import Offside.Proofs.Lockstep.Repetition
import Offside.Proofs.Tree.Moved

/-!
Names in lockstep. Looking for a qualifier compares the places of three tokens, none of which is a
brace, so both runs find the same.
-/

namespace Offside

set_option autoImplicit false

namespace Parser

/-- Tokens that were pulled before stay where they are in the buffer. -/
theorem buffered_fill_getElem? {index : Nat} {parser : Parser}
    (held : index < parser.buffered.length) (count : Nat) :
    (parser.fill count).buffered[index]? = parser.buffered[index]? := by
  induction count generalizing parser with
  | zero => rfl
  | succ count induction =>
    have grown := buffered_fill_one parser
    have longer : index < (parser.fill 1).buffered.length := by
      rw [grown, List.length_append]
      omega
    change ((parser.fill 1).fill count).buffered[index]? = _
    rw [induction longer, grown, List.getElem?_append_left held]

/-- The token found by looking at some distance stands at its place in the buffer. -/
theorem buffered_peek {distance : Nat} (near : 1 ≤ distance) (within : distance ≤ reach)
    (parser : Parser) :
    (parser.peek distance).2.buffered[distance - 1]? = some (parser.peek distance).1 := by
  rw [peek_apply near within]
  have inside : distance - 1 <
      (parser.fill (distance - parser.buffered.length)).buffered.length := by
    rw [length_buffered_fill]
    omega
  simp only [List.getD_eq_getElem?_getD, List.getElem?_eq_getElem inside, Option.getD_some]

/-- Looking at a token in the buffer changes nothing. -/
theorem peek_of_buffered {distance : Nat} {found : Token × Span} (near : 1 ≤ distance)
    (within : distance ≤ reach) {parser : Parser}
    (held : parser.buffered[distance - 1]? = some found) :
    parser.peek distance = (found, parser) := by
  obtain ⟨inside, -⟩ := List.getElem?_eq_some_iff.1 held
  have enough : distance - parser.buffered.length = 0 := by omega
  rw [peek_apply near within, enough]
  simp only [fill, List.getD_eq_getElem?_getD, held, Option.getD_some]

theorem peek_again {distance further : Nat} (near : 1 ≤ distance) (within : distance ≤ reach)
    (beyond : 1 ≤ further) (inReach : further ≤ reach) (parser : Parser) :
    ((parser.peek distance).2.peek further).2.peek distance =
      ((parser.peek distance).1, ((parser.peek distance).2.peek further).2) := by
  have held := buffered_peek near within parser
  have inside := (List.getElem?_eq_some_iff.1 held).1
  apply peek_of_buffered near within
  rw [peek_apply beyond inReach, buffered_fill_getElem? inside, held]

theorem peek_same {distance : Nat} (near : 1 ≤ distance) (within : distance ≤ reach)
    (parser : Parser) : (parser.peek distance).2.peek distance = parser.peek distance :=
  peek_of_buffered near within (buffered_peek near within parser)

end Parser

namespace Haskell.Grammar

open Offside.Parser Offside.Parse

def isQualified (token : Token) : Bool :=
  token = .identifier ∨ token = .properIdentifier ∨ token.isOperator

theorem plain_of_qualified {token : Token} (found : isQualified token = true) :
    token.isPlain = true := by
  cases token <;> first | rfl | cases found

/-- A qualifier looked for with each token looked at once. -/
def qualifierInSight : Parse Bool := do
  if !(← isAt .properIdentifier) then return false
  else
    let dot ← (modifyGet (Parser.peek 1) : Parse (Token × Span))
    if dot.1 != .dot then return false
    else
      let last ← (modifyGet (Parser.peek 2) : Parse (Token × Span))
      if isQualified last.1 then
        let first ← aheadSpan
        return first.stop = dot.2.start ∧ dot.2.stop = last.2.start
      else return false

theorem qualifierFollows_eq (parser : Parser) :
    qualifierFollows parser = qualifierInSight parser := by
  have dotAgain := peek_again (Nat.le_refl 1) (by decide) (by decide : 1 ≤ 2) (by decide) parser
  have lastAgain := peek_same (by decide : 1 ≤ 2) (by decide) (parser.peek 1).2
  let looked := ((parser.peek 1).2.peek 2).2
  have spanAt : ∀ distance (parser : Parser), peekSpan distance parser =
      ((parser.peek distance).1.2, (parser.peek distance).2) := fun _ _ => rfl
  have compared :
      (do
        let first ← aheadSpan
        let dot ← peekSpan 1
        let final ← peekSpan 2
        return decide (first.stop = dot.start ∧ dot.stop = final.start) : Parse Bool) looked =
        (decide (looked.aheadSpan.stop = (parser.peek 1).1.2.start ∧
          (parser.peek 1).1.2.stop = ((parser.peek 1).2.peek 2).1.2.start), looked) := by
    rw [bind_apply, bind_apply, bind_apply, spanAt, spanAt]
    have sees : Parse.aheadSpan looked = (looked.aheadSpan, looked) := rfl
    simp only [sees, looked, dotAgain, lastAgain]
    rfl
  have tokenAt : ∀ distance (parser : Parser), Parse.peek distance parser =
      ((parser.peek distance).1.1, (parser.peek distance).2) := fun _ _ => rfl
  have bothAt : ∀ distance (parser : Parser),
      (modifyGet (Parser.peek distance) : Parse (Token × Span)) parser = parser.peek distance :=
    fun _ _ => rfl
  have atProper : isAt .properIdentifier parser =
      (decide (parser.ahead = .properIdentifier), parser) := rfl
  unfold qualifierFollows qualifierInSight
  simp only [isQualified, decide_eq_true_eq]
  rw [bind_apply, bind_apply, atProper]
  cases decide (parser.ahead = .properIdentifier) with
  | false => rfl
  | true =>
    simp only [Bool.not_true, Bool.false_eq_true, if_false]
    rw [bind_apply, bind_apply, tokenAt, bothAt]
    simp only
    split
    · rfl
    · rw [bind_apply, bind_apply, tokenAt, bothAt]
      simp only
      split
      · exact compared
      · rfl

variable {pairing : Pairing} [lawful : pairing.Lawful] {eager : Bool} {brackets after : List Token}
  {left right : Parser}

theorem plain_of_variableOperator {token : Token} (found : token.isVariableOperator = true) :
    token.isPlain = true := by
  cases token <;> first | rfl | cases found

theorem plain_of_constructorOperator {token : Token} (found : token.isConstructorOperator = true) :
    token.isPlain = true := by
  cases token <;> first | rfl | cases found

theorem nameAt_keeps {token : Token} (plain : token.isPlain = true) :
    Keeps pairing true (nameAt token) (Name.moved pairing.move) := by
  intro brackets left right
  unfold nameAt
  apply Mirrors.aheadSpan
  apply Mirrors.expect_plain plain
  intro found left' right'
  cases found with
  | true => exact Mirrors.pure (by simp [Name.moved])
  | false => exact Mirrors.pure (by simp [Name.moved])

theorem variableIdentifier_keeps :
    Keeps pairing true variableIdentifier (Name.moved pairing.move) :=
  nameAt_keeps rfl

theorem properIdentifier_keeps :
    Keeps pairing true properIdentifier (Name.moved pairing.move) :=
  nameAt_keeps rfl

theorem variableSymbol_keeps : Keeps pairing true variableSymbol (Name.moved pairing.move) := by
  intro brackets left right
  unfold variableSymbol
  apply Mirrors.aheadSpan
  apply Mirrors.ahead
  split
  · rename_i found
    apply Mirrors.pass rfl (plain_of_variableOperator found)
    exact fun _ _ => Mirrors.pure (by simp [Name.moved])
  · apply Mirrors.fail
    exact fun _ _ => Mirrors.pure (by simp [Name.moved])

theorem constructorSymbol_keeps :
    Keeps pairing true constructorSymbol (Name.moved pairing.move) := by
  intro brackets left right
  unfold constructorSymbol
  apply Mirrors.aheadSpan
  apply Mirrors.ahead
  split
  · rename_i found
    apply Mirrors.pass rfl (plain_of_constructorOperator found)
    exact fun _ _ => Mirrors.pure (by simp [Name.moved])
  · apply Mirrors.fail
    exact fun _ _ => Mirrors.pure (by simp [Name.moved])

theorem symbol_keeps : Keeps pairing true symbol (Name.moved pairing.move) := by
  intro brackets left right
  unfold symbol
  apply Mirrors.ahead
  split
  · exact constructorSymbol_keeps brackets left right
  · exact variableSymbol_keeps brackets left right

section Looking

variable {β : Type} {next other : Bool → Parse β} {change : β → β}

/-- Looking for a qualifier consumes nothing. One that follows is a proper identifier with a dot after
it. -/
theorem mirrors_qualifierFollows
    (later : ∀ follows left' opposite, Alike left left' →
      (follows = true → left.ahead = .properIdentifier ∧ left.consume.ahead = .dot) →
      Mirrors pairing eager brackets after (next follows) (other follows) change left' opposite) :
    Mirrors pairing eager brackets after (qualifierFollows >>= next) (qualifierFollows >>= other)
      change left right := by
  have inSight : Mirrors pairing eager brackets after (qualifierInSight >>= next)
      (qualifierInSight >>= other) change left right := by
    unfold qualifierInSight
    simp only [mirrors_bind_assoc]
    apply Mirrors.isAt rfl
    · intro proper
      simp only [Bool.not_true, Bool.false_eq_true, if_false, mirrors_bind_assoc]
      have inner := isAtEnd_of_ahead (by decide) proper
      have solid : left.ahead.isBrace = false := by rw [proper]; rfl
      apply Mirrors.peekBoth inner solid (Or.inl rfl)
      intro dot dotSeen middle opposite alike dotGlimpsed isNext
      have none : ∀ left' opposite, Alike left left' →
          Mirrors pairing false brackets after (pure false >>= next) (pure false >>= other) change
            left' opposite :=
        fun left' opposite alike => (later false left' opposite alike (by simp)).lax
      rw [dotGlimpsed.question (· != .dot) rfl]
      split
      · exact none middle opposite alike
      · rename_i isDot
        have isDot : dot.1 = .dot := by simpa using isDot
        have isNext : left.consume.ahead = .dot := (isNext rfl).symm.trans isDot
        have dotSame := dotGlimpsed.eq_of_solid (by rw [isDot]; rfl)
        subst dotSame
        simp only [mirrors_bind_assoc]
        have goesOn : Pairing.Reachable 2 middle := by
          refine Or.inr ⟨rfl, ?_⟩
          rw [alike.next, isNext]
          decide
        apply Mirrors.peekBoth (alike.isAtEnd.trans inner) (by rw [alike.ahead]; exact solid)
          goesOn
        intro last lastSeen final opposite finalAlike lastGlimpsed _
        have alike := alike.trans finalAlike
        rw [lastGlimpsed.question isQualified rfl]
        split
        · rename_i named
          have solid := Token.isBrace_of_plain (plain_of_qualified named)
          have lastSame := lastGlimpsed.eq_of_solid solid
          subst lastSame
          simp only [mirrors_bind_assoc]
          apply Mirrors.aheadSpan
          simp only [mirrors_pure_bind, lawful.touches]
          apply Mirrors.solid
          · rw [alike.ahead, proper]
            rfl
          · exact (later _ final opposite alike fun _ => ⟨proper, isNext⟩).lax
        · exact none final opposite alike
    · intro _
      exact later false left right ⟨rfl, rfl, rfl⟩ (by simp)
  apply Mirrors.congr _ _ inSight
  · rw [bind_apply, qualifierFollows_eq]
    rfl
  · intro _ _
    rw [bind_apply, qualifierFollows_eq]
    rfl

theorem mirrors_qualifiedSymbolFollows {isKind : Token → Bool}
    (blind : isKind .semicolon = isKind .closeBrace)
    (later : ∀ follows left' opposite, Alike left left' →
      (follows = true → left.ahead = .properIdentifier) →
      Mirrors pairing eager brackets after (next follows) (other follows) change left' opposite) :
    Mirrors pairing eager brackets after (qualifiedSymbolFollows isKind >>= next)
      (qualifiedSymbolFollows isKind >>= other) change left right := by
  unfold qualifiedSymbolFollows
  simp only [mirrors_bind_assoc]
  apply mirrors_qualifierFollows
  intro follows middle opposite alike found
  cases follows with
  | false => exact later false middle opposite alike (by simp)
  | true =>
    obtain ⟨proper, dot⟩ := found rfl
    have proper' := alike.ahead.trans proper
    simp only [if_true, mirrors_bind_assoc]
    have reachable : Pairing.Reachable 2 middle := by
      refine Or.inr ⟨rfl, ?_⟩
      rw [alike.next, dot]
      decide
    apply Mirrors.peek (isAtEnd_of_ahead (by decide) proper') (by rw [proper']; rfl) reachable
      (by rw [blind])
    intro token final opposite finalAlike _
    exact (later _ final opposite (alike.trans finalAlike) fun _ => proper).lax

theorem mirrors_quotedFollows {token : Token} (blind : token.isTelling = false)
    (later : ∀ follows left' opposite, Alike left left' →
      (follows = true → left.ahead = .backtick) →
      Mirrors pairing eager brackets after (next follows) (other follows) change left' opposite) :
    Mirrors pairing eager brackets after (quotedFollows token >>= next)
      (quotedFollows token >>= other) change left right := by
  unfold quotedFollows
  simp only [mirrors_bind_assoc]
  apply Mirrors.isAt rfl
  · intro quoted
    simp only [if_true, mirrors_bind_assoc]
    have same : other (decide (Token.semicolon = token)) =
        other (decide (Token.closeBrace = token)) := by
      simp only [Token.isTelling, Bool.or_eq_false_iff, decide_eq_false_iff_not] at blind
      rw [decide_eq_false (Ne.symm blind.1), decide_eq_false (Ne.symm blind.2)]
    apply Mirrors.peek (isAtEnd_of_ahead (by decide) quoted) (by rw [quoted]; rfl) (Or.inl rfl) same
    intro found final opposite alike _
    exact (later _ final opposite alike fun _ => quoted).lax
  · intro _
    exact later false left right ⟨rfl, rfl, rfl⟩ (by simp)

end Looking

theorem qualifier_mirrors (proper : left.ahead = .properIdentifier)
    (dot : left.consume.ahead = .dot) :
    Mirrors pairing true brackets brackets qualifier qualifier (Name.moved pairing.move) left
      right := by
  unfold qualifier
  apply Mirrors.aheadSpan
  have inner := isAtEnd_of_ahead (by decide) proper
  apply Mirrors.consume inner (by rw [proper]; exact fun _ => rfl) (by rw [proper]; rfl)
  intro opposite
  apply Mirrors.pass dot rfl
  exact fun _ _ => Mirrors.pure (by simp [Name.moved])

theorem qualifiers_keep :
    Keeps pairing false (many qualifierFollows qualifier)
      (List.map (Name.moved pairing.move)) := by
  intro brackets left right
  apply many_mirrors
  intro left right
  apply mirrors_qualifierFollows
  intro follows left' opposite alike found
  cases follows with
  | false => exact Mirrors.pure rfl
  | true =>
    obtain ⟨proper, dot⟩ := found rfl
    have reads : Mirrors pairing true brackets brackets qualifier qualifier
        (Name.moved pairing.move) left' opposite :=
      qualifier_mirrors (alike.ahead.trans proper) (alike.next.trans dot)
    exact reads.lax.map fun name => rfl

/-- A name spans the segments that it is made of, which belong to one file or are at fault. -/
theorem joined_mirrors {first last : Span} {make mirror : Span → Name}
    (same : ∀ span, mirror (pairing.move span) = (make span).moved pairing.move) :
    Mirrors pairing false brackets brackets (orRaise ((first.join last).map make))
      (orRaise (((pairing.move first).join (pairing.move last)).map mirror))
      (Name.moved pairing.move) left right := by
  unfold Span.join
  rw [lawful.file, lawful.file]
  by_cases oneFile : first.file = last.file
  · rw [if_pos oneFile, if_pos oneFile, ← lawful.through]
    exact Mirrors.pure (same _)
  · rw [if_neg oneFile, if_neg oneFile]
    let fault := Fault.filesDiffer first.file last.file
    let failed : Parse Name := orRaise (.error fault)
    have known : ∀ parser, failed parser = (default, (Mishap.raised fault).apply parser) :=
      fun _ => rfl
    have otherKnown : pairing.Forgiving → pairing.pairs brackets left right →
        failed right = ((default : Name).moved pairing.move, (Mishap.raised fault).apply right) := by
      intro forgiving _
      rw [known, forgiving.move, Name.moved_id]
    have spoils : Mirrors pairing false brackets brackets (failed >>= pure) (failed >>= pure)
        (Name.moved pairing.move) left right :=
      Mirrors.spoil (.raised fault) (known left) otherKnown fun _ => Mirrors.pure rfl
    exact spoils

theorem ofSegments_mirrors {segments : List Name} (nonempty : segments ≠ []) :
    Mirrors pairing false brackets brackets (ofSegments segments)
      (ofSegments (segments.map (Name.moved pairing.move))) (Name.moved pairing.move) left
      right := by
  unfold ofSegments
  match segments with
  | [name] => exact Mirrors.pure rfl
  | first :: second :: later =>
    have lastMoved : ((second :: later).map (Name.moved pairing.move)).getLast (by simp) =
        ((second :: later).getLast (by simp)).moved pairing.move := List.getLast_map (by simp)
    rw [List.map_cons, List.map_cons, ofSegments_several, ofSegments_several]
    simp only [← List.map_cons, lastMoved, Name.span_moved]
    apply joined_mirrors
    intro span
    simp [Name.moved]

theorem segments_mirrors {last : Parse Name}
    (keeps : Keeps pairing eager last (Name.moved pairing.move)) (qualifiers : List Name) :
    Mirrors pairing eager brackets brackets
      (do let name ← last; ofSegments (qualifiers ++ [name]))
      (do let name ← last; ofSegments (qualifiers.map (Name.moved pairing.move) ++ [name]))
      (Name.moved pairing.move) left right := by
  apply Mirrors.bind (keeps brackets left right)
  intro name left' right'
  have made : Mirrors pairing false brackets brackets (ofSegments (qualifiers ++ [name]))
      (ofSegments ((qualifiers ++ [name]).map (Name.moved pairing.move)))
      (Name.moved pairing.move) left' right' :=
    ofSegments_mirrors (by simp)
  simpa using made

theorem qualifiedBy_keeps {last : Parse Name}
    (keeps : Keeps pairing true last (Name.moved pairing.move)) :
    Keeps pairing false (qualifiedBy last) (Name.moved pairing.move) := by
  intro brackets left right
  unfold qualifiedBy
  apply Mirrors.bind (qualifiers_keep brackets left right)
  exact fun qualifiers left right => (segments_mirrors keeps qualifiers).lax

theorem eitherIdentifier_keeps :
    Keeps pairing true eitherIdentifier (Name.moved pairing.move) := by
  intro brackets left right
  unfold eitherIdentifier
  apply Mirrors.isAt rfl
  · exact fun _ => variableIdentifier_keeps brackets left right
  · exact fun _ => properIdentifier_keeps brackets left right

theorem qualifiedIdentifier_keeps :
    Keeps pairing false qualifiedIdentifier (Name.moved pairing.move) :=
  qualifiedBy_keeps eitherIdentifier_keeps

theorem parenthesizedSymbol_mirrors {last : Parse Name} (found : left.ahead = .openParen)
    (keeps : Keeps pairing true last (Name.moved pairing.move)) :
    Mirrors pairing true brackets brackets (parenthesizedSymbol last) (parenthesizedSymbol last)
      (Name.moved pairing.move) left right := by
  unfold parenthesizedSymbol
  apply Mirrors.take found (by decide) (fun _ => rfl) rfl
  intro left right
  apply Mirrors.bind (qualifiedBy_keeps keeps _ left right)
  intro name left right
  apply Mirrors.expectOrSkipTo (by decide) (fun _ => rfl) rfl
  exact fun _ _ _ => Mirrors.pure rfl

theorem quotedOperator_mirrors (found : left.ahead = .backtick) :
    Mirrors pairing true brackets brackets quotedOperator quotedOperator
      (Name.moved pairing.move) left right := by
  unfold quotedOperator
  apply Mirrors.pass found rfl
  intro left right
  apply Mirrors.bind (qualifiedIdentifier_keeps _ left right)
  intro name left right
  apply Mirrors.expectOrSkipTo (by decide) (fun _ => rfl) rfl
  exact fun _ _ _ => Mirrors.pure rfl

theorem variableName_keeps : Keeps pairing true variableName (Name.moved pairing.move) := by
  intro brackets left right
  unfold variableName
  apply Mirrors.isAt rfl
  · exact fun found => parenthesizedSymbol_mirrors found variableSymbol_keeps
  · exact fun _ => variableIdentifier_keeps brackets left right

theorem variableOrConstructor_keeps :
    Keeps pairing true variableOrConstructor (Name.moved pairing.move) := by
  intro brackets left right
  unfold variableOrConstructor
  apply Mirrors.ahead
  split
  · rename_i found
    exact parenthesizedSymbol_mirrors found symbol_keeps
  · exact properIdentifier_keeps brackets left right
  · exact variableIdentifier_keeps brackets left right

theorem moduleName_keeps : Keeps pairing true moduleName (Name.moved pairing.move) := by
  intro brackets left right
  unfold moduleName
  apply Mirrors.bind (properIdentifier_keeps brackets left right)
  intro first left right
  have later : Mirrors pairing false brackets brackets
      (many
        (do if ← isAt .dot then return (← Parse.peek 1) = .properIdentifier else return false)
        (do consume; properIdentifier))
      (many
        (do if ← isAt .dot then return (← Parse.peek 1) = .properIdentifier else return false)
        (do consume; properIdentifier))
      (List.map (Name.moved pairing.move)) left right := by
    apply many_mirrors
    intro left right
    unfold oneRound
    simp only [mirrors_bind_assoc]
    apply Mirrors.isAt rfl
    · intro dot
      simp only [if_true, mirrors_bind_assoc]
      apply Mirrors.peek (isAtEnd_of_ahead (by decide) dot) (by rw [dot]; rfl) (Or.inl rfl) rfl
      intro token left' opposite alike _
      simp only [mirrors_pure_bind]
      split
      · simp only [mirrors_bind_assoc]
        apply Mirrors.pass (alike.ahead.trans dot) rfl
        exact fun left right => (properIdentifier_keeps _ left right).lax.map fun _ => rfl
      · exact Mirrors.pure rfl
    · intro _
      exact Mirrors.pure rfl
  apply Mirrors.bind later
  intro names left right
  exact ofSegments_mirrors (by simp)

def Term.moved (change : Span → Span) : Term → Term
  | .operand name => .operand (name.moved change)
  | .operator name => .operator (name.moved change)

theorem qualifiedTerm_keeps : Keeps pairing false qualifiedTerm (Term.moved pairing.move) := by
  intro brackets left right
  unfold qualifiedTerm
  apply Mirrors.bind (qualifiers_keep brackets left right)
  intro qualifiers left right
  apply Mirrors.ahead
  split
  · have segments : Mirrors pairing true brackets brackets _ _ (Name.moved pairing.move) left right :=
      segments_mirrors symbol_keeps qualifiers
    exact segments.map fun _ => rfl
  · have segments : Mirrors pairing true brackets brackets _ _ (Name.moved pairing.move) left right :=
      segments_mirrors eitherIdentifier_keeps qualifiers
    exact segments.map fun _ => rfl

section Operators

abbrev operatorMoved (change : Span → Span) : Option Name → Option Name :=
  Option.map (Name.moved change)

theorem operator?_keeps : Keeps pairing false operator? (operatorMoved pairing.move) := by
  intro brackets left right
  unfold operator?
  apply Mirrors.ahead_blind rfl
  split
  · exact (symbol_keeps brackets left right).lax.map fun _ => rfl
  · apply mirrors_qualifiedSymbolFollows rfl
    intro follows left' opposite alike _
    cases follows with
    | true => exact (qualifiedBy_keeps symbol_keeps brackets left' opposite).map fun _ => rfl
    | false =>
      simp only [Bool.false_eq_true, if_false]
      split
      · rename_i quoted
        exact (quotedOperator_mirrors (alike.ahead.trans quoted)).lax.map fun _ => rfl
      · exact Mirrors.pure rfl

theorem variableOperator?_keeps :
    Keeps pairing false variableOperator? (operatorMoved pairing.move) := by
  intro brackets left right
  unfold variableOperator?
  apply Mirrors.ahead_blind rfl
  split
  · exact (variableSymbol_keeps brackets left right).lax.map fun _ => rfl
  · apply mirrors_quotedFollows rfl
    intro follows left' opposite alike quoted
    cases follows with
    | true =>
      exact (quotedOperator_mirrors (alike.ahead.trans (quoted rfl))).lax.map fun _ => rfl
    | false => exact Mirrors.pure rfl

theorem constructorOperator?_keeps :
    Keeps pairing false constructorOperator? (operatorMoved pairing.move) := by
  intro brackets left right
  unfold constructorOperator?
  apply Mirrors.ahead_blind rfl
  split
  · exact (constructorSymbol_keeps brackets left right).lax.map fun _ => rfl
  · apply mirrors_qualifiedSymbolFollows rfl
    intro follows middle opposite alikeMiddle _
    cases follows with
    | true =>
      exact (qualifiedBy_keeps constructorSymbol_keeps brackets middle opposite).map fun _ => rfl
    | false =>
      simp only [Bool.false_eq_true, if_false]
      apply mirrors_quotedFollows rfl
      intro follows left' opposite alike quoted
      cases follows with
      | true =>
        exact (quotedOperator_mirrors (alike.ahead.trans (quoted rfl))).lax.map fun _ => rfl
      | false => exact Mirrors.pure rfl

end Operators

end Haskell.Grammar

end Offside
