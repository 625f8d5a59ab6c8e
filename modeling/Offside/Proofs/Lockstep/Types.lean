import Offside.Haskell.Grammar.Types
import Offside.Proofs.Lockstep.Names

/-!
Blocks, levels and types in lockstep. The items of a block are compared apart from the seam, since the
closing brace of the block has still to be consumed after them.
-/

namespace Offside.Haskell.Grammar

set_option autoImplicit false

open Offside.Parser Offside.Parse

variable {pairing : Pairing} [lawful : pairing.Lawful] {eager : Bool} {brackets after : List Token}
  {left right : Parser}

/-- Once a token was rejected it matters no more which brackets are open. -/
theorem reject_mirrors :
    Mirrors pairing true brackets after reject reject pairing.move left right := by
  unfold reject
  apply Mirrors.aheadSpan
  apply Mirrors.ahead
  split
  · apply Mirrors.reportUnexpected
    exact fun _ _ => Mirrors.pure rfl
  · apply Mirrors.fail
    exact fun _ _ => Mirrors.pure rfl

theorem reject_keeps : Keeps pairing true reject pairing.move :=
  fun _ _ _ => reject_mirrors

section Blocks

variable {α : Type} {change : α → α}

theorem endOfItem_keeps (apart : pairing.Apart) : Keeps pairing false endOfItem id := by
  intro brackets left right
  unfold endOfItem
  have skips : ∀ left right, Mirrors pairing false brackets brackets (skipAll .semicolon)
      (skipAll .semicolon) id left right := by
    intro left right
    have ends : Mirrors pairing false brackets brackets (skipAll .semicolon >>= pure)
        (skipAll .semicolon >>= pure) id left right :=
      Mirrors.skipAll rfl (Or.inr apart) fun _ _ => Mirrors.pure rfl
    exact ends
  apply Mirrors.ahead_blind rfl
  split
  · exact skips left right
  · exact skips left right
  · exact skips left right
  · have reported : Mirrors pairing false brackets brackets
        ((do Parse.reportUnexpected; skipToAny [.semicolon, .closeBrace]) >>=
          fun _ => skipAll .semicolon)
        ((do Parse.reportUnexpected; skipToAny [.semicolon, .closeBrace]) >>=
          fun _ => skipAll .semicolon) id left right :=
      Mirrors.reportAndSkip skips
    exact reported

theorem itemThenEnd_mirrors {item : Parse α} (apart : pairing.Apart)
    (mirrors : Mirrors pairing eager brackets brackets item item change left right) :
    Mirrors pairing eager brackets brackets (itemThenEnd item) (itemThenEnd item) change left
      right := by
  unfold itemThenEnd
  apply Mirrors.bind mirrors
  intro value left right
  apply Mirrors.bind (endOfItem_keeps apart brackets left right)
  exact fun _ _ _ => Mirrors.pure rfl

theorem items_keep {item : Parse α} (apart : pairing.Apart)
    (keeps : Keeps pairing eager item change) :
    Keeps pairing false (many itemFollows (itemThenEnd item)) (List.map change) := by
  intro brackets left right
  apply many_mirrors
  intro left right
  unfold oneRound itemFollows
  simp only [mirrors_bind_assoc]
  apply Mirrors.ahead_apart apart
  split
  · exact Mirrors.pure rfl
  · exact Mirrors.pure rfl
  · exact (itemThenEnd_mirrors apart (keeps brackets left right)).lax.map fun _ => rfl

/-- Once the closing brace of a block was consumed the seam is not where the block ended. -/
theorem closed_of_good {middle : Parser} {value : α}
    (good : pairing.good
      ((do let _ ← expectOrSkipTo .closeBrace; return value : Parse α) middle).2) :
    ¬pairing.seam middle := by
  have inner : Token.closeBrace ≠ .endOfInput := by decide
  have applied := expectOrSkipTo_apply inner middle
  rw [bind_apply, applied] at good
  split at good
  · exact lawful.stays good
  · have leads : Leads (fun _ => True) middle.fail
        (Parse.accept .closeBrace (middle.fail.skipTo .closeBrace)).2 :=
      (Leads.skipTo .closeBrace middle.fail).trans (Leads.accept (by decide) _)
    exact (lawful.mishap .failure middle (lawful.good_of_leads leads good)).seamless middle

theorem block_keeps {item : Parse α} (keeps : Keeps pairing.apart eager item change) :
    Keeps pairing false (block item) (List.map change) := by
  intro brackets left right
  unfold block
  apply Mirrors.expect_either (by decide) (by simp) rfl
  · intro left right
    have inside : Mirrors pairing.apart false (.openBrace :: brackets) (.openBrace :: brackets) _ _
        (List.map change) left right :=
      items_keep pairing.apart_apart keeps _ left right
    apply Mirrors.within inside fun _ _ => closed_of_good
    intro items left right
    apply Mirrors.expectOrSkipTo (by decide) (by simp) rfl
    exact fun _ _ _ => Mirrors.pure rfl
  · exact fun _ _ => Mirrors.pure rfl

end Blocks

structure Level.Mirrored (inner : Level) : Prop where
  expression : ∀ (pairing : Pairing) [pairing.Lawful],
    Keeps pairing true inner.expression (Expr.moved pairing.move)
  pattern : ∀ (pairing : Pairing) [pairing.Lawful],
    Keeps pairing true inner.pattern (Expr.moved pairing.move)
  type : ∀ (pairing : Pairing) [pairing.Lawful],
    Keeps pairing true inner.type (TypeTerm.moved pairing.move)
  expressionAtom : ∀ (pairing : Pairing) [pairing.Lawful],
    Keeps pairing true inner.expressionAtom (Expr.moved pairing.move)
  patternAtom : ∀ (pairing : Pairing) [pairing.Lawful],
    Keeps pairing true inner.patternAtom (Expr.moved pairing.move)
  parentheses : ∀ (pairing : Pairing) [pairing.Lawful] {brackets : List Token}
    {left right : Parser}, left.ahead = .openParen →
      Mirrors pairing true brackets brackets inner.parentheses inner.parentheses
        (Expr.moved pairing.move) left right
  brackets : ∀ (pairing : Pairing) [pairing.Lawful] {brackets : List Token}
    {left right : Parser}, left.ahead = .openBracket →
      Mirrors pairing true brackets brackets inner.brackets inner.brackets
        (Expr.moved pairing.move) left right
  declBlock : ∀ (pairing : Pairing) [pairing.Lawful],
    Keeps pairing false inner.declBlock (List.map (Decl.moved pairing.move))
  alternativeBlock : ∀ (pairing : Pairing) [pairing.Lawful],
    Keeps pairing false inner.alternativeBlock (List.map (Alternative.moved pairing.move))
  statementBlock : ∀ (pairing : Pairing) [pairing.Lawful],
    Keeps pairing false inner.statementBlock (List.map (Statement.moved pairing.move))

variable {inner : Level}

theorem arrowConstructor_mirrors (start : Span) :
    Mirrors pairing false (.openParen :: brackets) brackets (arrowConstructor start)
      (arrowConstructor (pairing.move start)) (TypeTerm.moved pairing.move) left right := by
  unfold arrowConstructor
  apply Mirrors.skipAll rfl (Or.inl rfl)
  intro left right
  apply Mirrors.accept_either rfl rfl
  exact fun _ _ _ => Mirrors.closed (by decide) rfl (by simp [TypeTerm.moved, Name.moved])

theorem parenthesizedType_mirrors (mirrored : inner.Mirrored) (found : left.ahead = .openParen) :
    Mirrors pairing true brackets brackets (parenthesizedType inner) (parenthesizedType inner)
      (TypeTerm.moved pairing.move) left right := by
  unfold parenthesizedType
  apply Mirrors.aheadSpan
  apply Mirrors.take found (by decide) (fun _ => rfl) rfl
  generalize left.aheadSpan = start
  intro left right
  apply Mirrors.accept (by decide) (by simp) rfl rfl
  · exact fun _ _ => Mirrors.finish (by simp [TypeTerm.moved])
  · intro _
    simp only [Bool.false_eq_true, if_false]
    apply Mirrors.isAt rfl
    · exact fun _ => Mirrors.isAt rfl (fun _ => arrowConstructor_mirrors start) fun _ =>
        arrowConstructor_mirrors start
    · intro _
      apply Mirrors.isAt rfl
      · exact fun _ => arrowConstructor_mirrors start
      · intro _
        simp only [Bool.or_self, Bool.false_eq_true, if_false]
        apply Mirrors.bind (mirrored.type pairing _ left right).lax
        intro first left right
        apply Mirrors.isAt rfl
        · intro _
          apply Mirrors.bind (many_accept_mirrors rfl rfl
            (fun left right => (mirrored.type pairing _ left right).lax) left right)
          intro later left right
          exact Mirrors.closed (by decide) rfl (by simp [TypeTerm.moved])
        · intro _
          apply Mirrors.expectOrSkipTo (by decide) (by simp) rfl
          exact fun _ _ _ => Mirrors.pure rfl

theorem listType_mirrors (mirrored : inner.Mirrored) (found : left.ahead = .openBracket) :
    Mirrors pairing true brackets brackets (listType inner) (listType inner)
      (TypeTerm.moved pairing.move) left right := by
  unfold listType
  apply Mirrors.aheadSpan
  apply Mirrors.take found (by decide) (fun _ => rfl) rfl
  intro left right
  apply Mirrors.accept (by decide) (by simp) rfl rfl
  · exact fun _ _ => Mirrors.finish (by simp [TypeTerm.moved, Name.moved])
  · intro _
    apply Mirrors.bind (mirrored.type pairing _ left right).lax
    intro element left right
    exact Mirrors.closed (by decide) rfl (by simp [TypeTerm.moved])

theorem typeAtom_keeps (mirrored : inner.Mirrored) :
    Keeps pairing true (typeAtom inner) (TypeTerm.moved pairing.move) := by
  intro brackets left right
  unfold typeAtom
  apply Mirrors.ahead
  split
  · rename_i found
    apply Mirrors.solid (by rw [found]; rfl)
    exact (qualifiedIdentifier_keeps brackets left right).map fun _ => by simp [TypeTerm.moved]
  · exact (variableIdentifier_keeps brackets left right).map fun _ => by simp [TypeTerm.moved]
  · rename_i found
    exact parenthesizedType_mirrors mirrored found
  · rename_i found
    exact listType_mirrors mirrored found
  · exact (reject_keeps brackets left right).map fun _ => by simp [TypeTerm.moved]

theorem typeApplication_keeps (mirrored : inner.Mirrored) :
    Keeps pairing true (typeApplication inner) (TypeTerm.moved pairing.move) := by
  intro brackets left right
  unfold typeApplication
  apply Mirrors.aheadSpan
  apply Mirrors.bind (typeAtom_keeps mirrored brackets left right)
  intro head left right
  apply Mirrors.bind (many_while_mirrors rfl
    (fun left right _ => (typeAtom_keeps mirrored _ left right).lax) left right)
  intro arguments left right
  rw [List.isEmpty_map]
  split
  · exact Mirrors.pure rfl
  · exact Mirrors.finish (by simp [TypeTerm.moved])

/-- By induction on the parameters and the result, from the right. -/
theorem arrows_mirrors (first : TypeTerm) (later : List TypeTerm) (left right : Parser) :
    Mirrors pairing false brackets brackets (arrows first later)
      (arrows (first.moved pairing.move) (later.map (TypeTerm.moved pairing.move)))
      (TypeTerm.moved pairing.move) left right := by
  induction later generalizing first left right with
  | nil => exact Mirrors.pure rfl
  | cons next later induction =>
    unfold arrows
    apply Mirrors.bind (induction next left right)
    intro result left right
    simp only [TypeTerm.span_moved]
    apply Mirrors.join
    exact fun _ _ _ => Mirrors.pure (by simp [TypeTerm.moved])

theorem functionType_keeps (mirrored : inner.Mirrored) :
    Keeps pairing true (functionType inner) (TypeTerm.moved pairing.move) := by
  intro brackets left right
  unfold functionType
  apply Mirrors.bind (typeApplication_keeps mirrored brackets left right)
  intro first left right
  apply Mirrors.bind (many_accept_mirrors rfl rfl
    (fun left right => (typeApplication_keeps mirrored _ left right).lax) left right)
  exact fun later left right => arrows_mirrors first later left right

theorem typeProduction_keeps (mirrored : inner.Mirrored) :
    Keeps pairing true (typeProduction inner) (TypeTerm.moved pairing.move) := by
  intro brackets left right
  unfold typeProduction
  apply Mirrors.aheadSpan
  apply Mirrors.bind (functionType_keeps mirrored brackets left right)
  generalize left.aheadSpan = start
  intro type left right
  apply Mirrors.accept_plain rfl rfl
  · intro left right
    apply Mirrors.bind (functionType_keeps mirrored brackets left right).lax
    exact fun body left right => Mirrors.finish (by simp [TypeTerm.moved])
  · exact fun _ => Mirrors.pure rfl

end Offside.Haskell.Grammar
