import Offside.Proofs.Extents.Terms
import Offside.Proofs.Spans.Declarations

/-!
Declarations hold what stands in them. A declaration has no span to be placed itself; the expressions,
patterns and types below it are where they should be.
-/

namespace Offside.Haskell.Grammar

set_option autoImplicit false

open Offside.Parser Offside.Parse

variable {text : Tokens} {parser origin : Parser} {inner : Level} {owed : List Node}

/-- A node that needs no place of its own is returned, with a span from anywhere. -/
theorem returnNode {α : Type} {make : Span → α} {tag : α → Node} {begun : Bool} {start : Span}
    (own : ∀ span, (tag (make span)).Exact text)
    (inside : ∀ span, (tag (make span)).children ⊆ owed) :
    TakesFrom text origin (Gathered text begun owed) (do return make (← Parse.spanFrom start))
      (fun value _ => Held text [tag value]) parser :=
  takes_spanFrom.2 (.node (own _) (inside _))

theorem guardedExpr_gathers (lays : inner.Lays text) {separator : Token}
    (inside : separator ≠ .endOfInput) (found : parser.ahead = .pipe) :
    Gathers text (guardedExpr inner separator) (fun made => [.guarded made]) parser := by
  unfold guardedExpr
  simp only [takes_aheadSpan]
  refine .start (.drop (isAtEnd_of_ahead (by decide) found) ?_)
  refine .gather (lays.expression _) fun guard _ => .due inside fun _ _ => ?_
  refine .gather (lays.expression _) fun body _ => ?_
  exact returnNode (fun _ => trivial) fun _ => List.Subset.refl _

theorem whereDecls?_gathers (lays : inner.Lays text) (parser : Parser) :
    Gathers text (whereDecls? inner) (List.map .decl) parser := by
  unfold whereDecls?
  exact .start (.takeIf (by decide) (fun _ => .last (lays.declBlock _)) fun _ =>
    .pure fun _ _ => .nil)

theorem finishRightSide_gathers (lays : inner.Lays text) (start : Span) (body : Body)
    (parser : Parser) :
    TakesFrom text origin (Gathered text false body.nodes) (finishRightSide inner start body)
      (fun made _ => Held text [.rightSide made]) parser := by
  unfold finishRightSide
  refine .gather (whereDecls?_gathers lays parser) fun decls _ => ?_
  exact returnNode (fun _ => trivial) fun _ => List.Subset.refl _

theorem rightSide_gathers (lays : inner.Lays text) {separator : Token}
    (inside : separator ≠ .endOfInput) (parser : Parser) :
    Gathers text (rightSide inner separator) (fun made => [.rightSide made]) parser := by
  unfold rightSide
  simp only [takes_aheadSpan, takes_isAt]
  split
  · refine .start (.gather (many_isAt_gathers (fun _ found => guardedExpr_gathers lays inside found)
      parser) fun alternatives after => ?_)
    exact finishRightSide_gathers lays _ (.guarded alternatives) after
  · refine .start (.takeIf inside (fun _ => ?_) fun _ => .reportUnexpected id)
    exact .gather (lays.expression _) fun body after =>
      finishRightSide_gathers lays _ (.plain body) after

theorem gathers_name {production : Parse Name} {made : Name → Tokens → Prop}
    (takes : Takes text production made parser) :
    Gathers text production (fun name => [.name name]) parser :=
  takes.mono fun name _ _ => held_name name

theorem gathers_maybeName {production : Parse (Option Name)}
    {made : Option Name → Tokens → Prop} (takes : Takes text production made parser) :
    Gathers text production (fun found => found.toList.map .name) parser := by
  refine takes.mono fun found _ _ => ?_
  cases found with
  | none => exact .nil
  | some name => exact held_name name

theorem parenthesizedSymbol_takes {last : Parse Name}
    (takes : ∀ start, Takes text last Name.Covers start) (found : parser.ahead = .openParen) :
    Takes text (parenthesizedSymbol last) (fun name => Expr.LaidOut text (.identifier name))
      parser := by
  unfold parenthesizedSymbol
  refine .beginWith (by rw [found]; rfl) (.bind (qualifiedBy_takes takes _) fun name after => ?_)
  refine .expectOrSkipTo (by decide) fun _ _ => .pure ?_
  rintro _ ⟨_, _, rfl, ⟨_, inside, rfl, ⟨known, rfl⟩, covers⟩, rfl⟩
  have opens := ((known.opens rfl).append inside).append [(.closeParen, after.aheadSpan)]
  rw [List.append_assoc] at opens ⊢
  exact ⟨opens, .enclosed found rfl (.plain covers.reaches), .intro nofun (held_name name).nodes⟩

theorem variableName_gathers (parser : Parser) :
    Gathers text variableName (fun name => [.name name]) parser := by
  unfold variableName
  simp only [takes_isAt]
  split
  · rename_i found
    exact gathers_name (parenthesizedSymbol_takes variableSymbol_takes (by simpa using found))
  · exact gathers_name (variableIdentifier_takes parser)

theorem precedence_quiet (parser : Parser) : Quiet text precedence parser := by
  have ends : ∀ (value : Option Nat) (after : Parser), after.isAtEnd = false →
      TakesFrom text parser (Gathered text false []) (do Parse.consume; return value)
        (fun _ _ => True) after :=
    fun value after inner => .consume inner (.pure fun _ _ => trivial)
  unfold precedence
  simp only [takes_isAt]
  split
  · rename_i found
    refine .start (.look (precedenceAhead_looks parser) fun value after alike => ?_)
    have found : after.ahead = .integer := alike.ahead.trans (by simpa using found)
    split
    · exact .reportUnexpected clean_of_consume
    · exact ends value after (isAtEnd_of_ahead (by decide) found)
  · exact .pure fun _ _ => trivial

theorem fixityOperator_gathers (parser : Parser) :
    Gathers text fixityOperator (fun name => [.name name]) parser := by
  unfold fixityOperator
  refine .start (.gather (gathers_maybeName (operator?_takes parser)) fun found after => ?_)
  cases found with
  | none => exact rejected_takes
  | some name => exact .give (List.Subset.refl _)

theorem fixityDecl_gathers (firm : isFirm parser.ahead = true) :
    Gathers text fixityDecl (fun made => [.decl made]) parser := by
  unfold fixityDecl
  simp only [takes_aheadSpan, takes_ahead]
  refine .begin firm (.pass (precedence_quiet _) fun precedence after => ?_)
  refine .gather (separated_gathers (by decide) fixityOperator_gathers after) fun operators _ => ?_
  exact returnNode (fun _ => trivial) fun _ => List.Subset.refl _

section Clauses

variable {start : Span}

variable (lays : inner.Lays text)

include lays

theorem typeSignature_gathers (first : Name) (parser : Parser) :
    TakesFrom text origin (Gathered text false [.name first]) (typeSignature inner start first)
      (fun made _ => Held text [.decl made]) parser := by
  unfold typeSignature
  refine .gather (many_gathers (accept_quiet (by decide)) variableName_gathers parser)
    fun later _ => .due (by decide) fun _ after => ?_
  refine .gather ((lays.type after).mono fun _ _ laid => laid.held) fun type _ => ?_
  exact returnNode (fun _ => trivial) fun _ => List.Subset.refl _

theorem operatorClause_gathers (left : Expr) (operator : Name) (parser : Parser) :
    TakesFrom text origin (Gathered text false [.expr left, .name operator])
      (operatorClause inner start left operator) (fun made _ => Held text [.decl made]) parser := by
  unfold operatorClause
  refine .gather (pattern_gathers lays parser) fun right after => ?_
  refine .gather (rightSide_gathers lays (by decide) after) fun body _ => ?_
  exact returnNode (fun _ => trivial) fun _ => by simp

theorem declAfterPattern_gathers (pattern : Expr) (parser : Parser) :
    TakesFrom text origin (Gathered text false [.expr pattern])
      (declAfterPattern inner start pattern) (fun made _ => Held text [.decl made]) parser := by
  unfold declAfterPattern
  refine .gather (gathers_maybeName (variableOperator?_takes parser)) fun found after => ?_
  cases found with
  | some operator => exact operatorClause_gathers lays pattern operator after
  | none =>
    refine .gather (rightSide_gathers lays (by decide) after) fun body _ => ?_
    exact returnNode (fun _ => trivial) fun _ => List.Subset.refl _

theorem functionClause_gathers (name : Name) (parser : Parser) :
    TakesFrom text origin (Gathered text false [.name name]) (functionClause inner start name)
      (fun made _ => Held text [.decl made]) parser := by
  unfold functionClause
  refine .gather (patternAtoms_gathers lays parser) fun parameters after => ?_
  refine .gather (rightSide_gathers lays (by decide) after) fun body _ => ?_
  exact returnNode (fun _ => trivial) fun _ => by simp

theorem patternDecl_gathers (parser : Parser) :
    TakesFrom text origin (· = []) (patternDecl inner start)
      (fun made _ => Held text [.decl made]) parser := by
  unfold patternDecl
  refine .bind (pattern_gathers lays parser) fun pattern after => ?_
  refine .weaken ?_ (declAfterPattern_gathers lays pattern after)
  rintro _ ⟨_, _, rfl, -, held⟩
  exact ⟨nofun, held⟩

end Clauses

theorem patternAfterVariable_takes (lays : inner.Lays text) (name : Name) (parser : Parser) :
    TakesFrom text origin (Expr.LaidOut text (.identifier name))
      (patternAfterVariable inner origin.aheadSpan name) (Expr.LaidOut text) parser := by
  unfold patternAfterVariable
  exact .chain (aliasAfter_takes lays.patternAtom name parser) (patternAfter_takes lays)

theorem takes_patternContinues {β : Type} {taken : Tokens → Prop} {made : β → Tokens → Prop}
    {next : Bool → Parse β}
    (later : ∀ continues after, Alike parser after →
      TakesFrom text origin taken (next continues) made after) :
    TakesFrom text origin taken (patternContinues >>= next) made parser := by
  unfold patternContinues
  simp only [takes_bind_assoc, takes_ahead]
  split
  · exact later true parser ⟨rfl, rfl, rfl⟩
  · exact takes_quotedFollows fun continues after alike _ => later continues after alike

theorem declAfterName_gathers (lays : inner.Lays text) (name : Name) (parser : Parser) :
    TakesFrom text origin (Expr.LaidOut text (.identifier name))
      (declAfterName inner origin.aheadSpan name) (fun made _ => Held text [.decl made])
      parser := by
  have known : ∀ tokens, Expr.LaidOut text (.identifier name) tokens →
      Gathered text false [.name name] tokens := fun _ _ => ⟨by rintro ⟨⟩, held_name name⟩
  unfold declAfterName
  simp only [takes_isAt]
  split
  · exact .weaken known (typeSignature_gathers lays name parser)
  refine takes_patternContinues fun continues after _ => ?_
  split
  · refine .chain (patternAfterVariable_takes lays name after) fun pattern final => ?_
    exact .weaken (fun _ laid => ⟨by rintro ⟨⟩, laid.held⟩) (declAfterPattern_gathers lays pattern final)
  refine .weaken known (.gather (gathers_maybeName (variableOperator?_takes after))
    fun found afterOperator => ?_)
  cases found with
  | some operator =>
    have operand : Held text [.expr (.identifier name)] :=
      ⟨List.forall_mem_singleton.2 (.intro (by rintro ⟨⟩) (held_name name).nodes)⟩
    exact .weaken (fun _ _ => ⟨by rintro ⟨⟩, operand.append (held_name operator)⟩)
      (operatorClause_gathers lays _ operator afterOperator)
  | none => exact .weaken (by simp) (functionClause_gathers lays name afterOperator)

theorem takes_parenthesizedOperatorFollows {β : Type} {taken : Tokens → Prop}
    {made : β → Tokens → Prop} {next : Bool → Parse β}
    (later : ∀ follows after, Alike parser after →
      TakesFrom text origin taken (next follows) made after) :
    TakesFrom text origin taken (parenthesizedOperatorFollows >>= next) made parser := by
  unfold parenthesizedOperatorFollows
  simp only [takes_bind_assoc]
  refine .peek (Nat.le_refl 1) (by decide) fun token after alike _ => ?_
  split
  · simp only [takes_bind_assoc]
    refine .peek (by decide) (by decide) fun final last alikeLast _ => ?_
    exact later _ last (alike.trans alikeLast)
  · exact later false after alike

theorem bindingDecl_gathers (lays : inner.Lays text) (parser : Parser) :
    Gathers text (bindingDecl inner) (fun made => [.decl made]) parser := by
  unfold bindingDecl
  simp only [takes_aheadSpan, takes_ahead]
  split
  · refine .chain (variableIdentifier_takes parser) fun name after => ?_
    exact .weaken (fun _ covers => Expr.laidOut_identifier covers)
      (declAfterName_gathers lays name after)
  · refine takes_parenthesizedOperatorFollows fun follows after alike => ?_
    split
    · refine .chain (takes_after_look (parenthesizedSymbol_takes variableSymbol_takes
        (alike.ahead.trans ‹_›))) fun name final => ?_
      exact declAfterName_gathers lays name final
    · exact patternDecl_gathers lays after
  · exact patternDecl_gathers lays parser

theorem decl_gathers (lays : inner.Lays text) (parser : Parser) :
    Gathers text (decl inner) (fun made => [.decl made]) parser := by
  unfold decl
  simp only [takes_ahead]
  split
  · exact takes_aheadSpan.2 (.start (.node trivial (List.Subset.refl _)))
  · exact fixityDecl_gathers (by rw [‹parser.ahead = _›]; rfl)
  · exact fixityDecl_gathers (by rw [‹parser.ahead = _›]; rfl)
  · exact fixityDecl_gathers (by rw [‹parser.ahead = _›]; rfl)
  · exact bindingDecl_gathers lays parser

end Offside.Haskell.Grammar
