import Offside.Proofs.Grammar.Types
import Offside.Proofs.Parser.Skipping
import Offside.Proofs.Spans.Rules

/-!
Where the nodes of a nesting level and of the blocks in it stand. An item of a block is seen together
with the separators behind it, since one that is empty has the place of its separator. Where an item
starts no token is ahead that layout added, unless the block ends.
-/

namespace Offside.Haskell.Grammar

set_option autoImplicit false

open Offside.Parser Offside.Parse

variable {α : Type} {file : FileId} {parser : Parser}

structure Level.Locates (file : FileId) (inner : Level) : Prop where
  expression : ∀ parser, Parse.Locates file inner.expression (fun made => [.expr made]) parser
  pattern : ∀ parser, Parse.Locates file inner.pattern (fun made => [.expr made]) parser
  type : ∀ parser, Parse.Locates file inner.type (fun made => [.type made]) parser
  expressionAtom : ∀ parser, Parse.Locates file inner.expressionAtom (fun made => [.expr made]) parser
  patternAtom : ∀ parser, Parse.Locates file inner.patternAtom (fun made => [.expr made]) parser
  parentheses : ∀ parser, parser.ahead = .openParen →
    Parse.Locates file inner.parentheses (fun made => [.expr made]) parser
  brackets : ∀ parser, parser.ahead = .openBracket →
    Parse.Locates file inner.brackets (fun made => [.expr made]) parser
  declBlock : ∀ parser, Parse.Locates file inner.declBlock (List.map .decl) parser
  alternativeBlock : ∀ parser,
    Parse.Locates file inner.alternativeBlock (List.map .alternative) parser
  statementBlock : ∀ parser, Parse.Locates file inner.statementBlock (List.map .statement) parser

/-- A rejected token was reported, so nothing is promised. -/
theorem rejected_locates {origin : Span} {owed : List Node} {nodes : α → List Node}
    {build : Span → α} (parser : Parser) :
    LocatesFrom file origin owed (do return build (← reject)) nodes parser := by
  unfold reject
  simp only [locates_bind_assoc, locates_aheadSpan, locates_ahead]
  split
  · simp only [locates_bind_assoc]
    apply LocatesFrom.reportUnexpected
    exact .pure_of_unclean (reportUnexpected_spoils parser)
  · simp only [locates_bind_assoc]
    apply LocatesFrom.fail
    exact .pure_of_unclean (fail_spoils parser)

theorem leads_endOfItem (parser : Parser) :
    Leads (fun _ => True) parser (endOfItem parser).2 := by
  rw [endOfItem_apply]
  split
  · exact Leads.skipAll _ _
  · have reported : Leads (fun _ => True) parser parser.reportUnexpected := ⟨_, Run.report parser⟩
    exact (reported.trans (Leads.skipToAny _ _ _)).trans (Leads.skipAll _ _)

theorem fresh_endOfItem (tidy : parser.Tidy file) : (endOfItem parser).2.Fresh := by
  rw [endOfItem_apply]
  split
  · rename_i ends
    refine tidy.fresh_skipAll fun _ opening => ?_
    rw [opening] at ends
    cases ends
  · have skips : Leads (fun _ => True) parser
        (parser.reportUnexpected.skipToAny [.semicolon, .closeBrace] 0) :=
      Leads.trans ⟨_, Run.report parser⟩ (Leads.skipToAny _ _ _)
    refine (skips.tidy tidy).1.fresh_skipAll fun _ opening => ?_
    have stands := ahead_skipToAny [.semicolon, .closeBrace] 0 parser.reportUnexpected
    rw [opening] at stands
    simp at stands

theorem endOfItem_locates (parser : Parser) :
    Locates file endOfItem (fun _ => []) parser :=
  .of_leads (leads_endOfItem parser) rfl

structure ItemLocates (file : FileId) (item : Parse α) (tag : α → Node) (parser : Parser) :
    Prop where
  tidy : parser.Tidy file → (item parser).2.Tidy file
  whole : Locates file (itemThenEnd item) (fun made => [tag made]) parser

variable {item : Parse α} {tag : α → Node}

theorem ItemLocates.of_locates (locates : Locates file item (fun made => [tag made]) parser) :
    ItemLocates file item tag parser where
  tidy := fun tidy => (locates tidy tidy.since).1
  whole := by
    unfold itemThenEnd
    apply LocatesFrom.bind locates
    intro value middle
    apply LocatesFrom.bind (endOfItem_locates middle)
    intro _ after
    exact .pure rfl

section Items

variable {more : Parse Bool} {goes : Token → Bool} {start : Parser}

theorem itemRound_locates (asks : ∀ parser, more parser = (goes parser.ahead, parser))
    (each : goes start.ahead = true → ItemLocates file item tag start) :
    Locates file (oneRound more (itemThenEnd item)) (fun found => found.toList.map tag) start := by
  apply LocatesFrom.step (asks start) (Leads.refl start)
  split
  · rename_i going
    exact round_locates (each going).whole
  · exact .pure rfl

theorem itemRound_fresh (asks : ∀ parser, more parser = (goes parser.ahead, parser))
    (each : goes start.ahead = true → ItemLocates file item tag start)
    (tidy : start.Tidy file) (fresh : start.Fresh) :
    (oneRound more (itemThenEnd item) start).2.Fresh := by
  rw [oneRound, bind_apply, asks]
  dsimp only
  split
  · rename_i going
    exact fresh_endOfItem ((each going).tidy tidy)
  · exact fresh

theorem items_locate (asks : ∀ parser, more parser = (goes parser.ahead, parser))
    (each : ∀ start : Parser, start.Fresh → goes start.ahead = true →
      ItemLocates file item tag start)
    (parser : Parser) (fresh : parser.Fresh) :
    Locates file (many more (itemThenEnd item)) (List.map tag) parser :=
  many_locates_along (fun start held => itemRound_locates asks (each start held))
    (fun start tidy held => itemRound_fresh asks (each start held) tidy held) parser fresh

theorem items_fresh (asks : ∀ parser, more parser = (goes parser.ahead, parser))
    (each : ∀ start : Parser, start.Fresh → goes start.ahead = true →
      ItemLocates file item tag start)
    (parser : Parser) (tidy : parser.Tidy file) (fresh : parser.Fresh) :
    (many more (itemThenEnd item) parser).2.Fresh := by
  refine (many_keeps (fun start (held : start.Tidy file ∧ start.Fresh) => ⟨?_, ?_⟩)
    (fun start held => ⟨held.1.of_same rfl rfl, held.2⟩) parser ⟨tidy, fresh⟩).2
  · exact (itemRound_locates asks (each start held.2) held.1 held.1.since).1
  · exact itemRound_fresh asks (each start held.2) held.1 held.2

end Items

theorem block_locates
    (each : ∀ start : Parser, start.Fresh → ItemLocates file item tag start) (parser : Parser) :
    Locates file (block item) (List.map tag) parser := by
  unfold block
  apply LocatesFrom.of_tidy
  intro tidy
  apply LocatesFrom.due (by decide)
  · intro opening
    have items := items_locate itemFollows_ahead (fun start fresh _ => each start fresh)
      parser.consume (tidy.fresh_consume opening)
    apply LocatesFrom.bind items
    intro values after
    apply LocatesFrom.expectOrSkipTo (by decide)
    intro _ final
    exact .pure rfl
  · exact .pure_of_unclean (fail_spoils parser)

/-- An item that is nothing but the separator it starts with. -/
theorem ItemLocates.of_separator {made : α} (separated : parser.ahead = .semicolon)
    (fresh : parser.Fresh) (known : item parser = (made, parser))
    (bare : (tag made).children = []) (span : (tag made).span = parser.aheadSpan) :
    ItemLocates file item tag parser where
  tidy := fun tidy => by rwa [known]
  whole := by
    have wide : parser.aheadSpan.isPoint = false := by
      rw [← Bool.not_eq_true]
      intro point
      rcases fresh point with closing | ended
      · rw [separated] at closing
        cases closing
      · rw [separated] at ended
        cases ended
    have same : itemThenEnd item parser =
        (do
          Parse.consume
          Parse.skipAll .semicolon
          return made) parser := by
      rw [itemThenEnd, bind_apply, known, bind_apply, endOfItem_apply,
        if_pos (by rw [separated]; rfl), skipAll_of_eq (by decide) separated]
      rfl
    apply LocatesFrom.congr same
    apply LocatesFrom.bind (wide_locates wide)
    intro _ after
    apply LocatesFrom.skipAll
    exact .pure_over rfl (by rw [bare]; exact List.nil_subset _) span

end Offside.Haskell.Grammar
