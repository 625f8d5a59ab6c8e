import Offside.Proofs.Conduct.Programs
import Offside.Proofs.Deepening.Expressions

/-!
Whole programs at the fork: every level of the tower trails itself, and so do imports and top-level
declarations. The members of a type have no qualifiers: where one stood among them, the first run reads
its segment alone and goes wrong at the dot.
-/

namespace Offside

set_option autoImplicit false

open Offside.Parser

namespace Parser.Detour

@[simp] abbrev SameMembers (detour : Detour) (first second : Members) : Prop :=
  second.sketch Name.bare = first.sketch detour.names

@[simp] abbrev SameSelection (detour : Detour) (first second : Selection) : Prop :=
  second.sketch Name.bare = first.sketch detour.names

@[simp] abbrev SameSelections (detour : Detour) (first second : Option SelectionList) : Prop :=
  second.map (SelectionList.sketch Name.bare) = first.map (SelectionList.sketch detour.names)

@[simp] abbrev SameProgram (detour : Detour) (first second : Program) : Prop :=
  second.sketch Name.bare = first.sketch detour.names

end Parser.Detour

namespace Haskell.Grammar

open Offside.Parse Offside.Parser.Detour

variable {detour : Detour} {given needs : Prop} {left right : Parser}

section Levels

theorem refusal_trailed : Level.refusal.Trailed detour where
  expression _ _ := .refuse
  pattern _ _ := .refuse
  type _ _ := .refuse
  expressionAtom _ _ := .refuse
  patternAtom _ _ := .refuse
  parentheses _ _ _ := .refuse
  brackets _ _ _ := .refuse
  declBlock _ _ := .refuse
  alternativeBlock _ _ := .refuse
  statementBlock _ _ := .refuse
  expressionEnds parser clean := absurd clean (refuseNesting_spoils parser)
  typeEnds parser clean := absurd clean (refuseNesting_spoils parser)

/-- By induction on the levels above. -/
theorem level_trailed (further : Nat) : (level further).Trailed detour := by
  induction further with
  | zero => exact refusal_trailed
  | succ further trailed =>
    exact
      { expression := fun _ _ => .nested fun _ _ => expressionProduction_trails trailed _ _
        pattern := fun _ _ => .nested fun _ _ => patternProduction_trails trailed _ _
        type := fun _ _ => .nested fun _ _ => typeProduction_trails trailed _ _
        expressionAtom := fun _ _ => .nested fun _ _ => atom_trails trailed _ _
        patternAtom := fun _ _ => .nested fun _ _ => patternAtom_trails trailed _ _
        parentheses := fun _ _ opened => .nested fun _ _ => parentheses_trails trailed opened
        brackets := fun _ _ opened => .nested fun _ _ => brackets_trails trailed opened
        declBlock := fun _ _ => .nested fun _ _ => block_trails (decl_trails trailed) _ _
        alternativeBlock := fun _ _ =>
          .nested fun _ _ => block_trails (alternative_trails trailed) _ _
        statementBlock := fun _ _ =>
          .nested fun _ _ => block_trails (statement_trails trailed) _ _
        expressionEnds := fun _ => Settles.nested (fun _ _ _ held => held) fun _ =>
          expressionProduction_settles trailed.expression_settles trailed.type_settles
        typeEnds := fun _ => Settles.nested (fun _ _ _ held => held) fun _ =>
          typeProduction_settles }

theorem outermost_trailed : outermost.Trailed detour := level_trailed Parser.nestingLimit

end Levels

section Selections

/-- No name with qualifiers is read, so where one was begun the dot is left. -/
theorem variableOrConstructor_trails :
    Tracks detour (fun _ after => after.ahead ≠ .dot) detour.SameName variableOrConstructor := by
  intro left right
  unfold variableOrConstructor
  refine .ahead ?_
  split
  · rename_i opened
    exact (parenthesizedSymbol_trails opened symbol_trails).spare
  · rename_i proper
    have apart := @properIdentifier_trails detour left right
    refine ⟨apart.backward, fun clean other => ⟨trivial, fun twin _ => ?_⟩⟩
    have elsewhere : ¬detour.AtFork left := by
      intro forked
      rw [properIdentifier_apply proper] at other
      exact other ((ahead_consume_eq left).trans (twin.dotted forked).1)
    have met := (apart.forward clean trivial).2 twin elsewhere
    exact ⟨met.steps, met.value.name⟩
  · exact ((variableIdentifier_trails left right).alike fun _ _ same => same.name).spare

theorem trails_entryFollows {α β : Type} {spares : α → Parser → Prop} {linked : α → β → Prop}
    {next : Bool → Parse α} {other : Bool → Parse β}
    (later : ∀ follows, Trails detour given needs spares linked (next follows) (other follows) left
      right) :
    Trails detour given needs spares linked (entryFollows >>= next) (entryFollows >>= other) left
      right := by
  unfold entryFollows
  simp only [Trails.bind_assoc_iff]
  refine .ahead ?_
  split
  · exact later false
  · exact later false
  · exact later true

/-- What has to be known where an entry ends is known in front of a comma. -/
theorem listed_trails {α γ : Type} (stops : Parser → Prop) {view other : α → γ} {item : Parse α}
    (commas : ∀ parser : Parser, parser.ahead = .comma → stops parser)
    (trails : Tracks detour (fun _ after => stops after)
      (fun value opposite => other opposite = view value) item) :
    Tracks detour (fun _ after => stops after)
      (fun found opposite => opposite.map other = found.map view) (listed item) := by
  intro left right
  have rounds : ∀ left right, Trails detour True (stops left)
      (fun found after => ItemSpares (fun _ => True) stops found after ∧
        (found.isSome = true → stops after))
      (fun value opposite => opposite.map other = value.map view)
      (oneRound furtherEntryFollows item) (oneRound furtherEntryFollows item) left right := by
    intro left right
    simp only [oneRound, furtherEntryFollows, Trails.bind_assoc_iff]
    refine .accept_here rfl (fun found left' right' => ?_) fun _ => ?_
    · have comma := commas left found
      refine trails_entryFollows fun follows => ?_
      cases follows with
      | true =>
        have read : Trails detour True True
            (fun found after => ItemSpares (fun _ => True) stops found after ∧
              (found.isSome = true → stops after))
            (fun value opposite => opposite.map other = value.map view)
            (do return some (← item)) (do return some (← item)) left' right' :=
          (trails left' right').map (fun _ _ spared => spared.2 rfl)
            fun _ _ same => congrArg some same
        exact read.needing fun _ => comma
      | false => exact .pure (fun _ => comma) fun _ => rfl
    · exact .pure And.left fun _ => rfl
  have later : ∀ left right, Trails detour True (stops left) (fun _ after => stops after)
      (fun found opposite => opposite.map other = found.map view)
      (many furtherEntryFollows item) (many furtherEntryFollows item) left right :=
    fun left right => (many_trails_from stops stops rounds left right).mono id (fun _ => id)
      (fun _ spared => ⟨fun _ _ => trivial, spared⟩) fun _ _ _ => id
  unfold listed
  refine trails_entryFollows fun follows => ?_
  cases follows with
  | true =>
    refine .bind (trails left right) fun first first' left right => ?_
    refine .bind_both (later left right).presuming fun found found' left right => ?_
    refine .pure (fun spared => ⟨trivial, spared⟩) fun known => ?_
    simp [known.1.2, known.2]
  | false => exact .pure (fun _ => trivial) fun _ => rfl

theorem members_trails (opened : left.ahead = .openParen) :
    Shadows detour True detour.SameMembers members members left right := by
  unfold members
  refine .aheadSpan (.take opened rfl fun left' right' => ?_)
  generalize left.aheadSpan = start
  generalize right.aheadSpan = opposite
  refine .isAt (fun dots => ?_) fun _ => ?_
  · refine .aheadSpan (.take dots rfl fun left right => ?_)
    refine .expectOrSkipTo rfl fun _ left right => ?_
    exact .pure (fun _ => trivial) fun known => by simp [known.2]
  · refine .bind (listed_trails (fun after => after.ahead ≠ .dot)
      (fun parser comma dot => by rw [comma] at dot; cases dot) variableOrConstructor_trails left'
        right') fun names names' left right => ?_
    have ends : Trails detour ((True ∧ opposite.blank = start.blank) ∧
          names'.map Name.bare = names.map detour.names) (True ∧ left.ahead = .closeParen)
        (fun _ _ => True) detour.SameMembers
        (do
          let _ ← expectOrSkipTo .closeParen
          return .listed names (← spanFrom start))
        (do
          let _ ← expectOrSkipTo .closeParen
          return .listed names' (← spanFrom opposite)) left right := by
      refine .expectOrSkipTo_there rfl fun _ left right => ?_
      refine .finish (fun _ _ => trivial) (fun known => known.1.2) ?_
      rintro span other ⟨-, named⟩ same
      simp_all
    refine ends.needing fun closed => ⟨trivial, fun dot => ?_⟩
    rw [closed.2] at dot
    cases dot

theorem members?_trails : Follows detour detour.SameMembers members? := by
  intro left right
  unfold members?
  exact .isAt (fun opened => members_trails opened) fun _ => .pure (fun _ => trivial) fun _ => rfl

section Entries

variable {start opposite : Span} (starts : given → opposite.blank = start.blank)

include starts

theorem selectedName_trails (left right : Parser) :
    Shadows detour given detour.SameSelection (selectedName start) (selectedName opposite) left
      right := by
  unfold selectedName
  refine .bind (qualifiedIdentifier_trails left right) fun name name' left right => ?_
  refine .bind (members?_trails left right) fun found found' left right => ?_
  refine .finish (fun _ _ => by simp) (fun known => starts known.1.1) ?_
  rintro span other ⟨⟨-, name⟩, found⟩ same
  simp_all

theorem selectedModule_trails {isExport : Bool} (found : left.ahead = .kwModule) :
    Shadows detour given detour.SameSelection (selectedModule isExport start)
      (selectedModule isExport opposite) left right := by
  unfold selectedModule
  refine .take found rfl fun left right => ?_
  have named : Shadows detour given detour.SameSelection
      (do
        let name ← moduleName
        return .wholeModule name (← spanFrom start))
      (do
        let name ← moduleName
        return .wholeModule name (← spanFrom opposite)) left right := by
    refine .bind (moduleName_trails left right) fun name name' left right => ?_
    refine .finish (fun _ _ => by simp) (fun known => starts known.1) ?_
    rintro span other ⟨-, name⟩ same
    simp_all
  cases isExport with
  | true => exact named
  | false =>
    refine .spoil report_spoils fun _ after => mends ?_
    exact moduleName_stays.bind fun _ => .look fun _ => .pure _

end Entries

theorem selection_trails (isExport : Bool) :
    Follows detour detour.SameSelection (selection isExport) := by
  intro left right
  unfold selection
  refine .aheadSpan (.ahead ?_)
  split
  · exact selectedModule_trails (fun known => known.2) ‹_›
  · refine .bind (parenthesizedSymbol_trails ‹_› symbol_trails) fun name name' left right => ?_
    refine .finish (fun _ _ => by simp) (fun known => known.1.2) ?_
    rintro span other ⟨-, name⟩ same
    simp_all
  · exact selectedName_trails (fun known => known.2) left right
  · exact selectedName_trails (fun known => known.2) left right
  · exact .fail fun _ => id

theorem selectionList_trails (isExport : Bool) (opened : left.ahead = .openParen) :
    Shadows detour True (fun list other => other.sketch Name.bare = list.sketch detour.names)
      (selectionList isExport) (selectionList isExport) left right := by
  unfold selectionList
  refine .aheadSpan (.take opened rfl fun left' right' => ?_)
  refine .bind (listed_trails (fun _ => True) (fun _ _ => trivial) (selection_trails isExport) left'
    right') fun found found' left right => ?_
  refine .expectOrSkipTo rfl fun _ left right => ?_
  refine .finish (fun _ _ => by simp) (fun known => known.1.2) ?_
  rintro span other ⟨-, found⟩ same
  simp_all

theorem selectionList?_trails (isExport : Bool) :
    Follows detour detour.SameSelections (selectionList? isExport) := by
  intro left right
  unfold selectionList?
  refine .isAt (fun opened => ?_) fun _ => .pure (fun _ => trivial) fun _ => rfl
  exact (selectionList_trails isExport opened).map (fun _ _ => id)
    fun _ _ same => congrArg some same

end Selections

theorem moduleHeader_trails (found : left.ahead = .kwModule) :
    TrailsDecl detour True True moduleHeader moduleHeader left right := by
  unfold moduleHeader
  refine .aheadSpan (.take found rfl fun left' right' => ?_)
  refine .bind (moduleName_trails left' right') fun name name' left right => ?_
  refine .bind (selectionList?_trails true left right) fun exports exports' left right => ?_
  refine .expect rfl fun _ left right => ?_
  refine .finish (fun _ _ => by simp) (fun known => known.1.1.2) ?_
  rintro span other ⟨⟨-, name⟩, exports⟩ same
  simp_all

theorem renaming?_trails : Follows detour (SameOption detour) renaming? := by
  intro left right
  unfold renaming?
  refine .acceptWord fun renames left right => ?_
  cases renames with
  | true => exact (moduleName_trails left right).map (fun _ _ => id) fun _ _ same => congrArg some same
  | false => exact .pure (fun _ => trivial) fun _ => rfl

theorem importList_trails :
    Follows detour (fun found other => other.1 = found.1 ∧ detour.SameSelections found.2 other.2)
      importList := by
  intro left right
  unfold importList
  refine .acceptWord fun isHiding left right => ?_
  refine .bind (selectionList?_trails false left right) fun selections selections' left right => ?_
  have listed : detour.SameSelections selections selections' →
      selections'.isNone = selections.isNone :=
    fun same => by simpa using congrArg Option.isNone same
  refine .rewrite (fun known => by rw [listed known.2]) ?_
  split
  · exact .reportUnexpected fun _ => id
  · exact .pure (fun _ => by simp) fun known => ⟨rfl, known.2⟩

theorem importDecl_trails (found : left.ahead = .kwImport) :
    TrailsDecl detour True True importDecl importDecl left right := by
  unfold importDecl
  refine .aheadSpan (.take found rfl fun left' right' => ?_)
  refine .acceptWord fun isQualified left right => ?_
  refine .bind (moduleName_trails left right) fun name name' left right => ?_
  refine .bind (renaming?_trails left right) fun renamedTo renamedTo' left right => ?_
  refine .bind (importList_trails left right) ?_
  rintro ⟨isHiding, selections⟩ ⟨_, selections'⟩ left right
  refine .finish (fun _ _ => by simp) (fun known => known.1.1.1.2) ?_
  rintro span other ⟨⟨⟨-, name⟩, renamedTo⟩, rfl, selections⟩ same
  simp_all

theorem unsupportedDecl_trails (free : left.ahead.isFree = true) :
    TrailsDecl detour True True unsupportedDecl unsupportedDecl left right := by
  unfold unsupportedDecl
  refine .aheadSpan (.ahead (.consume free fun mirror => ?_))
  refine .skipToAny rfl rfl fun left' right' => ?_
  refine .finish (fun _ _ => trivial) (fun known => known.2) ?_
  intro span other _ same
  simp_all

theorem topDecl_trails (left right : Parser) :
    TrailsDecl detour True True topDecl topDecl left right := by
  unfold topDecl
  refine .ahead ?_
  split
  iterate 8 exact unsupportedDecl_trails (by rw [‹left.ahead = _›]; rfl)
  · exact .reportUnexpected fun _ => mends importDecl_stays
  · exact decl_trails outermost_trailed left right

abbrev TracksDecls (detour : Detour) (production : Parse (List Decl)) : Prop :=
  Tracks detour (fun found _ => ∀ value ∈ found, detour.SparedDecl value) detour.SameDecls production

theorem moduleHeader?_trails : TracksDecls detour moduleHeader? := by
  intro left right
  unfold moduleHeader?
  refine .isAt (fun found => ?_) fun _ => .pure (fun _ => trivial) fun _ => rfl
  exact (moduleHeader_trails found).map (fun _ _ spared => spared _ (by simp))
    fun _ _ same => by simpa using same

theorem moduleBody?_trails : TracksDecls detour moduleBody? := by
  intro left right
  unfold moduleBody? moduleBody
  refine .isAt (fun opened => ?_) fun _ => .pure (fun _ => trivial) fun _ => rfl
  refine .take opened rfl fun left right => ?_
  refine .bind (many_isAt_trails (fun _ _ found => itemThenEnd_trails (importDecl_trails found)) left
    right) fun imports imports' left right => ?_
  refine .bind (items_trails topDecl_trails left right) fun decls decls' left right => ?_
  refine .expectOrSkipTo rfl fun _ left right => ?_
  refine .pure (fun spared => ⟨⟨trivial, fun value member => spared value (by simp [member])⟩,
    fun value member => spared value (by simp [member])⟩) ?_
  rintro ⟨⟨-, imports⟩, decls⟩
  simp_all

/-- The input is at its end, or it went wrong. -/
theorem skipToEnd_trails : Follows detour (fun _ _ => True) skipToEnd := by
  intro left right
  unfold skipToEnd
  refine .isAtEnd ?_
  split
  · exact .reportUnexpected fun _ => mends (Agrees.skipTo _)
  · exact .pure (fun _ => trivial) fun _ => trivial

theorem program_trails :
    Tracks detour (fun value _ => (Node.program value).Spares detour.fork) detour.SameProgram
      program := by
  intro left right
  unfold program
  refine .aheadSpan (.bind (moduleHeader?_trails left right) fun header header' left' right' => ?_)
  refine .bind (moduleBody?_trails left' right') fun body body' left right => ?_
  refine .bind (skipToEnd_trails left right) fun _ _ left right => ?_
  refine .finish (fun span spared => ⟨⟨⟨trivial, fun value member => spared.below (by simp [member])⟩,
    fun value member => spared.below (by simp [member])⟩, trivial⟩) (fun known => known.1.1.1.2) ?_
  rintro span other ⟨⟨⟨-, header⟩, body⟩, -⟩ same
  simp_all [Program.sketch]

end Haskell.Grammar

end Offside
