import Offside.Haskell.Grammar.Modules
import Offside.Proofs.Lockstep.Expressions

/-!
Whole programs in lockstep: every level of the tower is mirrored by itself, and so are imports and
top-level declarations. A declaration outside the grammar is skipped without regard to its brackets, so
it is mirrored only where these are not kept track of.
-/

namespace Offside.Haskell.Grammar

set_option autoImplicit false

open Offside.Parser Offside.Parse

variable {pairing : Pairing} [lawful : pairing.Lawful] {eager : Bool} {brackets after : List Token}
  {left right : Parser}

theorem refusal_mirrored : Level.refusal.Mirrored where
  expression _ _ _ _ _ := refuse_mirrors fun _ => by simp [Expr.moved]
  pattern _ _ _ _ _ := refuse_mirrors fun _ => by simp [Expr.moved]
  type _ _ _ _ _ := refuse_mirrors fun _ => by simp [TypeTerm.moved]
  expressionAtom _ _ _ _ _ := refuse_mirrors fun _ => by simp [Expr.moved]
  patternAtom _ _ _ _ _ := refuse_mirrors fun _ => by simp [Expr.moved]
  parentheses _ _ _ _ _ _ := refuse_mirrors fun _ => by simp [Expr.moved]
  brackets _ _ _ _ _ _ := refuse_mirrors fun _ => by simp [Expr.moved]
  declBlock _ _ _ _ _ := refuse_mirrors fun _ => rfl
  alternativeBlock _ _ _ _ _ := refuse_mirrors fun _ => rfl
  statementBlock _ _ _ _ _ := refuse_mirrors fun _ => rfl

/-- By induction on the levels above. -/
theorem level_mirrored (further : Nat) : (level further).Mirrored := by
  induction further with
  | zero => exact refusal_mirrored
  | succ further mirrored =>
    exact
      { expression := fun _ _ _ _ _ =>
          nested_mirrors (fun _ => by simp [Expr.moved]) (expressionProduction_keeps mirrored _ _)
        pattern := fun _ _ _ _ _ =>
          nested_mirrors (fun _ => by simp [Expr.moved]) (patternProduction_keeps mirrored _ _)
        type := fun _ _ _ _ _ =>
          nested_mirrors (fun _ => by simp [TypeTerm.moved]) (typeProduction_keeps mirrored _ _)
        expressionAtom := fun _ _ _ _ _ =>
          nested_mirrors (fun _ => by simp [Expr.moved]) (atom_keeps mirrored _ _)
        patternAtom := fun _ _ _ _ _ =>
          nested_mirrors (fun _ => by simp [Expr.moved]) (patternAtom_keeps mirrored _ _)
        parentheses := fun _ _ _ _ _ found =>
          nested_mirrors (fun _ => by simp [Expr.moved]) fun _ =>
            parentheses_mirrors mirrored found
        brackets := fun _ _ _ _ _ found =>
          nested_mirrors (fun _ => by simp [Expr.moved]) fun _ => brackets_mirrors mirrored found
        declBlock := fun _ _ _ _ _ =>
          nested_mirrors (fun _ => rfl) (block_keeps (decl_keeps mirrored) _ _)
        alternativeBlock := fun _ _ _ _ _ =>
          nested_mirrors (fun _ => rfl) (block_keeps (alternative_keeps mirrored) _ _)
        statementBlock := fun _ _ _ _ _ =>
          nested_mirrors (fun _ => rfl) (block_keeps (statement_keeps mirrored) _ _) }

theorem outermost_mirrored : outermost.Mirrored := level_mirrored Parser.nestingLimit

section Selections

variable {α : Type} {change : α → α}

theorem mirrors_entryFollows {β : Type} {next other : Bool → Parse β} {change : β → β}
    (later : ∀ follows, Mirrors pairing false brackets after (next follows) (other follows) change
      left right) :
    Mirrors pairing false brackets after (entryFollows >>= next) (entryFollows >>= other) change
      left right := by
  unfold entryFollows
  simp only [mirrors_bind_assoc]
  apply Mirrors.ahead_blind rfl
  split
  · exact later false
  · exact later false
  · exact later true

theorem listed_keeps {item : Parse α} (keeps : Keeps pairing eager item change) :
    Keeps pairing false (listed item) (List.map change) := by
  intro brackets left right
  have later : ∀ left right, Mirrors pairing false brackets brackets
      (many furtherEntryFollows item) (many furtherEntryFollows item) (List.map change) left
      right := by
    apply many_mirrors
    intro left right
    unfold oneRound furtherEntryFollows
    simp only [mirrors_bind_assoc]
    apply Mirrors.accept_plain rfl rfl
    · intro left right
      apply mirrors_entryFollows
      intro follows
      cases follows with
      | true => exact (keeps brackets left right).lax.map fun _ => rfl
      | false => exact Mirrors.pure rfl
    · exact fun _ => Mirrors.pure rfl
  unfold listed
  apply mirrors_entryFollows
  intro follows
  cases follows with
  | true =>
    apply Mirrors.bind (keeps brackets left right).lax
    intro first left right
    apply Mirrors.bind (later left right)
    exact fun _ _ _ => Mirrors.pure rfl
  | false => exact Mirrors.pure rfl

theorem members_mirrors (found : left.ahead = .openParen) :
    Mirrors pairing true brackets brackets members members (Members.moved pairing.move) left
      right := by
  unfold members
  apply Mirrors.aheadSpan
  apply Mirrors.take found (by decide) (fun _ => rfl) rfl
  generalize left.aheadSpan = start
  intro left right
  apply Mirrors.isAt rfl
  · intro dots
    apply Mirrors.aheadSpan
    apply Mirrors.pass dots rfl
    intro left right
    apply Mirrors.expectOrSkipTo (by decide) (by simp) rfl
    exact fun _ _ _ => Mirrors.pure rfl
  · intro _
    apply Mirrors.bind (listed_keeps variableOrConstructor_keeps _ left right)
    intro names left right
    exact Mirrors.closed (by decide) rfl fun _ => rfl

theorem members?_keeps : Keeps pairing false members? (Members.moved pairing.move) := by
  intro brackets left right
  unfold members?
  apply Mirrors.isAt rfl
  · exact fun found => (members_mirrors found).lax
  · exact fun _ => Mirrors.pure rfl

theorem selectedName_mirrors (start : Span) (left right : Parser) :
    Mirrors pairing false brackets brackets (selectedName start) (selectedName (pairing.move start))
      (Selection.moved pairing.move) left right := by
  unfold selectedName
  apply Mirrors.bind (qualifiedIdentifier_keeps brackets left right)
  intro name left right
  apply Mirrors.bind (members?_keeps brackets left right)
  exact fun _ _ _ => Mirrors.finish fun _ => rfl

theorem selectedModule_mirrors (isExport : Bool) (start : Span) (found : left.ahead = .kwModule) :
    Mirrors pairing eager brackets brackets (selectedModule isExport start)
      (selectedModule isExport (pairing.move start)) (Selection.moved pairing.move) left right := by
  unfold selectedModule
  apply Mirrors.pass found rfl
  intro left right
  have allowed : Mirrors pairing false brackets brackets (allowModule isExport start)
      (allowModule isExport (pairing.move start)) id left right := by
    unfold allowModule
    split
    · exact Mirrors.report fun _ _ => Mirrors.pure rfl
    · exact Mirrors.pure rfl
  apply Mirrors.bind allowed
  intro _ left right
  apply Mirrors.bind (moduleName_keeps brackets left right).lax
  exact fun _ _ _ => Mirrors.finish fun _ => rfl

theorem selection_keeps (isExport : Bool) :
    Keeps pairing true (selection isExport) (Selection.moved pairing.move) := by
  intro brackets left right
  unfold selection
  apply Mirrors.aheadSpan
  apply Mirrors.ahead
  generalize left.aheadSpan = start
  split
  · rename_i found
    exact selectedModule_mirrors isExport start found
  · rename_i found
    apply Mirrors.bind (parenthesizedSymbol_mirrors found symbol_keeps)
    exact fun _ _ _ => Mirrors.finish fun _ => rfl
  · rename_i found
    exact Mirrors.solid (by rw [found]; rfl) (selectedName_mirrors start left right)
  · rename_i found
    exact Mirrors.solid (by rw [found]; rfl) (selectedName_mirrors start left right)
  · apply Mirrors.fail
    exact fun _ _ => Mirrors.pure (by simp [Selection.moved, Name.moved, Members.moved])

theorem selectionList_mirrors (isExport : Bool) (found : left.ahead = .openParen) :
    Mirrors pairing true brackets brackets (selectionList isExport) (selectionList isExport)
      (SelectionList.moved pairing.move) left right := by
  unfold selectionList
  apply Mirrors.aheadSpan
  apply Mirrors.take found (by decide) (fun _ => rfl) rfl
  intro left right
  apply Mirrors.bind (listed_keeps (selection_keeps isExport) _ left right)
  intro selections left right
  exact Mirrors.closed (by decide) rfl fun _ => rfl

theorem selectionList?_keeps (isExport : Bool) :
    Keeps pairing false (selectionList? isExport)
      (Option.map (SelectionList.moved pairing.move)) := by
  intro brackets left right
  unfold selectionList?
  apply Mirrors.isAt rfl
  · exact fun found => (selectionList_mirrors isExport found).lax.map fun _ => rfl
  · exact fun _ => Mirrors.pure rfl

end Selections

theorem moduleHeader_mirrors (found : left.ahead = .kwModule) :
    Mirrors pairing true brackets brackets moduleHeader moduleHeader (Decl.moved pairing.move) left
      right := by
  unfold moduleHeader
  apply Mirrors.aheadSpan
  apply Mirrors.pass found rfl
  intro left right
  apply Mirrors.bind (moduleName_keeps brackets left right).lax
  intro name left right
  apply Mirrors.bind (selectionList?_keeps true brackets left right)
  intro exports left right
  apply Mirrors.expect_plain rfl
  exact fun _ _ _ => Mirrors.finish (by simp [Decl.moved, ModuleHeader.moved])

theorem renaming?_keeps :
    Keeps pairing false renaming? (Option.map (Name.moved pairing.move)) := by
  intro brackets left right
  unfold renaming?
  apply Mirrors.acceptWord
  intro renames left right
  cases renames with
  | true => exact (moduleName_keeps brackets left right).lax.map fun _ => rfl
  | false => exact Mirrors.pure rfl

theorem importList_keeps :
    Keeps pairing false importList
      (Prod.map id (Option.map (SelectionList.moved pairing.move))) := by
  intro brackets left right
  unfold importList
  apply Mirrors.acceptWord
  intro isHiding left right
  apply Mirrors.bind (selectionList?_keeps false brackets left right)
  intro selections left right
  rw [Option.isNone_map]
  split
  · apply Mirrors.reportUnexpected
    exact fun _ _ => Mirrors.pure rfl
  · exact Mirrors.pure rfl

theorem importDecl_mirrors (found : left.ahead = .kwImport) :
    Mirrors pairing true brackets brackets importDecl importDecl (Decl.moved pairing.move) left
      right := by
  unfold importDecl
  apply Mirrors.aheadSpan
  apply Mirrors.pass found rfl
  intro left right
  apply Mirrors.acceptWord
  intro isQualified left right
  apply Mirrors.bind (moduleName_keeps brackets left right).lax
  intro name left right
  apply Mirrors.bind (renaming?_keeps brackets left right)
  intro renamedTo left right
  apply Mirrors.bind (importList_keeps brackets left right)
  exact fun _ _ _ => Mirrors.finish (by simp [Decl.moved, ImportDecl.moved])

theorem unsupportedDecl_mirrors (loose : pairing.Loose) (plain : left.ahead.isPlain = true) :
    Mirrors pairing true brackets brackets unsupportedDecl unsupportedDecl
      (Decl.moved pairing.move) left right := by
  unfold unsupportedDecl
  apply Mirrors.aheadSpan
  apply Mirrors.ahead
  apply Mirrors.pass rfl plain
  intro left right
  apply Mirrors.skipToAny loose
  exact fun _ _ => Mirrors.finish (by simp [Decl.moved])

/-- A declaration that the grammar reads to its end. -/
def IsSupported (decl : Decl) : Prop := ∀ keyword span, decl ≠ .unsupported keyword span

theorem ahead_reportUnexpected (parser : Parser) :
    parser.reportUnexpected.ahead = parser.ahead := by
  rcases reportUnexpected_cases parser with same | reported
  · rw [same]
  · rw [reported]

theorem topDecl_mirrors (allowed : pairing.Loose ∨ IsSupported (topDecl left).1) :
    Mirrors pairing true brackets brackets topDecl topDecl (Decl.moved pairing.move) left
      right := by
  have unsupported : left.ahead.isPlain = true →
      topDecl left = unsupportedDecl left →
      Mirrors pairing true brackets brackets unsupportedDecl unsupportedDecl
        (Decl.moved pairing.move) left right := by
    intro plain same
    rcases allowed with loose | supported
    · exact unsupportedDecl_mirrors loose plain
    · rw [same] at supported
      exact absurd rfl (supported left.ahead _)
  unfold topDecl
  apply Mirrors.ahead
  split
  iterate 8
    · rename_i found
      exact unsupported (by rw [found]; rfl) (by rw [topDecl, ahead_bind_apply, found])
  · rename_i found
    apply Mirrors.reportUnexpected_here
    intro right
    exact (importDecl_mirrors ((ahead_reportUnexpected left).trans found)).lax
  · exact decl_keeps outermost_mirrored brackets left right

section Forgiven

variable (forgiving : pairing.Forgiving)

include forgiving

theorem moduleBody_mirrors (found : left.ahead = .openBrace) :
    Mirrors pairing false brackets brackets moduleBody moduleBody
      (List.map (Decl.moved pairing.move)) left right := by
  have apart : pairing.Apart := fun parser _ => forgiving.seamless parser
  unfold moduleBody
  apply Mirrors.take found (by decide) (by simp) rfl
  intro left right
  have imports : Mirrors pairing false (.openBrace :: brackets) (.openBrace :: brackets)
      (many (isAt .kwImport) (itemThenEnd importDecl))
      (many (isAt .kwImport) (itemThenEnd importDecl)) (List.map (Decl.moved pairing.move)) left
      right := by
    apply many_isAt_mirrors rfl
    exact fun left right found => (itemThenEnd_mirrors apart (importDecl_mirrors found)).lax
  apply Mirrors.bind imports
  intro imports left right
  have keeps : Keeps pairing true topDecl (Decl.moved pairing.move) :=
    fun _ _ _ => topDecl_mirrors (Or.inl forgiving.toLoose)
  apply Mirrors.bind (items_keep apart keeps _ left right)
  intro decls left right
  apply Mirrors.expectOrSkipTo (by decide) (by simp) rfl
  exact fun _ _ _ => Mirrors.pure (by simp)

theorem skipToEnd_keeps : Keeps pairing false skipToEnd id := by
  intro brackets left right
  unfold skipToEnd
  apply Mirrors.isAtEnd
  · exact fun _ => Mirrors.pure rfl
  · intro _
    apply Mirrors.reportUnexpected
    exact fun left right => Mirrors.skipTo forgiving fun _ _ => Mirrors.pure rfl

theorem program_keeps : Keeps pairing false program (Program.moved pairing.move) := by
  intro brackets left right
  have header : Mirrors pairing false brackets brackets moduleHeader? moduleHeader?
      (List.map (Decl.moved pairing.move)) left right := by
    unfold moduleHeader?
    apply Mirrors.isAt rfl
    · exact fun found => (moduleHeader_mirrors found).lax.map fun _ => rfl
    · exact fun _ => Mirrors.pure rfl
  have body : ∀ left right, Mirrors pairing false brackets brackets moduleBody? moduleBody?
      (List.map (Decl.moved pairing.move)) left right := by
    intro left right
    unfold moduleBody?
    apply Mirrors.isAt rfl
    · exact fun found => moduleBody_mirrors forgiving found
    · exact fun _ => Mirrors.pure rfl
  unfold program
  apply Mirrors.aheadSpan
  apply Mirrors.forgiven forgiving
  apply Mirrors.bind header
  intro header left right
  apply Mirrors.bind (body left right)
  intro body left right
  apply Mirrors.bind (skipToEnd_keeps forgiving brackets left right)
  exact fun _ _ _ => Mirrors.finish fun _ => by simp [Program.moved]

end Forgiven

end Offside.Haskell.Grammar
