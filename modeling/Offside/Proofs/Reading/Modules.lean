import Offside.Proofs.Grammar.Modules
import Offside.Proofs.Reading.Expressions

/-!
Every level of the grammar reads what its productions read, by induction on the height of the tower.
Imports keep the words that are special to them by what they say. A declaration outside the grammar
leaves one mark for all that was skipped.
-/

namespace Offside.Haskell.Grammar

set_option autoImplicit false

open Offside.Parser Offside.Parse

variable {texts : Position → Option Lexeme} {parser : Parser}

theorem refusal_reads : Level.Reads texts .refusal where
  expression := refuse_reads
  pattern := refuse_reads
  type := refuse_reads
  expressionAtom := refuse_reads
  patternAtom := refuse_reads
  parentheses := fun parser _ => refuse_reads parser
  brackets := fun parser _ => refuse_reads parser
  declBlock := refuse_reads
  alternativeBlock := refuse_reads
  statementBlock := refuse_reads

theorem level_reads (further : Nat) : (level further).Reads texts := by
  induction further with
  | zero => exact refusal_reads
  | succ further induction =>
    exact
      { expression := fun _ => nested_reads (expressionProduction_reads induction _)
        pattern := fun _ => nested_reads (patternProduction_reads induction _)
        type := fun _ => nested_reads (typeProduction_reads induction _)
        expressionAtom := fun _ => nested_reads (atom_reads induction _)
        patternAtom := fun _ => nested_reads (patternAtom_reads induction _)
        parentheses := fun _ found => nested_reads (parentheses_reads induction found)
        brackets := fun _ found => nested_reads (brackets_reads induction found)
        declBlock := fun _ => nested_reads (block_reads (decl_reads induction) _)
        alternativeBlock := fun _ => nested_reads (block_reads (alternative_reads induction) _)
        statementBlock := fun _ => nested_reads (block_reads (statement_reads induction) _) }

theorem reads_entryFollows {β : Type} {owed : List Mark} {marks : β → List Mark}
    {next : Bool → Parse β}
    (reads : ∀ follows, Reads texts owed (next follows) marks parser) :
    Reads texts owed (entryFollows >>= next) marks parser := by
  unfold entryFollows
  simp only [reads_bind_assoc, reads_ahead]
  split
  · exact reads false
  · exact reads false
  · exact reads true

theorem listed_reads {α : Type} {item : Parse α} {marks : α → List Mark}
    (each : ∀ start, Reads texts [] item marks start) (parser : Parser) :
    Reads texts [] (listed item) (List.flatMap marks) parser := by
  have further : ∀ start,
      Reads texts [] (many furtherEntryFollows item) (List.flatMap marks) start := by
    intro start
    apply many_reads
    intro before
    unfold oneRound furtherEntryFollows
    simp only [reads_bind_assoc]
    apply Reads.accept rfl
    · intro _
      apply reads_entryFollows
      intro follows
      split
      · apply Reads.bind (each before.consume)
        intro value after
        exact Reads.pure rfl
      · exact Reads.pure rfl
    · intro _
      exact Reads.pure rfl
  unfold listed
  apply reads_entryFollows
  intro follows
  split
  · apply Reads.bind (each parser)
    intro first middle
    apply Reads.bind (further middle)
    intro values after
    exact Reads.pure (by simp)
  · exact Reads.pure rfl

theorem members_reads (found : parser.ahead = .openParen) :
    Reads texts [] members Members.marks parser := by
  unfold members
  simp only [reads_aheadSpan]
  apply Reads.pass found rfl
  simp only [reads_isAt]
  split
  · rename_i dots
    simp only [reads_aheadSpan]
    apply Reads.pass (by simpa using dots) rfl
    apply Reads.expectOrSkipTo rfl
    intro _ after
    exact Reads.pure rfl
  · apply Reads.bind (listed_reads variableOrConstructor_reads parser.consume)
    intro names afterNames
    apply Reads.expectOrSkipTo rfl
    intro _ after
    exact Reads.pure rfl

theorem members?_reads (parser : Parser) : Reads texts [] members? Members.marks parser := by
  unfold members?
  simp only [reads_isAt]
  split
  · rename_i found
    exact members_reads (by simpa using found)
  · exact Reads.pure rfl

theorem selectedName_reads {start : Span} (parser : Parser) :
    Reads texts [] (selectedName start) Selection.marks parser := by
  unfold selectedName
  apply Reads.bind (qualifiedIdentifier_reads parser)
  intro name middle
  apply Reads.bind (members?_reads middle)
  intro members after
  exact Reads.pure (by simp)

theorem selectedModule_reads {start : Span} (isExport : Bool) (found : parser.ahead = .kwModule) :
    Reads texts [] (selectedModule isExport start) Selection.marks parser := by
  have named : ∀ before, Reads texts []
      (do
        let name ← moduleName
        return Selection.wholeModule name (← spanFrom start))
      Selection.marks before := by
    intro before
    apply Reads.bind (moduleName_reads before)
    intro name after
    exact Reads.pure (by simp)
  unfold selectedModule allowModule
  apply Reads.pass found rfl
  split
  · apply Reads.report
    exact named _
  · exact named parser.consume

theorem selection_reads (isExport : Bool) (parser : Parser) :
    Reads texts [] (selection isExport) Selection.marks parser := by
  unfold selection
  simp only [reads_aheadSpan, reads_ahead]
  split
  · rename_i found
    exact selectedModule_reads isExport found
  · rename_i found
    apply Reads.bind (parenthesizedSymbol_reads found symbol_reads)
    intro name after
    exact Reads.pure (by simp)
  · exact selectedName_reads parser
  · exact selectedName_reads parser
  · apply Reads.fail
    exact Reads.pure_of_unclean (fail_spoils parser)

theorem selectionList_reads (isExport : Bool) (found : parser.ahead = .openParen) :
    Reads texts [] (selectionList isExport) SelectionList.marks parser := by
  unfold selectionList
  simp only [reads_aheadSpan]
  apply Reads.pass found rfl
  apply Reads.bind (listed_reads (selection_reads isExport) parser.consume)
  intro selections afterList
  apply Reads.expectOrSkipTo rfl
  intro _ after
  exact Reads.pure rfl

theorem selectionList?_reads (isExport : Bool) (parser : Parser) :
    Reads texts [] (selectionList? isExport) (fun found => found.elim [] SelectionList.marks)
      parser := by
  unfold selectionList?
  simp only [reads_isAt]
  split
  · rename_i found
    apply Reads.bind (selectionList_reads isExport (by simpa using found))
    intro list after
    exact Reads.pure rfl
  · exact Reads.pure rfl

theorem moduleHeader_reads (found : parser.ahead = .kwModule) :
    Reads texts [] moduleHeader Decl.marks parser := by
  unfold moduleHeader
  simp only [reads_aheadSpan]
  apply Reads.pass found rfl
  apply Reads.bind (moduleName_reads parser.consume)
  intro name afterName
  apply Reads.bind (selectionList?_reads true afterName)
  intro exports afterExports
  apply Reads.expect rfl
  intro _ after
  exact Reads.pure (by simp)

theorem lexemeAt_of_isAtWord {word : String} (written : parser.isAtWord word = true) :
    parser.ahead = .identifier ∧
      parser.context.lexemeAt parser.aheadSpan.start = some ⟨.identifier, word⟩ := by
  simp only [Parser.isAtWord, Bool.and_eq_true, decide_eq_true_eq, beq_iff_eq] at written
  obtain ⟨found, text⟩ := written
  unfold Context.identifierAt at text
  split at text
  · rename_i recorded
    cases text
    exact ⟨found, recorded⟩
  · cases text

theorem acceptWord_reads (word : String) (parser : Parser) :
    Reads texts [] (acceptWord word) (fun written => keywordMarks written word) parser := by
  unfold acceptWord
  simp only [reads_isAtWord]
  split
  · rename_i written
    obtain ⟨found, recorded⟩ := lexemeAt_of_isAtWord written
    apply ReadsFrom.of_steady
    intro steady
    rw [steady.lexemeAt (by rw [found]; rfl)] at recorded
    have spelled : Word.Spelled texts (parser.ahead, parser.aheadSpan) (.keyword word) :=
      ⟨found, recorded⟩
    apply Reads.consume (isAtEnd_of_ahead (by decide) found) (.word spelled .nil)
    exact Reads.pure rfl
  · exact Reads.pure rfl

theorem renaming?_reads (parser : Parser) :
    Reads texts [] renaming? (fun found => found.elim [] fun name => .word (.keyword "as") :: name.marks)
      parser := by
  unfold renaming?
  apply Reads.bind (acceptWord_reads "as" parser)
  intro isRenamed middle
  cases isRenamed with
  | false => exact Reads.pure rfl
  | true =>
    simp only [if_true, reads_map]
    exact (moduleName_reads middle).finish (by simp [keywordMarks])

theorem importList_reads (parser : Parser) :
    Reads texts [] importList
      (fun found => keywordMarks found.1 "hiding" ++ found.2.elim [] SelectionList.marks) parser := by
  unfold importList
  apply Reads.bind (acceptWord_reads "hiding" parser)
  intro isHiding middle
  apply Reads.bind (selectionList?_reads false middle)
  intro selections after
  split
  · apply Reads.reportUnexpected
    exact Reads.pure (by simp)
  · exact Reads.pure (by simp)

theorem importDecl_reads (found : parser.ahead = .kwImport) :
    Reads texts [] importDecl Decl.marks parser := by
  unfold importDecl
  simp only [reads_aheadSpan]
  apply Reads.pass found rfl
  apply Reads.bind (acceptWord_reads "qualified" parser.consume)
  intro isQualified afterQualified
  apply Reads.bind (moduleName_reads afterQualified)
  intro name afterName
  apply Reads.bind (renaming?_reads afterName)
  intro renamedTo afterAs
  apply Reads.bind (importList_reads afterAs)
  intro found after
  exact Reads.pure (by simp)

theorem unsupportedDecl_reads (inside : parser.isAtEnd = false) :
    Reads texts [] unsupportedDecl Decl.marks parser := by
  unfold unsupportedDecl
  simp only [reads_aheadSpan, reads_ahead]
  apply ReadsFrom.consume inside
  obtain ⟨passed, run⟩ : Leads (fun _ => True) parser.consume
      (parser.consume.skipToAny [.semicolon, .closeBrace] 0) := Leads.skipToAny _ 0 _
  have known : Parse.skipToAny [.semicolon, .closeBrace] parser.consume =
      ((), parser.consume.skipToAny [.semicolon, .closeBrace] 0) := rfl
  apply ReadsFrom.step known run
  have spelled : Spells texts [.skipped]
      ([] ++ [(parser.ahead, parser.aheadSpan)] ++ passed ++ []) := .skipped .nil
  rw [List.append_nil] at spelled
  apply ReadsFrom.settle spelled
  exact Reads.pure (by simp)

theorem topDecl_reads (parser : Parser) : Reads texts [] topDecl Decl.marks parser := by
  unfold topDecl
  simp only [reads_ahead]
  split
  iterate 8
    · rename_i found
      exact unsupportedDecl_reads (isAtEnd_of_ahead (by decide) found)
  · rename_i found
    apply Reads.reportUnexpected
    exact importDecl_reads ((ahead_reportUnexpected parser).trans found)
  · exact decl_reads (level_reads nestingLimit) parser

theorem moduleBody_reads (found : parser.ahead = .openBrace) :
    Reads texts [] moduleBody (List.flatMap Decl.marks) parser := by
  unfold moduleBody
  apply Reads.pass found rfl
  have imports : Reads texts [] (many (isAt .kwImport) (itemThenEnd importDecl))
      (List.flatMap Decl.marks) parser.consume := by
    apply many_reads
    intro start
    unfold oneRound
    simp only [reads_isAt]
    split
    · rename_i found
      apply Reads.bind (itemThenEnd_reads (importDecl_reads (by simpa using found)))
      intro value after
      exact Reads.pure rfl
    · exact Reads.pure rfl
  apply Reads.bind imports
  intro imports afterImports
  apply Reads.bind (items_reads topDecl_reads afterImports)
  intro decls afterDecls
  apply Reads.expectOrSkipTo rfl
  intro _ after
  exact Reads.pure (by simp)

theorem moduleHeader?_reads (parser : Parser) :
    Reads texts [] moduleHeader? (List.flatMap Decl.marks) parser := by
  unfold moduleHeader?
  simp only [reads_isAt]
  split
  · rename_i found
    simp only [reads_map]
    exact (moduleHeader_reads (by simpa using found)).finish (by simp)
  · exact Reads.pure rfl

theorem moduleBody?_reads (parser : Parser) :
    Reads texts [] moduleBody? (List.flatMap Decl.marks) parser := by
  unfold moduleBody?
  simp only [reads_isAt]
  split
  · rename_i found
    exact moduleBody_reads (by simpa using found)
  · exact Reads.pure rfl

theorem skipToEnd_reads (parser : Parser) : Reads texts [] skipToEnd (fun _ => []) parser := by
  unfold skipToEnd
  simp only [reads_isAtEnd]
  split
  · apply Reads.reportUnexpected
    have skips : Leads (fun _ => True) parser.reportUnexpected
        (parser.reportUnexpected.skipTo .endOfInput) := Leads.skipTo _ _
    exact ReadsFrom.of_unclean skips fun clean =>
      reportUnexpected_spoils parser (skips.clean clean)
  · exact Reads.pure rfl

theorem program_reads (parser : Parser) : Reads texts [] program Program.marks parser := by
  unfold program
  simp only [reads_aheadSpan]
  apply Reads.bind (moduleHeader?_reads parser)
  intro header afterHeader
  apply Reads.bind (moduleBody?_reads afterHeader)
  intro body afterBody
  apply Reads.bind (skipToEnd_reads afterBody)
  intro _ after
  exact Reads.pure (by simp [Program.marks])

end Offside.Haskell.Grammar
