import Offside.Haskell.Grammar.Modules
import Offside.Proofs.Grammar.Expressions

/-!
Every level of the tower is sound, by induction on its height, and so whole programs end with every
error node reported, at the end of input.
-/

namespace Offside

set_option autoImplicit false

namespace Parser

theorem aheadSpan_reportUnexpected (parser : Parser) :
    parser.reportUnexpected.aheadSpan = parser.aheadSpan := by
  rcases reportUnexpected_cases parser with same | reported
  · rw [same]
  · rw [reported]

theorem isAtEnd_skipTo_end (parser : Parser) : (parser.skipTo .endOfInput).isAtEnd = true := by
  fun_induction Parser.skipTo .endOfInput parser with
  | case1 parser ended => exact ended
  | case2 parser inner found => simpa [isAtEnd] using found
  | case3 parser inner other fewer induction => exact induction

end Parser

namespace Haskell.Grammar

open Offside.Parser Offside.Parse

variable {files : FileId → Prop} {further : Nat} {parser : Parser}

/-- Beyond the limit everything is refused, and the place of the refusal is reported. -/
theorem refusal_sound (files : FileId → Prop) : Level.refusal.Sound files 0 := by
  have refusedExpr : ∀ parser, Ends files 0 (refuse Expr.error) parser (Expr.Backed files) := by
    intro parser
    apply (refuse_ends parser).mono
    rintro value after _ ⟨rfl, accounted, placed, _⟩
    exact backed_error ⟨accounted, placed⟩
  have passedExpr : ∀ parser : Parser, parser.isAtEnd = false →
      Ends files 0 (refuse Expr.error) parser (readsExpr files parser) := by
    intro parser inside
    apply (refuse_ends parser).mono
    rintro value after _ ⟨rfl, accounted, placed, progress⟩
    exact ⟨backed_error ⟨accounted, placed⟩, progress inside⟩
  have refusedType : ∀ parser, Ends files 0 (refuse TypeTerm.error) parser
      (TypeTerm.Backed files) := by
    intro parser
    apply (refuse_ends parser).mono
    rintro value after _ ⟨rfl, accounted, placed, _⟩
    exact ⟨by simpa using accounted, placed⟩
  have refusedBlock : ∀ {α : Type} {listErrors : List α → List Span}, listErrors [] = [] →
      ∀ parser, Ends files 0 (refuse fun _ => []) parser fun items after =>
        after.Accounts (listErrors items) := by
    intro α listErrors nil parser
    apply (refuse_ends parser).mono
    rintro value after _ ⟨rfl, _⟩
    rw [nil]
    exact after.accounts_nil
  exact
    { expression := refusedExpr
      pattern := refusedExpr
      type := refusedType
      expressionAtom := refusedExpr
      patternAtom := refusedExpr
      parentheses := passedExpr
      brackets := passedExpr
      declBlock := refusedBlock (by simp [Decl.listErrors])
      alternativeBlock := refusedBlock (by simp [Alternative.listErrors])
      statementBlock := refusedBlock (by simp [Statement.listErrors]) }

theorem level_sound (files : FileId → Prop) (further : Nat) :
    (level further).Sound files further := by
  induction further with
  | zero => exact refusal_sound files
  | succ further sound =>
    have declAccounted : ∀ parser, Ends files further (decl (level further)) parser
        fun decl after => after.Accounts decl.errors :=
      fun parser => (decl_ends sound parser).mono fun _ _ _ backed => backed.accounted
    exact
      { expression := fun parser => nested_ends (fun _ _ _ held => held.atDepth)
          (expressionProduction_ends sound _)
        pattern := fun parser => nested_ends (fun _ _ _ held => held.atDepth)
          (patternProduction_ends sound _)
        type := fun parser => nested_ends (fun _ _ _ held => held.atDepth)
          (typeProduction_ends sound _)
        expressionAtom := fun parser => nested_ends (fun _ _ _ held => held.atDepth)
          ((atom_ends sound _).mono fun _ _ _ read => read.1)
        patternAtom := fun parser => nested_ends (fun _ _ _ held => held.atDepth)
          ((patternAtom_ends sound _).mono fun _ _ _ read => read.1)
        parentheses := fun parser inside =>
          nested_ends (fun _ _ _ held => ⟨held.1.atDepth, held.2⟩)
            (parentheses_ends sound inside)
        brackets := fun parser inside =>
          nested_ends (fun _ _ _ held => ⟨held.1.atDepth, held.2⟩)
            (brackets_ends sound inside)
        declBlock := fun parser => nested_ends (fun _ _ _ held => held)
          ((block_ends (stable_accounts Decl.errors) declAccounted _).mono
            fun _ _ _ accounted => accounts_decls.2 accounted)
        alternativeBlock := fun parser => nested_ends (fun _ _ _ held => held)
          ((block_ends (stable_accounts Alternative.errors) (alternative_ends sound) _).mono
            fun _ _ _ accounted => accounts_alternatives.2 accounted)
        statementBlock := fun parser => nested_ends (fun _ _ _ held => held)
          ((block_ends (stable_accounts Statement.errors) (statement_ends sound) _).mono
            fun _ _ _ accounted => accounts_statements.2 accounted) }

theorem acceptWord_ends {β : Type} {post : β → Parser → Prop} {word : String}
    {next : Bool → Parse β}
    (ends : ∀ found after, Leads files parser after → Ends files further (next found) after post) :
    Ends files further (acceptWord word >>= next) parser post := by
  by_cases atWord : parser.isAtWord word = true
  · have inside : parser.isAtEnd = false := by
      simp only [Parser.isAtWord, Bool.and_eq_true, decide_eq_true_eq] at atWord
      exact isAtEnd_of_ahead (by decide) atWord.1
    have known : acceptWord word parser = (true, parser.consume) := by
      change (if parser.isAtWord word = true then _ else _ : Parse Bool) parser = _
      rw [if_pos atWord]
      rfl
    exact Ends.step known (Leads.consume inside) (ends true _ (Leads.consume inside))
  · have known : acceptWord word parser = (false, parser) := by
      change (if parser.isAtWord word = true then _ else _ : Parse Bool) parser = _
      rw [if_neg atWord]
      rfl
    exact Ends.step known (Leads.refl parser) (ends false parser (Leads.refl parser))

theorem entryFollows_ends (parser : Parser) :
    Ends files further entryFollows parser fun _ after => after = parser := by
  unfold entryFollows
  simp only [ends_ahead]
  split
  · exact Ends.pure rfl
  · exact Ends.pure rfl
  · exact Ends.pure rfl

theorem listed_ends {α : Type} {item : Parse α} {holds : α → Parser → Prop}
    (stable : Stable files holds) (each : ∀ start, Ends files further item start holds)
    (parser : Parser) :
    Ends files further (listed item) parser fun values after =>
      ∀ value ∈ values, holds value after := by
  have later : ∀ start, Ends files further (many furtherEntryFollows item) start
      fun values after => ∀ value ∈ values, holds value after := by
    apply many_ends stable
    intro start
    unfold furtherEntryFollows
    apply Ends.accept (by decide)
    · intro comma leads
      have passed := remaining_consume_lt (isAtEnd_of_ahead (by decide) comma)
      apply (entryFollows_ends start.consume).mono
      rintro goes after _ rfl _
      apply (each start.consume).mono
      intro value final goesOn held
      exact ⟨Nat.lt_of_le_of_lt goesOn.remaining_le passed, held⟩
    · intro _
      exact Ends.pure (by simp)
  unfold listed
  apply Ends.bind (entryFollows_ends parser)
  rintro found start _ rfl
  cases found with
  | false => exact Ends.pure (by simp)
  | true =>
    apply Ends.bind (each start)
    intro first middle _ held
    apply Ends.bind (later middle)
    intro values after leads heldLater
    apply Ends.pure
    intro value member
    rcases List.mem_cons.1 member with rfl | member
    · exact stable value middle after leads held
    · exact heldLater value member

theorem members_ends (inside : parser.isAtEnd = false) :
    Ends files further members parser fun members after => after.Accounts members.errors := by
  unfold members
  simp only [ends_aheadSpan]
  apply Ends.consume inside
  intro _
  simp only [ends_isAt]
  split
  · rename_i found
    have dots : parser.consume.ahead = .doubleDot := by simpa using found
    simp only [ends_aheadSpan]
    apply Ends.consume (isAtEnd_of_ahead (by decide) dots)
    intro _
    apply Ends.expectOrSkipTo (by decide)
    intro _ after _
    exact Ends.pure (by simp)
  · have names : ∀ start, Ends files further variableOrConstructor start (Name.Backed files) :=
      fun start => (variableOrConstructor_ends start).mono fun _ _ _ read => read.1
    apply Ends.bind (listed_ends (Name.stable_backed files) names parser.consume)
    intro names middle _ backed
    apply Ends.expectOrSkipTo (by decide)
    intro _ after leads
    simp only [ends_spanFrom]
    refine Ends.pure ?_
    rw [Members.errors, accounts_names]
    exact fun name member => leads.accounts (backed name member).accounted

theorem members?_ends (parser : Parser) :
    Ends files further members? parser fun members after => after.Accounts members.errors := by
  unfold members?
  simp only [ends_isAt]
  split
  · rename_i found
    have paren : parser.ahead = .openParen := by simpa using found
    exact members_ends (isAtEnd_of_ahead (by decide) paren)
  · exact Ends.pure (by simp)

theorem selectedName_ends (start : Span) (parser : Parser) :
    Ends files further (selectedName start) parser fun selection after =>
      after.Accounts selection.errors := by
  unfold selectedName
  apply Ends.bind (qualifiedIdentifier_ends parser)
  intro name middle _ read
  apply Ends.bind (members?_ends middle)
  intro members after leads accounted
  simp only [ends_spanFrom]
  refine Ends.pure ?_
  simpa using And.intro (leads.accounts read.1.accounted) accounted

theorem selectedModule_ends (isExport : Bool) (inside : parser.isAtEnd = false) :
    Ends files further (selectedModule isExport parser.aheadSpan) parser fun selection after =>
      after.Accounts selection.errors := by
  have named : ∀ after, Ends files further
      (do
        let name ← moduleName
        return Selection.wholeModule name (← spanFrom parser.aheadSpan))
      after fun selection after => after.Accounts selection.errors := by
    intro after
    apply Ends.bind (moduleName_ends after)
    intro name final _ read
    simp only [ends_spanFrom]
    refine Ends.pure ?_
    simpa using read.1.accounted
  unfold selectedModule allowModule
  cases isExport with
  | true =>
    apply Ends.consume inside
    intro _
    exact named parser.consume
  | false =>
    -- The keyword is reported after it was passed, which is one move.
    apply ends_bind_assoc.1
    exact Ends.step rfl ⟨_, Run.consumeReporting inside⟩ (named _)

theorem selection_ends (isExport : Bool) (parser : Parser) :
    Ends files further (selection isExport) parser fun selection after =>
      after.Accounts selection.errors := by
  unfold selection
  apply Ends.of_ready
  intro ready
  simp only [ends_aheadSpan, ends_ahead]
  split
  · rename_i found
    exact selectedModule_ends isExport (isAtEnd_of_ahead (by decide) found)
  · rename_i found
    apply Ends.bind (parenthesizedSymbol_ends symbol_ends (isAtEnd_of_ahead (by decide) found))
    intro name after _ read
    simp only [ends_spanFrom]
    refine Ends.pure ?_
    simpa using read.1.accounted
  · exact selectedName_ends parser.aheadSpan parser
  · exact selectedName_ends parser.aheadSpan parser
  · apply Ends.fail
    intro _
    refine Ends.pure ?_
    simpa using fail_accounts ready.toValid

theorem selectionList_ends (isExport : Bool) (inside : parser.isAtEnd = false) :
    Ends files further (selectionList isExport) parser fun list after =>
      after.Accounts list.errors := by
  unfold selectionList
  simp only [ends_aheadSpan]
  apply Ends.consume inside
  intro _
  apply Ends.bind (listed_ends (stable_accounts Selection.errors) (selection_ends isExport)
    parser.consume)
  intro selections middle _ accounted
  apply Ends.expectOrSkipTo (by decide)
  intro _ after leads
  simp only [ends_spanFrom]
  refine Ends.pure ?_
  apply (accounts_collected (fun _ => List.mem_flatMap) after).2
  exact fun selection member => leads.accounts (accounted selection member)

theorem selectionList?_ends (isExport : Bool) (parser : Parser) :
    Ends files further (selectionList? isExport) parser fun list after =>
      after.Accounts (list.elim [] SelectionList.errors) := by
  unfold selectionList?
  simp only [ends_isAt]
  split
  · rename_i found
    have paren : parser.ahead = .openParen := by simpa using found
    apply Ends.bind (selectionList_ends isExport (isAtEnd_of_ahead (by decide) paren))
    intro list after _ accounted
    exact Ends.pure accounted
  · exact Ends.pure (by simp)

theorem moduleHeader_ends (inside : parser.isAtEnd = false) :
    Ends files further moduleHeader parser (Decl.Backed parser.aheadSpan) := by
  unfold moduleHeader
  simp only [ends_aheadSpan]
  apply Ends.consume inside
  intro _
  apply Ends.bind (moduleName_ends parser.consume)
  intro name afterName _ read
  apply Ends.bind (selectionList?_ends true afterName)
  intro exports middle leadsExports accounted
  apply Ends.expect (by decide)
  intro _ after leads
  refine Ends.pure ⟨?_, spanFrom_start after parser.aheadSpan⟩
  rw [Decl.errors, ModuleHeader.errors, accounts_append]
  exact ⟨(leadsExports.trans leads).accounts read.1.accounted, leads.accounts accounted⟩

theorem renaming?_ends (parser : Parser) :
    Ends files further renaming? parser fun found after =>
      after.Accounts (found.elim [] Name.errors) := by
  unfold renaming?
  apply acceptWord_ends
  intro renames middle _
  cases renames with
  | false => exact Ends.pure (by simp)
  | true => exact Ends.map ((moduleName_ends middle).mono fun _ _ _ read => read.1.accounted)

theorem importList_ends (parser : Parser) :
    Ends files further importList parser fun found after =>
      after.Accounts (found.2.elim [] SelectionList.errors) := by
  unfold importList
  apply acceptWord_ends
  intro isHiding afterWord _
  apply Ends.bind (selectionList?_ends false afterWord)
  intro selections middle _ accounted
  split
  · apply Ends.reportUnexpected
    intro leads
    exact Ends.pure (leads.accounts accounted)
  · exact Ends.pure accounted

theorem importDecl_ends (inside : parser.isAtEnd = false) :
    Ends files further importDecl parser (Decl.Backed parser.aheadSpan) := by
  unfold importDecl
  simp only [ends_aheadSpan]
  apply Ends.consume inside
  intro _
  apply acceptWord_ends
  intro isQualified afterWord _
  apply Ends.bind (moduleName_ends afterWord)
  intro name afterName _ read
  apply Ends.bind (renaming?_ends afterName)
  intro renamedTo afterAs leadsAs accountedAlias
  apply Ends.bind (importList_ends afterAs)
  rintro ⟨isHiding, selections⟩ after leads accounted
  refine Ends.pure ⟨?_, spanFrom_start after parser.aheadSpan⟩
  rw [Decl.errors, ImportDecl.errors, accounts_append, accounts_append]
  have nameEnd := (leadsAs.trans leads).accounts read.1.accounted
  exact ⟨⟨nameEnd, leads.accounts accountedAlias⟩, accounted⟩

theorem unsupportedDecl_ends (inside : parser.isAtEnd = false) :
    Ends files further unsupportedDecl parser (Decl.Backed parser.aheadSpan) := by
  unfold unsupportedDecl
  simp only [ends_aheadSpan, ends_ahead]
  apply Ends.consume inside
  intro _
  apply Ends.skipToAny
  intro _
  exact Ends.pure ⟨by simp, spanFrom_start _ parser.aheadSpan⟩

/-- Top-level declarations are read at depth zero, where the whole tower is still to be entered. -/
theorem topDecl_ends (parser : Parser) :
    Ends files nestingLimit topDecl parser (Decl.Backed parser.aheadSpan) := by
  unfold topDecl
  simp only [ends_ahead]
  split
  iterate 8
    · rename_i found
      exact unsupportedDecl_ends (isAtEnd_of_ahead (by decide) found)
  · rename_i found
    have inside := isAtEnd_of_ahead (by decide) found
    apply Ends.reportUnexpected
    intro _
    rw [← aheadSpan_reportUnexpected parser]
    exact importDecl_ends ((isAtEnd_reportUnexpected parser).trans inside)
  · exact decl_ends (level_sound files nestingLimit) parser

theorem moduleBody_ends (inside : parser.isAtEnd = false) :
    Ends files nestingLimit moduleBody parser fun decls after =>
      after.Accounts (Decl.listErrors decls) := by
  unfold moduleBody
  apply Ends.consume inside
  intro _
  have imports : Ends files nestingLimit (many (isAt .kwImport) (itemThenEnd importDecl))
      parser.consume fun decls after => ∀ decl ∈ decls, after.Accounts decl.errors := by
    apply many_ends (stable_accounts Decl.errors)
    intro start _
    refine ⟨Leads.refl start, fun found => ?_⟩
    have isImport : start.ahead = .kwImport := of_decide_eq_true found
    have insideStart := isAtEnd_of_ahead (by decide) isImport
    have item : Ends files nestingLimit importDecl start fun decl after =>
        after.Accounts decl.errors :=
      (importDecl_ends insideStart).mono fun _ _ _ backed => backed.accounted
    apply (itemThenEnd_ends (stable_accounts Decl.errors) item).mono
    intro decl after _ ended
    exact ⟨ended.2 insideStart (by rw [isImport]; decide), ended.1⟩
  apply Ends.bind imports
  intro imports middle _ accountedImports
  have topDecls : ∀ start, Ends files nestingLimit topDecl start fun decl after =>
      after.Accounts decl.errors :=
    fun start => (topDecl_ends start).mono fun _ _ _ backed => backed.accounted
  apply Ends.bind (items_ends (stable_accounts Decl.errors) topDecls middle)
  intro decls afterDecls leadsDecls accountedDecls
  apply Ends.expectOrSkipTo (by decide)
  intro _ after leads
  refine Ends.pure ?_
  rw [accounts_decls]
  intro decl member
  rcases List.mem_append.1 member with earlier | later
  · exact (leadsDecls.trans leads).accounts (accountedImports decl earlier)
  · exact leads.accounts (accountedDecls decl later)

theorem moduleHeader?_ends (parser : Parser) :
    Ends files further moduleHeader? parser fun decls after =>
      after.Accounts (Decl.listErrors decls) := by
  unfold moduleHeader?
  simp only [ends_isAt]
  split
  · rename_i found
    have isModule : parser.ahead = .kwModule := by simpa using found
    apply Ends.map
    apply (moduleHeader_ends (isAtEnd_of_ahead (by decide) isModule)).mono
    intro decl after _ backed
    simpa [Decl.listErrors] using backed.accounted
  · exact Ends.pure (by simp [Decl.listErrors])

theorem moduleBody?_ends (parser : Parser) :
    Ends files nestingLimit moduleBody? parser fun decls after =>
      after.Accounts (Decl.listErrors decls) := by
  unfold moduleBody?
  simp only [ends_isAt]
  split
  · rename_i found
    have brace : parser.ahead = .openBrace := by simpa using found
    exact moduleBody_ends (isAtEnd_of_ahead (by decide) brace)
  · exact Ends.pure (by simp [Decl.listErrors])

theorem skipToEnd_ends (parser : Parser) :
    Ends files further skipToEnd parser fun _ after => after.isAtEnd = true := by
  unfold skipToEnd
  simp only [ends_isAtEnd]
  split
  · apply Ends.reportUnexpected
    intro _
    apply Ends.skipTo
    intro _
    exact Ends.pure (isAtEnd_skipTo_end parser.reportUnexpected)
  · rename_i ended
    exact Ends.pure (by simpa using ended)

theorem program_ends (parser : Parser) :
    Ends files nestingLimit program parser fun program after =>
      after.Accounts program.errors ∧ after.isAtEnd = true := by
  unfold program
  simp only [ends_aheadSpan]
  apply Ends.bind (moduleHeader?_ends parser)
  intro header afterHeader _ accountedHeader
  apply Ends.bind (moduleBody?_ends afterHeader)
  intro body afterBody leadsBody accountedBody
  apply Ends.bind (skipToEnd_ends afterBody)
  intro _ after leads ended
  simp only [ends_spanFrom]
  refine Ends.pure (And.intro ?_ ended)
  change after.Accounts (Decl.listErrors (header ++ body))
  rw [accounts_decls] at accountedHeader accountedBody ⊢
  intro decl member
  rcases List.mem_append.1 member with earlier | later
  · exact (leadsBody.trans leads).accounts (accountedHeader decl earlier)
  · exact leads.accounts (accountedBody decl later)

end Haskell.Grammar

end Offside
