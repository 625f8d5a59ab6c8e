import Offside.Proofs.Spans.Expressions
import Offside.Proofs.Spans.TopLevel

/-!
Spans nest. Every level of the grammar places its nodes, by induction on the height of the tower, and so
do the module header, imports and the block of a program. The program itself goes from the first token
to the last one that has a width, and a text that yields a program has such a token.
-/

namespace Offside

set_option autoImplicit false

open Offside.Lexical

namespace Haskell.Grammar

open Offside.Parser Offside.Parse

variable {file : FileId} {parser : Parser} {origin : Span}

theorem refusal_locates : Level.Locates file .refusal where
  expression := refuse_locates
  pattern := refuse_locates
  type := refuse_locates
  expressionAtom := refuse_locates
  patternAtom := refuse_locates
  parentheses := fun parser _ => refuse_locates parser
  brackets := fun parser _ => refuse_locates parser
  declBlock := refuse_locates
  alternativeBlock := refuse_locates
  statementBlock := refuse_locates

theorem level_locates (further : Nat) : (level further).Locates file := by
  induction further with
  | zero => exact refusal_locates
  | succ further induction =>
    exact
      { expression := fun _ => nested_locates (expressionProduction_locates induction _)
        pattern := fun _ => nested_locates (patternProduction_locates induction _)
        type := fun _ => nested_locates (typeProduction_locates induction _)
        expressionAtom := fun _ => nested_locates (atom_locates induction _)
        patternAtom := fun _ => nested_locates (patternAtom_locates induction _)
        parentheses := fun _ opened => nested_locates (parentheses_locates induction opened)
        brackets := fun _ opened => nested_locates (brackets_locates induction opened)
        declBlock := fun _ =>
          nested_locates (block_locates (fun _ fresh => decl_locates induction fresh) _)
        alternativeBlock := fun _ =>
          nested_locates (block_locates (fun _ _ => .of_locates (alternative_locates induction _)) _)
        statementBlock := fun _ =>
          nested_locates (block_locates (fun _ _ => .of_locates (statement_locates induction _)) _) }

section Headers

theorem locates_entryFollows {β : Type} {tag : β → List Node} {owed : List Node}
    {next : Bool → Parse β}
    (locates : ∀ follows, LocatesFrom file origin owed (next follows) tag parser) :
    LocatesFrom file origin owed (entryFollows >>= next) tag parser := by
  unfold entryFollows
  simp only [locates_bind_assoc, locates_ahead]
  split
  · exact locates false
  · exact locates false
  · exact locates true

theorem listed_locates {α : Type} {item : Parse α} {tag : α → Node}
    (each : ∀ start, Locates file item (fun made => [tag made]) start) (parser : Parser) :
    Locates file (listed item) (List.map tag) parser := by
  have further : ∀ start, Locates file (many furtherEntryFollows item) (List.map tag) start := by
    refine many_locates fun before => ?_
    unfold oneRound furtherEntryFollows
    simp only [locates_bind_assoc]
    apply LocatesFrom.accept (by decide)
    · intro _
      apply locates_entryFollows
      intro follows
      split
      · exact round_locates (each before.consume)
      · exact .pure rfl
    · intro _
      exact .pure rfl
  unfold listed
  apply locates_entryFollows
  intro follows
  split
  · apply LocatesFrom.bind (each parser)
    intro first middle
    exact .bind (further middle) fun _ _ => .pure rfl
  · exact .pure rfl

theorem members_locates (opened : parser.ahead = .openParen) :
    Locates file members Members.nodes parser := by
  unfold members
  simp only [locates_aheadSpan]
  apply LocatesFrom.take (by rw [opened]; rfl)
  simp only [locates_isAt]
  split
  · rename_i dots
    have dots : parser.consume.ahead = .doubleDot := by simpa using dots
    simp only [locates_aheadSpan]
    apply LocatesFrom.take (by rw [dots]; rfl)
    apply LocatesFrom.expectOrSkipTo (by decide)
    intro _ after
    apply LocatesFrom.fewer (List.sublist_append_right _ _)
    exact .pure_over rfl (List.nil_subset _) rfl
  · apply LocatesFrom.bind (listed_locates variableOrConstructor_locates parser.consume)
    intro names afterNames
    apply LocatesFrom.expectOrSkipTo (by decide)
    intro _ after
    simp only [locates_spanFrom]
    refine .close ?_ ?_ ?_ (.pure rfl)
    · simp
    · simp
    · rfl

theorem members?_locates (parser : Parser) : Locates file members? Members.nodes parser := by
  unfold members?
  simp only [locates_isAt]
  split
  · rename_i opened
    exact members_locates (by simpa using opened)
  · exact .pure rfl

theorem selectedName_locates (parser : Parser) :
    LocatesFrom file origin [] (selectedName origin) (fun made => [.selection made]) parser := by
  unfold selectedName
  apply LocatesFrom.bind (qualifiedIdentifier_locates parser)
  intro name middle
  apply LocatesFrom.bind (members?_locates middle)
  intro members after
  exact .made (by simp) (by simp) fun _ => rfl

theorem selectedModule_locates (isExport : Bool) (parser : Parser) :
    LocatesFrom file origin [] (selectedModule isExport origin) (fun made => [.selection made])
      parser := by
  have named : ∀ start, LocatesFrom file origin []
      (do
        let name ← moduleName
        return Selection.wholeModule name (← spanFrom origin))
      (fun made => [.selection made]) start := by
    intro start
    apply LocatesFrom.bind (moduleName_locates start)
    intro name after
    exact .made (by simp) (by simp) fun _ => rfl
  unfold selectedModule allowModule
  apply LocatesFrom.consume
  split
  · apply LocatesFrom.report
    exact named _
  · exact named parser.consume

theorem selection_locates (isExport : Bool) (parser : Parser) :
    Locates file (selection isExport) (fun made => [.selection made]) parser := by
  unfold selection
  simp only [locates_aheadSpan, locates_ahead]
  split
  · exact selectedModule_locates isExport parser
  · apply LocatesFrom.bind (parenthesizedSymbol_locates symbol_locates parser)
    intro name after
    exact .made (by simp) (by simp [Members.nodes]) fun _ => rfl
  · exact selectedName_locates parser
  · exact selectedName_locates parser
  · apply LocatesFrom.fail
    exact .pure_of_unclean (fail_spoils parser)

theorem selectionList_locates (isExport : Bool) (opened : parser.ahead = .openParen) :
    Locates file (selectionList isExport) (fun made => [.selections made]) parser := by
  unfold selectionList
  simp only [locates_aheadSpan]
  apply LocatesFrom.take (by rw [opened]; rfl)
  apply LocatesFrom.bind (listed_locates (selection_locates isExport) parser.consume)
  intro selections afterList
  apply LocatesFrom.expectOrSkipTo (by decide)
  intro _ after
  exact .made (by simp) (by simp) fun _ => rfl

theorem selectionList?_locates (isExport : Bool) (parser : Parser) :
    Locates file (selectionList? isExport) (fun found => found.toList.map .selections) parser := by
  unfold selectionList?
  simp only [locates_isAt]
  split
  · rename_i opened
    exact round_locates (selectionList_locates isExport (by simpa using opened))
  · exact .pure rfl

theorem moduleHeader_locates (parser : Parser) :
    Locates file moduleHeader (fun made => [.decl made]) parser := by
  unfold moduleHeader
  simp only [locates_aheadSpan]
  apply LocatesFrom.consume
  apply LocatesFrom.bind (moduleName_locates parser.consume)
  intro name afterName
  apply LocatesFrom.bind (selectionList?_locates true afterName)
  intro exports afterExports
  apply LocatesFrom.expect (by decide)
  intro _ after
  exact .made (by simp) (by simp) fun _ => rfl

theorem acceptWord_locates (word : String) (parser : Parser) :
    Locates file (acceptWord word) (fun _ => []) parser := by
  unfold acceptWord
  simp only [locates_isAtWord]
  split
  · exact .consume (.pure rfl)
  · exact .pure rfl

theorem renaming?_locates (parser : Parser) :
    Locates file renaming? (fun found => found.toList.map .name) parser := by
  unfold renaming?
  apply LocatesFrom.bind (acceptWord_locates "as" parser)
  intro isRenamed middle
  split
  · exact locates_map.2 ((moduleName_locates middle).finish fun _ => rfl)
  · exact .pure rfl

theorem importList_locates (parser : Parser) :
    Locates file importList (fun found => found.2.toList.map .selections) parser := by
  unfold importList
  apply LocatesFrom.bind (acceptWord_locates "hiding" parser)
  intro isHiding middle
  apply LocatesFrom.bind (selectionList?_locates false middle)
  intro selections after
  split
  · apply LocatesFrom.reportUnexpected
    exact .pure rfl
  · exact .pure rfl

theorem importDecl_locates (parser : Parser) :
    Locates file importDecl (fun made => [.decl made]) parser := by
  unfold importDecl
  simp only [locates_aheadSpan]
  apply LocatesFrom.consume
  apply LocatesFrom.bind (acceptWord_locates "qualified" parser.consume)
  intro isQualified afterQualified
  apply LocatesFrom.bind (moduleName_locates afterQualified)
  intro name afterName
  apply LocatesFrom.bind (renaming?_locates afterName)
  intro renamedTo afterAs
  apply LocatesFrom.bind (importList_locates afterAs)
  intro found after
  exact .made (by simp) (by simp) fun _ => rfl

theorem unsupportedDecl_locates (firm : isFirm parser.ahead = true) :
    Locates file unsupportedDecl (fun made => [.decl made]) parser := by
  unfold unsupportedDecl
  simp only [locates_aheadSpan, locates_ahead]
  apply LocatesFrom.take firm
  apply LocatesFrom.skipToAny
  exact .made (by simp) (by simp) fun _ => rfl

end Headers

section Blocks

theorem ItemLocates.congr {α : Type} {item other : Parse α} {tag : α → Node}
    (same : item parser = other parser) (locates : ItemLocates file other tag parser) :
    ItemLocates file item tag parser where
  tidy := by
    rw [same]
    exact locates.tidy
  whole := locates.whole.congr (by rw [itemThenEnd, bind_apply, same]; rfl)

theorem topDecl_locates (fresh : parser.Fresh) : ItemLocates file topDecl .decl parser := by
  unfold topDecl
  apply ItemLocates.congr (ahead_bind_apply _)
  split
  iterate 8
    · rename_i found
      exact .of_locates (unsupportedDecl_locates (by rw [found]; rfl))
  · apply ItemLocates.of_locates
    apply LocatesFrom.reportUnexpected
    rw [← aheadSpan_reportUnexpected parser]
    exact importDecl_locates parser.reportUnexpected
  · exact decl_locates (level_locates nestingLimit) fresh

theorem moduleBody_locates (opened : parser.ahead = .openBrace) :
    Locates file moduleBody (List.map .decl) parser := by
  unfold moduleBody
  apply LocatesFrom.of_tidy
  intro tidy
  have fresh := tidy.fresh_consume opened
  have eachImport : ∀ start : Parser, start.Fresh → startsImport start.ahead = true →
      ItemLocates file importDecl .decl start :=
    fun start _ _ => .of_locates (importDecl_locates start)
  apply LocatesFrom.consume
  apply (items_locate isAt_import_ahead eachImport parser.consume fresh).bind_known
    (fun _ after => after.Fresh)
    fun tidy => items_fresh isAt_import_ahead eachImport parser.consume tidy fresh
  intro imports afterImports freshDecls
  apply LocatesFrom.bind
    (items_locate itemFollows_ahead (fun _ fresh _ => topDecl_locates fresh) afterImports freshDecls)
  intro decls afterDecls
  apply LocatesFrom.expectOrSkipTo (by decide)
  intro _ after
  exact .pure (by simp)

end Blocks

theorem moduleHeader?_locates (parser : Parser) :
    Locates file moduleHeader? (List.map .decl) parser := by
  unfold moduleHeader?
  simp only [locates_isAt]
  split
  · exact locates_map.2 (moduleHeader_locates parser)
  · exact .pure rfl

theorem moduleBody?_locates (parser : Parser) :
    Locates file moduleBody? (List.map .decl) parser := by
  unfold moduleBody?
  simp only [locates_isAt]
  split
  · rename_i opened
    exact moduleBody_locates (by simpa using opened)
  · exact .pure rfl

theorem skipToEnd_locates (parser : Parser) : Locates file skipToEnd (fun _ => []) parser := by
  unfold skipToEnd
  simp only [locates_isAtEnd]
  split
  · apply LocatesFrom.reportUnexpected
    have skips : Leads (fun _ => True) parser.reportUnexpected
        (parser.reportUnexpected.skipTo .endOfInput) := Leads.skipTo _ _
    exact .of_unclean skips fun clean => reportUnexpected_spoils parser (skips.clean clean)
  · exact .pure rfl

/-- The declarations of a program stand in order, each over its own parts. -/
theorem program_locates (parser : Parser) :
    Locates file program (fun made => made.decls.map .decl) parser := by
  unfold program
  simp only [locates_aheadSpan]
  apply LocatesFrom.bind (moduleHeader?_locates parser)
  intro header afterHeader
  apply LocatesFrom.bind (moduleBody?_locates afterHeader)
  intro body afterBody
  apply LocatesFrom.bind (skipToEnd_locates afterBody)
  intro _ after
  exact locates_spanFrom.2 (.pure (by simp))

theorem program_span (parser : Parser) :
    (program parser).1.span = (program parser).2.spanFrom parser.aheadSpan := by
  rw [program_eq]

/-- A program that ends clean behind where it starts covers all that is in it. -/
theorem program_nests (tidy : parser.Tidy file) (clean : (program parser).2.Clean)
    (width : parser.aheadSpan.start < (program parser).2.previous.stop) :
    (Node.program (program parser).1).Every Node.Nests := by
  obtain ⟨-, advances, places⟩ := program_locates parser tidy tidy.since
  have row := (places clean).2 .nil
  have since := advances.since tidy.since
  have span : (Node.program (program parser).1).span =
      parser.aheadSpan.through (program parser).2.previous :=
    (program_span parser).trans (since.spanFrom width)
  refine row.every ?_ (List.Subset.refl _) ?_ ?_ ?_
  · rw [Node.IsWide, span]
    exact width
  · rw [span]
    exact since.sameFile
  · rw [span]
    exact row.above
  · rw [span]
    exact row.below

end Haskell.Grammar

namespace Haskell

open Offside.Parser

variable {file : FileId} {source : List Char}

/-- Of a text that shows any token one at least was written, and has a width. -/
theorem exists_wide (shown : (reader.stream file source).inner ≠ []) :
    ∃ found ∈ (reader.stream file source).inner, found.2.isPoint = false := by
  obtain ⟨place, split⟩ := visible_split file source
  have visible := stream_visible file source
  cases tokens : writtenTokens file source with
  | nil =>
    rw [tokens, split] at visible
    simp [Layout.spread] at visible
  | cons written later =>
    have member : written ∈ writtenTokens file source := by simp [tokens]
    rw [tokens, Layout.spread_of_written (writtenTokens_uncommented file source written member)]
      at visible
    by_cases ended : written.token = .endOfInput
    · have nothing : (({} : Layout).step written).1 = [] := by
        simp [Layout.step, Layout.opensText, Layout.continueBlock, Layout.align, Layout.pass,
          Layout.closeFor, Layout.closeWhile, Layout.splitBlocks, ended]
      refine absurd ?_ shown
      rw [TokenStream.inner, visible, nothing]
      simp [isInner, ended]
    · have among : (written.token, written.span) ∈ (reader.stream file source).visible := by
        simp [visible]
      rw [split, List.mem_append, List.mem_singleton] at among
      refine ⟨_, among.resolve_right fun same => ended (congrArg Prod.fst same), ?_⟩
      rw [writtenTokens_wide file source written member]
      simpa using ended

variable {context : Context} {program : Program}

/-- A parse that has something to read goes past its first token. -/
theorem start_lt_previous
    (inside : (Parser.start (reader.stream file source) context).isAtEnd = false) :
    (Parser.start (reader.stream file source) context).aheadSpan.start <
      (parseTokens (reader.stream file source) context).2.previous.stop := by
  have shown : (reader.stream file source).inner ≠ [] := by
    rw [← rest_start _ context]
    intro nothing
    rw [(rest_eq_nil_iff _).1 nothing] at inside
    cases inside
  obtain ⟨found, among, wide⟩ := exists_wide shown
  have tidy := @tidy_start file source context
  have passes := Passes.of_run (parseTokens_run (stream_within file source) context)
  obtain ⟨behind, forward⟩ := passes.ahead_le tidy found among
  have width : found.2.start < found.2.stop := lt_of_le_of_ne forward (of_decide_eq_false wide)
  exact lt_of_le_of_lt behind (lt_of_lt_of_le width (passes.covered tidy found among wide).2)

/-- If nothing was reported for a text then every node of its program has a width and covers the nodes
right below it. -/
theorem spans_nest {source : List Char} (parsed : (parseText source context).1 = some program)
    (silent : (parseText source context).2.diagnostics = #[]) :
    ∀ node : Node, node.Inside (.program program) →
      node.span.start < node.span.stop ∧
        ∀ child ∈ node.children, node.span.contains child.span = true := by
  obtain ⟨found, same⟩ := parseText_eq_some parsed
  rw [same] at silent
  have clean := parseTokens_clean (stream_within context.file source) silent
  cases inside : (Parser.start (reader.stream context.file source) context).isAtEnd with
  | true =>
    rw [parseTokens_of_ended inside] at found
    cases found
  | false =>
    have width := start_lt_previous inside
    rw [parseTokens_program inside] at found
    rw [parseTokens_final inside] at clean width
    cases found
    have tidy := @tidy_start context.file source context
    exact fun node among => (Grammar.program_nests tidy clean width).of_inside among

/-- A text with a header, an import, a signature and guards, and with blocks inside others. -/
def nestedText : List Char :=
  "module M (f, T (..)) where\nimport A.B (x)\nf :: Int -> [a]\n".toList ++
    "f x | x = case x of y -> do z\n  where g = [(y, - 1) | y <- x, let w = 1]\n".toList

theorem spans_nest_in_nested_text :
    ∃ program, (parseText nestedText {}).1 = some program ∧
      (parseText nestedText {}).2.diagnostics = #[] ∧
      program.decls.map (fun decl => decl.span.fields) =
        [[0, 0, 0, 0, 26], [0, 1, 0, 1, 14], [0, 2, 0, 2, 15], [0, 3, 0, 4, 42]] ∧
      ∀ node : Node, node.Inside (.program program) →
        node.span.start < node.span.stop ∧
          ∀ child ∈ node.children, node.span.contains child.span = true := by
  have silent : (parseText nestedText {}).2.diagnostics.size = 0 := by decide +kernel
  have places : (parseText nestedText {}).1.map
      (fun program => program.decls.map fun decl => decl.span.fields) =
      some [[0, 0, 0, 0, 26], [0, 1, 0, 1, 14], [0, 2, 0, 2, 15], [0, 3, 0, 4, 42]] := by
    decide +kernel
  have silent : (parseText nestedText {}).2.diagnostics = #[] :=
    Array.eq_empty_of_size_eq_zero silent
  obtain ⟨program, parsed, known⟩ := Option.map_eq_some_iff.1 places
  exact ⟨program, parsed, silent, known, spans_nest parsed silent⟩

end Haskell

end Offside
