import Offside.Proofs.Reading.Conservation
import Offside.Proofs.Shape.Programs
import Offside.Proofs.Spans.Blocks

/-!
Where the declarations of a program stand. Every declaration starts with the lookahead that its item
starts with and ends with what the item has consumed, or is that one token if the declaration itself
consumed none. Behind separators and an opening brace that token has a width, and the item passes it in
any case, so the declarations of a program form a row, whatever was skipped to read on.
-/

namespace Offside

set_option autoImplicit false

open Offside.Lexical

namespace Parser

/-- A span reaches at least as far as the one it begins with, and no further than was consumed. -/
theorem spanFrom_stop (parser : Parser) (start : Span) :
    start.stop ≤ (parser.spanFrom start).stop ∧
      ((parser.spanFrom start).stop = start.stop ∨
        (parser.spanFrom start).stop = parser.previous.stop) := by
  unfold spanFrom
  split
  · rename_i reached
    exact ⟨reached.2, Or.inr rfl⟩
  · exact ⟨le_refl _, Or.inl rfl⟩

theorem Tidy.start_lt_stop {file : FileId} {parser : Parser} (tidy : parser.Tidy file)
    (wide : parser.aheadSpan.isPoint = false) : parser.aheadSpan.start < parser.aheadSpan.stop :=
  lt_of_le_of_ne tidy.forward (of_decide_eq_false wide)

/-- A production that consumed something passed the lookahead first. -/
theorem Passes.head {before after : Parser} {passed : List (Token × Span)}
    (passes : Passes before passed after) (some : passed ≠ []) :
    ∃ later, passed = (before.ahead, before.aheadSpan) :: later := by
  obtain ⟨first, later, rfl⟩ := List.exists_cons_of_ne_nil some
  have same := congrArg Stream'.head passes.upcoming
  exact ⟨later, by rw [show (before.ahead, before.aheadSpan) = first from same]⟩

end Parser

namespace Haskell.Grammar

open Offside.Parser Offside.Parse

variable {α : Type} {file : FileId} {parser : Parser}

/-- A declaration reaches from a given span to where the production ended. -/
def Closes (start : Span) (production : Parse Decl) (parser : Parser) : Prop :=
  (production parser).1.span = (production parser).2.spanFrom start

theorem closes_ahead {start : Span} {next : Token → Parse Decl} :
    Closes start (ahead >>= next) parser ↔ Closes start (next parser.ahead) parser :=
  Iff.rfl

def AlwaysCloses (start : Span) (production : Parse Decl) : Prop :=
  ∀ parser, Closes start production parser

namespace AlwaysCloses

variable {start : Span}

theorem after {first : Parse α} {next : α → Parse Decl}
    (closes : ∀ value, AlwaysCloses start (next value)) : AlwaysCloses start (first >>= next) :=
  fun parser => closes (first parser).1 (first parser).2

theorem ite {condition : Prop} [Decidable condition] {first second : Parse Decl}
    (taken : AlwaysCloses start first) (missed : AlwaysCloses start second) :
    AlwaysCloses start (if condition then first else second) := by
  split
  · exact taken
  · exact missed

theorem made {make : Span → Decl} (located : ∀ span, (make span).span = span) :
    AlwaysCloses start (do return make (← spanFrom start)) :=
  fun _ => located _

theorem ahead {next : Span → Parse Decl} (closes : ∀ start, AlwaysCloses start (next start))
    (parser : Parser) : Closes parser.aheadSpan (aheadSpan >>= next) parser :=
  closes parser.aheadSpan parser

end AlwaysCloses

section Closing

variable {inner : Level} {start : Span}

theorem moduleHeader_closes (parser : Parser) :
    Closes parser.aheadSpan moduleHeader parser := by
  refine AlwaysCloses.ahead (fun start => ?_) parser
  exact .after fun _ => .after fun _ => .after fun _ => .after fun _ => .made fun _ => rfl

theorem importDecl_closes (parser : Parser) : Closes parser.aheadSpan importDecl parser := by
  refine AlwaysCloses.ahead (fun start => ?_) parser
  exact .after fun _ => .after fun _ => .after fun _ => .after fun _ => .after fun _ =>
    .made fun _ => rfl

theorem unsupportedDecl_closes (parser : Parser) :
    Closes parser.aheadSpan unsupportedDecl parser := by
  refine AlwaysCloses.ahead (fun start => ?_) parser
  exact .after fun _ => .after fun _ => .after fun _ => .made fun _ => rfl

theorem fixityDecl_closes (parser : Parser) : Closes parser.aheadSpan fixityDecl parser := by
  refine AlwaysCloses.ahead (fun start => ?_) parser
  exact .after fun _ => .after fun _ => .after fun _ => .after fun _ => .made fun _ => rfl

theorem typeSignature_closes (first : Name) :
    AlwaysCloses start (typeSignature inner start first) :=
  .after fun _ => .after fun _ => .after fun _ => .made fun _ => rfl

theorem operatorClause_closes (left : Expr) (operator : Name) :
    AlwaysCloses start (operatorClause inner start left operator) :=
  .after fun _ => .after fun _ => .made fun _ => rfl

theorem declAfterPattern_closes (pattern : Expr) :
    AlwaysCloses start (declAfterPattern inner start pattern) := by
  refine .after fun operator => ?_
  cases operator with
  | some operator => exact operatorClause_closes pattern operator
  | none => exact .after fun _ => .made fun _ => rfl

theorem clauseAfterName_closes (name : Name) :
    AlwaysCloses start
      (do
        match ← variableOperator? with
        | some operator => operatorClause inner start (.identifier name) operator
        | none => functionClause inner start name) := by
  refine .after fun operator => ?_
  cases operator with
  | some operator => exact operatorClause_closes _ operator
  | none => exact .after fun _ => .after fun _ => .made fun _ => rfl

theorem declAfterName_closes (name : Name) :
    AlwaysCloses start (declAfterName inner start name) :=
  .after fun _ => .after fun _ => .ite (typeSignature_closes name)
    (.after fun _ => .ite (.after declAfterPattern_closes) (clauseAfterName_closes name))

theorem bindingDecl_closes (parser : Parser) :
    Closes parser.aheadSpan (bindingDecl inner) parser := by
  refine AlwaysCloses.ahead (fun start => ?_) parser
  refine .after fun token => ?_
  split
  · exact .after declAfterName_closes
  · refine .after fun _ => .ite (.after declAfterName_closes) (.after declAfterPattern_closes)
  · exact .after declAfterPattern_closes

/-- A declaration that is missing stands for the separator ahead, which has to be wide. -/
theorem decl_closes (tidy : parser.Tidy file) (wide : parser.aheadSpan.isPoint = false) :
    Closes parser.aheadSpan (decl inner) parser := by
  unfold decl
  rw [closes_ahead]
  split
  · have ahead := lt_of_le_of_lt tidy.behind (tidy.start_lt_stop wide)
    exact (if_neg fun reached => not_le_of_gt ahead reached.2).symm
  · exact fixityDecl_closes parser
  · exact fixityDecl_closes parser
  · exact fixityDecl_closes parser
  · exact bindingDecl_closes parser

theorem topDecl_closes (tidy : parser.Tidy file) (wide : parser.aheadSpan.isPoint = false) :
    Closes parser.aheadSpan topDecl parser := by
  unfold topDecl
  rw [closes_ahead]
  split
  iterate 8
    · exact unsupportedDecl_closes parser
  · have closes := importDecl_closes parser.reportUnexpected
    rw [aheadSpan_reportUnexpected] at closes
    exact closes
  · exact decl_closes tidy wide

end Closing

section Items

theorem skipToAny_of_other {tokens : List Token} {depth : Nat} (inner : parser.isAtEnd = false)
    (other : parser.ahead ∉ tokens) :
    parser.skipToAny tokens depth =
      parser.consume.skipToAny tokens (braceDepthAfter depth parser.ahead) := by
  rw [Parser.skipToAny, dif_neg (by simp [inner]), if_neg (by simp [other])]

/-- What ends an item passes the lookahead, unless the block ends there. -/
theorem endOfItem_passes (inner : parser.isAtEnd = false) (other : parser.ahead ≠ .closeBrace) :
    ∃ passed, Passes parser ((parser.ahead, parser.aheadSpan) :: passed) (endOfItem parser).2 := by
  have onward : ∀ before after : Parser, Leads (fun _ => True) before.consume after →
      ∃ passed, Passes before ((before.ahead, before.aheadSpan) :: passed) after := by
    intro before after leads
    obtain ⟨passed, passes⟩ := Passes.of_leads leads
    exact ⟨passed, (Passes.consume before).trans passes⟩
  have ended : parser.ahead ≠ .endOfInput := by simpa [Parser.isAtEnd] using inner
  rw [endOfItem_apply]
  by_cases separated : parser.ahead = .semicolon
  · rw [if_pos (by simp [endsItem, separated]), skipAll_of_eq (by decide) separated]
    exact onward parser _ (Leads.skipAll _ _)
  · have reported : parser.reportUnexpected.ahead ∉ [Token.semicolon, .closeBrace] := by
      rw [ahead_reportUnexpected]
      simp [separated, other]
    rw [if_neg (by simp [endsItem, separated, other, ended]),
      skipToAny_of_other ((isAtEnd_reportUnexpected parser).trans inner) reported]
    obtain ⟨passed, passes⟩ :=
      onward parser.reportUnexpected _ ((Leads.skipToAny _ _ _).trans (Leads.skipAll _ _))
    rw [ahead_reportUnexpected, aheadSpan_reportUnexpected] at passes
    exact ⟨passed, (Passes.report parser).trans passes⟩

/-- An item that follows passes its first token, if only with its separators. -/
theorem itemThenEnd_passes {item : Parse α} (inner : parser.isAtEnd = false)
    (other : parser.ahead ≠ .closeBrace) (leads : Leads (fun _ => True) parser (item parser).2) :
    ∃ later, Passes parser ((parser.ahead, parser.aheadSpan) :: later)
      (itemThenEnd item parser).2 := by
  obtain ⟨passed, passes⟩ := Passes.of_leads leads
  cases passed with
  | nil =>
    have same : ((item parser).2.ahead, (item parser).2.aheadSpan) =
        (parser.ahead, parser.aheadSpan) := (congrArg Stream'.head passes.upcoming).symm
    obtain ⟨token, span⟩ := Prod.mk.inj same
    obtain ⟨later, ending⟩ := @endOfItem_passes (item parser).2
      (by simpa [Parser.isAtEnd, token] using inner) (by rwa [token])
    rw [token, span] at ending
    exact ⟨later, passes.trans ending⟩
  | cons found passed =>
    obtain ⟨later, split⟩ := passes.head (List.cons_ne_nil found passed)
    obtain ⟨further, ending⟩ := Passes.of_leads (leads_endOfItem (item parser).2)
    rw [split] at passes
    exact ⟨later ++ further, passes.trans ending⟩

/-- A declaration that reaches from a token to where its production ended, in front of a place where
both lie behind. -/
theorem closed_row {item : Parse Decl} {after : Parser} (tidy : parser.Tidy file)
    (wide : parser.aheadSpan.isPoint = false) (closes : Closes parser.aheadSpan item parser)
    (passed : parser.aheadSpan.stop ≤ after.previous.stop)
    (ended : (item parser).2.previous.stop ≤ after.previous.stop) :
    Row file parser.aheadSpan.start [.decl (item parser).1] after.previous.stop := by
  have start : (item parser).1.span.start = parser.aheadSpan.start := by
    rw [closes, spanFrom_start]
  obtain ⟨further, stop⟩ := (item parser).2.spanFrom_stop parser.aheadSpan
  rw [← closes] at further stop
  apply Row.single
  · change (item parser).1.span.start < (item parser).1.span.stop
    rw [start]
    exact lt_of_lt_of_le (tidy.start_lt_stop wide) further
  · change (item parser).1.span.file = file
    rw [closes, spanFrom_file]
    exact tidy.file_ahead
  · exact le_of_eq start.symm
  · change (item parser).1.span.stop ≤ _
    rcases stop with token | consumed
    · rw [token]
      exact passed
    · rw [consumed]
      exact ended

theorem declared_row {item : Parse Decl} (tidy : parser.Tidy file)
    (wide : parser.aheadSpan.isPoint = false) (inner : parser.isAtEnd = false)
    (other : parser.ahead ≠ .closeBrace) (leads : Leads (fun _ => True) parser (item parser).2)
    (closes : Closes parser.aheadSpan item parser) :
    Row file parser.aheadSpan.start [.decl (itemThenEnd item parser).1]
      (itemThenEnd item parser).2.previous.stop := by
  obtain ⟨later, passes⟩ := itemThenEnd_passes inner other leads
  obtain ⟨tidyItem, -⟩ := leads.tidy tidy
  have ending := ((leads_endOfItem (item parser).2).tidy tidyItem).2.behind tidyItem
  have row : Row file parser.aheadSpan.start [.decl (item parser).1]
      (itemThenEnd item parser).2.previous.stop :=
    closed_row tidy wide closes (passes.covered tidy _ List.mem_cons_self wide).2 ending
  exact row

structure MakesRow (file : FileId) (before : Parser) (decls : List Decl) (after : Parser) : Prop where
  leads : Leads (fun _ => True) before after
  fresh : after.Fresh
  row : Row file before.aheadSpan.start (decls.map .decl) after.previous.stop

/-- By induction on what remains: each item starts fresh, so its first token is wide. -/
theorem items_row {more : Parse Bool} {goes : Token → Bool}
    (asks : ∀ parser, more parser = (goes parser.ahead, parser))
    (starts : ∀ token, goes token = true → token ≠ .closeBrace ∧ token ≠ .endOfInput)
    {item : Parse Decl}
    (ends : ∀ start, goes start.ahead = true →
      Ends (fun _ => True) nestingLimit item start fun _ _ => True)
    (closes : ∀ start : Parser, start.Tidy file → start.aheadSpan.isPoint = false →
      Closes start.aheadSpan item start)
    (ready : parser.Ready (fun _ => True) nestingLimit) (tidy : parser.Tidy file)
    (fresh : parser.Fresh) :
    MakesRow file parser (many more (itemThenEnd item) parser).1
      (many more (itemThenEnd item) parser).2 := by
  induction bound : parser.remaining using Nat.strong_induction_on generalizing parser with
  | _ bound induction =>
    rw [many_apply asks]
    split
    · rename_i going
      obtain ⟨brace, ended⟩ := starts _ going
      have inner : parser.isAtEnd = false := by simpa [Parser.isAtEnd] using ended
      have wide : parser.aheadSpan.isPoint = false := by
        rw [← Bool.not_eq_true]
        intro point
        rcases fresh point with closing | final
        · exact brace closing
        · exact ended final
      have leadsItem := (ends parser going ready).1
      obtain ⟨leads, -, progress⟩ :=
        itemThenEnd_ends (stable_accounts fun _ => [])
          ((ends parser going).mono fun _ _ _ _ => accounts_nil _) ready
      have row := declared_row tidy wide inner brace leadsItem (closes parser tidy wide)
      obtain ⟨tidyItem, advances⟩ := leads.tidy tidy
      have freshItem : (itemThenEnd item parser).2.Fresh :=
        fresh_endOfItem (leadsItem.tidy tidy).1
      rw [if_pos (progress inner brace)]
      have later := induction _ (bound ▸ progress inner brace) (leads.ready ready) tidyItem
        freshItem rfl
      have onward := (later.leads.tidy tidyItem).2.behind tidyItem
      exact ⟨leads.trans later.leads, later.fresh,
        row.append later.row tidyItem.behind advances.start onward⟩
    · exact ⟨Leads.refl parser, fresh, .nil⟩

end Items

section Programs

theorem moduleHeader_consumes (inner : parser.isAtEnd = false) :
    Ends (fun _ => True) nestingLimit moduleHeader parser fun _ after =>
      Leads (fun _ => True) parser.consume after := by
  unfold moduleHeader
  simp only [ends_aheadSpan]
  refine Ends.consume inner fun _ => ?_
  refine Ends.bind (moduleName_ends parser.consume) fun name afterName leadsName _ => ?_
  refine Ends.bind (selectionList?_ends true afterName) fun exports afterList leadsList _ => ?_
  refine Ends.expect (by decide) fun _ final leads => ?_
  exact Ends.pure ((leadsName.trans leadsList).trans leads)

theorem moduleHeader?_row (ready : parser.Ready (fun _ => True) nestingLimit)
    (tidy : parser.Tidy file) :
    Row file parser.aheadSpan.start ((moduleHeader? parser).1.map .decl)
      (moduleHeader? parser).2.previous.stop := by
  rw [moduleHeader?_apply]
  split
  · rename_i keyword
    have wide := tidy.wide (by rw [keyword]; rfl)
    have leads := (moduleHeader_consumes (isAtEnd_of_ahead (by decide) keyword) ready).2
    obtain ⟨later, passes⟩ := Passes.of_leads leads
    have passed := ((Passes.consume parser).trans passes).covered tidy _ List.mem_cons_self wide
    exact closed_row tidy wide (moduleHeader_closes parser) passed.2 (le_refl _)
  · exact .nil

theorem moduleBody?_row (ready : parser.Ready (fun _ => True) nestingLimit)
    (tidy : parser.Tidy file) :
    Leads (fun _ => True) parser (moduleBody? parser).2 ∧
      Row file parser.aheadSpan.start ((moduleBody? parser).1.map .decl)
        (moduleBody? parser).2.previous.stop := by
  rw [moduleBody?_apply]
  split
  · rename_i found
    rw [moduleBody_apply]
    have leadsBrace : Leads (fun _ => True) parser parser.consume :=
      Leads.consume (isAtEnd_of_ahead (by decide) found)
    obtain ⟨tidyBrace, brace⟩ := leadsBrace.tidy tidy
    have readyBrace := leadsBrace.ready ready
    have imports : MakesRow file parser.consume (leadingImports parser.consume).1
        (leadingImports parser.consume).2 := by
      refine items_row isAt_import_ahead ?_ ?_ (fun start _ _ => importDecl_closes start) readyBrace
        tidyBrace (tidy.fresh_consume found)
      · intro token isImport
        rw [of_decide_eq_true isImport]
        decide
      · intro start isImport
        exact (importDecl_ends (isAtEnd_of_ahead (by decide) (of_decide_eq_true isImport))).mono
          fun _ _ _ _ => trivial
    obtain ⟨tidyImports, advanced⟩ := imports.leads.tidy tidyBrace
    have further : MakesRow file (leadingImports parser.consume).2
        (furtherDecls (leadingImports parser.consume).2).1
        (furtherDecls (leadingImports parser.consume).2).2 := by
      refine items_row itemFollows_ahead ?_ ?_ (fun start => topDecl_closes)
        (imports.leads.ready readyBrace) tidyImports imports.fresh
      · intro token follows
        simpa [startsItem, and_comm] using follows
      · exact fun start _ => (topDecl_ends start).mono fun _ _ _ _ => trivial
    obtain ⟨tidyFurther, goesOn⟩ := further.leads.tidy tidyImports
    have closes : Leads (fun _ => True) (furtherDecls (leadingImports parser.consume).2).2 _ :=
      (expectOrSkipTo_ends closeBrace_inner _
        ((imports.leads.trans further.leads).ready readyBrace)).1
    have ending := (closes.tidy tidyFurther).2.behind tidyFurther
    have onward := goesOn.behind tidyImports
    refine ⟨leadsBrace.trans ((imports.leads.trans further.leads).trans closes), ?_⟩
    rw [declsOf, List.map_append]
    exact ((imports.row.append further.row tidyImports.behind advanced.start onward).mono brace.start
      ending)
  · exact ⟨Leads.refl parser, .nil⟩

theorem program_row (ready : parser.Ready (fun _ => True) nestingLimit)
    (tidy : parser.Tidy file) :
    Row file parser.aheadSpan.start ((program parser).1.decls.map .decl)
        (program parser).2.previous.stop ∧
      (program parser).1.span = (program parser).2.spanFrom parser.aheadSpan ∧
      (program parser).2.Since file parser.aheadSpan := by
  have header := moduleHeader?_row ready tidy
  have leadsHeader := (moduleHeader?_ends parser ready).1
  obtain ⟨tidyHeader, first⟩ := leadsHeader.tidy tidy
  obtain ⟨leadsBlock, block⟩ := moduleBody?_row (leadsHeader.ready ready) tidyHeader
  obtain ⟨tidyBlock, second⟩ := leadsBlock.tidy tidyHeader
  have leadsEnd : Leads (fun _ => True) (moduleBody? (moduleHeader? parser).2).2 _ := leads_settle _
  obtain ⟨-, last⟩ := leadsEnd.tidy tidyBlock
  have whole := header.append block tidyHeader.behind first.start (second.behind tidyHeader)
  rw [program_eq, List.map_append]
  exact ⟨whole.mono (le_refl _) (last.behind tidyBlock), rfl,
    ((first.trans second).trans last).since tidy.since⟩

end Programs

end Haskell.Grammar

theorem Parser.Since.contains {parser : Parser} {file : FileId} {origin span : Span}
    (since : parser.Since file origin) (own : span.file = file) (wide : span.start < span.stop)
    (above : origin.start ≤ span.start) (below : span.stop ≤ parser.previous.stop) :
    (parser.spanFrom origin).contains span = true := by
  rw [since.spanFrom (lt_of_le_of_lt above (lt_of_lt_of_le wide below)), Span.contains_iff]
  exact ⟨since.sameFile.trans own.symm, above, below⟩

namespace Haskell

open Offside.Parser

/-- Whatever a text is like, if it yields a program then every declaration of it has a width, belongs to
the file of the context and lies inside the program, and no declaration starts before those in front of
it have ended. -/
theorem declarations_stand_in_order {source : List Char} {context : Context} {program : Program}
    (parsed : (parseText source context).1 = some program) :
    (∀ decl ∈ program.decls, decl.span.start < decl.span.stop ∧ decl.span.file = context.file ∧
      program.span.contains decl.span = true) ∧
    program.decls.Pairwise fun earlier later => earlier.span.stop ≤ later.span.start := by
  obtain ⟨found, -⟩ := parseText_eq_some parsed
  have within : (reader.stream context.file source).Within fun _ => True :=
    ⟨fun _ _ => trivial, trivial⟩
  cases ended : (Parser.start (reader.stream context.file source) context).isAtEnd with
  | true =>
    rw [parseTokens_of_ended ended] at found
    cases found
  | false =>
    rw [parseTokens_program ended] at found
    cases found
    have tidy := @tidy_start context.file source context
    obtain ⟨row, span, since⟩ := Grammar.program_row (start_ready within context) tidy
    refine ⟨fun decl member => ?_, ?_⟩
    · have among := List.mem_map_of_mem (f := Node.decl) member
      have own : decl.span.file = context.file := row.sameFile _ among
      have wide : decl.span.start < decl.span.stop := row.wide _ among
      refine ⟨wide, own, ?_⟩
      rw [span]
      exact since.contains own wide (row.above _ among) (row.below _ among)
    · exact List.pairwise_map.1 row.ordered

/-- A text of another file than the first, with a stray bracket, a separator too many and a declaration
that was not read. -/
theorem declarations_stand_in_order_stray_bracket :
    let context : Context := { file := ⟨7⟩ }
    let source := "f = ) (\n;; class\n+\ng x = x".toList
    ∃ program, (parseText source context).1 = some program ∧
      (parseText source context).2.diagnostics ≠ #[] ∧
      program.decls.map (fun decl => decl.span.fields) =
        [[7, 0, 0, 0, 3], [7, 1, 3, 1, 8], [7, 2, 0, 2, 1], [7, 3, 0, 3, 7]] ∧
      (∀ decl ∈ program.decls, decl.span.start < decl.span.stop ∧ decl.span.file = context.file ∧
        program.span.contains decl.span = true) ∧
      program.decls.Pairwise fun earlier later => earlier.span.stop ≤ later.span.start := by
  intro context source
  have places : (parseText source context).1.map
      (fun program => program.decls.map fun decl => decl.span.fields) =
      some [[7, 0, 0, 0, 3], [7, 1, 3, 1, 8], [7, 2, 0, 2, 1], [7, 3, 0, 3, 7]] := by decide +kernel
  have reported : (parseText source context).2.diagnostics.size ≠ 0 := by decide +kernel
  obtain ⟨program, parsed, known⟩ := Option.map_eq_some_iff.1 places
  obtain ⟨each, ordered⟩ := declarations_stand_in_order parsed
  exact ⟨program, parsed, fun none => reported (congrArg Array.size none), known, each, ordered⟩

end Haskell

end Offside
