import Offside.Proofs.Lockstep.Seams
import Offside.Proofs.Parser.Intake

/-!
Clean texts compose. Two texts that start at the margin and are parsed without a report are parsed
without one when the second stands on the lines behind the first, to the declarations of the first and
then those of the second. The first must have been read to the end of each declaration, since only then
is every block but the outermost known to be closed, and the second must neither go on with a separator
nor import anything.
-/

namespace Offside.Haskell

set_option autoImplicit false

open Offside.Lexical Offside.Parser Grammar

variable {source first second : List Char} {context : Context}

/-- A parse that leaves no reports has found none and added none. -/
theorem silent_of_parse (silent : (parseText source context).2.diagnostics = #[]) :
    context.diagnostics = #[] ∧ reportsOf (reader.stream context.file source).items = [] := by
  rw [(parseText_eq source context).2] at silent
  have leads := (parseTokens_ends (stream_within context.file source) context).1
  have clean := parseTokens_clean (stream_within context.file source) silent
  have unreported : context.diagnostics = #[] :=
    (context_start _ context).diagnostics_eq_empty (leads.clean clean).diagnostics
  have takes := (parseTokens_takesIn context.file source context).reports
  have all := stream_reports_lexical context.file source
  rw [Context.lexicalReports, silent, Context.lexicalReports, Context.diagnostics_absorbAll,
    unreported, Array.toList_appendList, List.nil_append, List.filter_eq_self.2 all] at takes
  exact ⟨unreported, takes.symm⟩

/-- What is in sight of a text whose first token stands behind a brace. -/
theorem sight_opened {stream : TokenStream} {comments later : List (Token × Span)} {place : Span}
    {token : Token × Span}
    (handed : stream.items.map Lexed.located = comments ++ (.openBrace, place) :: token :: later)
    (skipped : ∀ comment ∈ comments, comment.1 = .comment) (shown : token.1 ≠ .comment)
    (context : Context) :
    let parser := Parser.start stream context
    parser.ahead = .openBrace ∧ parser.aheadSpan = place ∧
      parser.consume.sight = seenOf 0 (token :: later) ∧ parser.consume.ahead = token.1 := by
  have inStream : seenIn stream =
      ⟨comments.length, .openBrace, place⟩ :: ⟨0, token.1, token.2⟩ :: seenOf 0 later := by
    rw [seenIn, handed, seenOf_append skipped, seenOf_cons (by simp), seenOf_cons shown,
      Nat.zero_add]
  have sight := sight_start inStream context
  obtain ⟨others, own⟩ := exists_sight (Parser.start stream context)
  rw [own, List.cons.injEq] at sight
  obtain ⟨near, rfl⟩ := sight
  obtain ⟨next, seen⟩ := ahead_consume (congrArg List.tail own)
  refine ⟨congrArg Seen.token near, congrArg Seen.span near, ?_, next⟩
  rw [seen, seenOf_cons shown]
  rfl

def parserOf (source : List Char) (context : Context) : Parser :=
  Parser.start (reader.stream context.file source) context

/-- A text that is one block, closed at its end. -/
structure IsBlock (source : List Char) (context : Context) : Prop where
  opens : (parserOf source context).ahead = .openBrace
  closes : (pastDecls (parserOf source context).consume).ahead = .closeBrace
  ended : (pastDecls (parserOf source context).consume).consume.isAtEnd = true

namespace IsBlock

theorem inside (block : IsBlock source context) : (parserOf source context).isAtEnd = false :=
  Parse.isAtEnd_of_ahead (by decide) block.opens

theorem parseTokens_eq (block : IsBlock source context) :
    let parsed := parseTokens (reader.stream context.file source) context
    ∃ span, parsed.1 = some ⟨declsOf (parserOf source context).consume, span⟩ ∧
      parsed.2 = (pastDecls (parserOf source context).consume).consume := by
  obtain ⟨span, known⟩ := program_of_closed block.opens block.closes block.ended
  refine ⟨span, (parseTokens_program block.inside).trans ?_, (parseTokens_final block.inside).trans ?_⟩
  · exact congrArg (fun parsed => some parsed.1) known
  · exact congrArg Prod.snd known

theorem parsed (block : IsBlock source context) :
    ∃ span, (parseText source context).1 =
        some ⟨declsOf (parserOf source context).consume, span⟩ ∧
      (parseText source context).2.diagnostics =
        (pastDecls (parserOf source context).consume).consume.context.diagnostics := by
  obtain ⟨found, diagnostics⟩ := parseText_eq source context
  obtain ⟨span, program, final⟩ := block.parseTokens_eq
  rw [program] at found
  rw [final] at diagnostics
  exact ⟨span, found, diagnostics⟩

/-- Where nothing is reported nothing goes wrong to the end of the block. -/
theorem clean (block : IsBlock source context)
    (silent : (parseText source context).2.diagnostics = #[]) :
    (pastDecls (parserOf source context).consume).consume.Clean := by
  rw [(parseText_eq source context).2] at silent
  have clean := parseTokens_clean (stream_within context.file source) silent
  obtain ⟨-, -, final⟩ := block.parseTokens_eq
  rwa [final] at clean

/-- The brace that closes the block is the last token to be passed. -/
theorem effect (block : IsBlock source context) :
    (pastDecls (parserOf source context).consume).consumed + 1 =
        (reader.stream context.file source).inner.length ∧
      (pastDecls (parserOf source context).consume).depth = 0 := by
  obtain ⟨-, -, final⟩ := block.parseTokens_eq
  have effect := (parseTokens_run (stream_within context.file source) context).effect
  have counted := effect.consumed
  have depth := effect.depth
  have kept := consume_keeps (pastDecls (parserOf source context).consume)
  rw [final, kept.1] at counted
  rw [final, kept.2.1] at depth
  exact ⟨counted.trans (Nat.zero_add _), depth⟩

end IsBlock

/-- A text that starts at the margin is one block if nothing is reported. -/
theorem StartsAtMargin.isBlock (starts : StartsAtMargin context.file source)
    (silent : (parseText source context).2.diagnostics = #[]) : IsBlock source context := by
  obtain ⟨comments, written, later, split, skipped, shown, -, margin, notModule⟩ := starts.split
  have handed : (reader.stream context.file source).items.map Lexed.located =
      comments.map Written.located ++ (.openBrace, written.span.atStart) :: written.located ::
        (Layout.onGround.openFor written.token).spread later := by
    rw [stream_located, split, Layout.spread_comments skipped, Layout.spread_of_written shown,
      Layout.step_first margin notModule]
    rfl
  have opens : (parserOf source context).ahead = .openBrace := (sight_opened handed (by
    intro comment member
    obtain ⟨own, among, rfl⟩ := List.mem_map.1 member
    exact skipped own among) shown context).1
  rw [(parseText_eq source context).2] at silent
  have clean := parseTokens_clean (stream_within context.file source) silent
  rw [parseTokens_final (Parse.isAtEnd_of_ahead (by decide) opens)] at clean
  obtain ⟨closes, ended⟩ := closed_of_clean opens clean
  exact ⟨opens, closes, ended⟩

namespace Seam

variable (seam : Seam context.file first second)

theorem first_pairs (firstSilent : reportsOf (sourceReadings context.file first) = [])
    (secondSilent : reportsOf (sourceReadings context.file second) = [])
    (unreported : context.diagnostics = #[]) :
    (seam.firstCourse context).Pairs (parserOf first context)
      (parserOf (first ++ '\n' :: second) context) := by
  obtain ⟨-, inner, final, split, -, joined⟩ := read_joined firstSilent second
  have silent : ∀ item ∈ (reader.stream context.file (first ++ '\n' :: second)).items,
      item.reports = [] := by
    rw [← List.flatMap_eq_nil_iff]
    change reportsOf _ = []
    rw [split] at firstSilent
    rw [stream_reports, joined]
    simp only [reportsOf, List.flatMap_append, List.append_eq_nil_iff, List.flatMap_eq_nil_iff,
      List.forall_mem_map] at firstSilent secondSilent ⊢
    exact ⟨firstSilent.1, fun item member => by rw [Lexed.down, secondSilent item member]; rfl⟩
  have suffix := (pullFrom_pulled
    (reader.stream context.file (first ++ '\n' :: second)) context).suffix
  have goes := seam.first_goes context firstSilent
  exact
    { stretch := by
        obtain ⟨front, one, before, front', other, after, split, split', length, length', alike,
          goesOn⟩ := goes.split (Nat.zero_le _)
        rw [List.eq_nil_of_length_eq_zero length, List.nil_append] at split goesOn
        rw [List.eq_nil_of_length_eq_zero length', List.nil_append] at split' goesOn
        rw [← sight_start split context, ← sight_start split' context] at goesOn
        refine ⟨_, goesOn, Nat.zero_le _, ?_⟩
        rintro _ ⟨⟩
        exact Nat.zero_add _
      buffered := rfl
      previous := Or.inl rfl
      admitted := Nat.succ_pos _
      depth := rfl
      clean := ⟨(diagnostics_pullFrom_silent silent context).trans unreported, rfl, rfl⟩
      silent := fun item member => silent item (suffix.subset member)
      steady := start_steady (stream_settled _ _) context
      other := start_steady (stream_settled _ _) context }

/-- Behind the seam the parser of both texts stands to that of the second as if it had begun there. -/
theorem second_pairs (firstSilent : reportsOf (sourceReadings context.file first) = [])
    {before opposite : Parser} (pairs : (seam.firstCourse context).Pairs before opposite)
    (reached : before.consumed = shownCount seam.front + seam.closing.length)
    (outermost : before.depth = 0) :
    (seam.secondCourse context).Pairs (parserOf second context).consume opposite.consume := by
  obtain ⟨-, -, point, unbuffered, behind⟩ := pairs.atSeam rfl reached
  obtain ⟨-, place, sight, -⟩ := sight_opened seam.second_eq seam.skipped seam.shown context
  have shown : ((Prod.map id (Span.down (first.count '\n' + 1))) seam.token).1 ≠ .comment :=
    seam.shown
  rw [List.map_cons, seenOf_cons shown] at behind
  have sight' := (ahead_consume behind).2
  obtain ⟨count, goes⟩ := seam.second_goes context firstSilent
  rw [List.map_cons, seenOf_cons shown] at goes
  have kept := consume_keeps opposite
  have clean := Course.Pairs.clean_consume pairs.clean pairs.silent
  exact
    { stretch := by
        refine ⟨count, ?_, ?_, fun seam member => by cases member⟩
        · rw [sight']
          change Course.Goes _ _ (Parser.start _ _).consume.sight _
          rw [sight]
          exact goes
        · rw [Course.Pairs.length_buffered_consume]
          exact Nat.zero_le count
      buffered := by
        rw [Course.Pairs.length_buffered_consume, Course.Pairs.length_buffered_consume,
          pairs.buffered, unbuffered]
        rfl
      previous := Or.inr (by
        rw [Course.Pairs.previous_consume, Course.Pairs.previous_consume, if_pos point,
          if_pos (show (parserOf second context).aheadSpan.isPoint = true by
            rw [parserOf, place, seam.startPoint])]
        exact ⟨rfl, pairs.admitted⟩)
      admitted := trivial
      depth := by
        rw [kept.2.1, pairs.depth, outermost, (consume_keeps _).2.1]
        rfl
      clean := clean.1
      silent := clean.2
      steady := (start_steady (stream_settled _ _) context).consume
      other := pairs.other.consume }

end Seam

/-- The parse of both texts, where the first ends at the seam and the second goes on from there. -/
theorem joined_block (firstBlock : IsBlock first context) (secondBlock : IsBlock second context)
    (firstSilent : (parseText first context).2.diagnostics = #[])
    (secondSilent : (parseText second context).2.diagnostics = #[])
    (seam : Seam context.file first second) (apart : seam.token.1 ≠ .semicolon)
    (supported : ∀ decl ∈ declsOf (parserOf first context).consume, IsSupported decl)
    (importless : ∀ decl ∈ declsOf (parserOf second context).consume, ¬IsImport decl) :
    let joined := parserOf (first ++ '\n' :: second) context
    IsBlock (first ++ '\n' :: second) context ∧
      declsOf joined.consume = declsOf (parserOf first context).consume ++
        (declsOf (parserOf second context).consume).map
          (Decl.moved (Span.down (first.count '\n' + 1))) ∧
      (pastDecls joined.consume).consume.Clean := by
  intro joined
  obtain ⟨unreported, firstReports⟩ := silent_of_parse firstSilent
  obtain ⟨-, secondReports⟩ := silent_of_parse secondSilent
  rw [stream_reports] at firstReports secondReports
  obtain ⟨counted, outermost⟩ := firstBlock.effect
  have reached : (pastDecls (parserOf first context).consume).consumed =
      shownCount seam.front + seam.closing.length := by
    have whole := seam.counted
    omega
  have opened := seam.opened
  -- Both runs open the block.
  have starts := seam.first_pairs firstReports secondReports unreported
  have early : (seam.firstCourse context).Before (parserOf first context) := by
    rintro _ ⟨⟩
    change 0 < _
    omega
  have pairs := (starts.consume (by simpa [isAtEnd] using firstBlock.inside) early).1
  have before : (seam.firstCourse context).Before (parserOf first context).consume := by
    rintro _ ⟨⟩
    rw [(consume_keeps _).1]
    change 0 + 1 < _
    omega
  have good : (seam.firstCourse context).pairing.good
      (pastDecls (parserOf first context).consume) :=
    ⟨clean_of_consume (firstBlock.clean firstSilent), by
      rintro _ ⟨⟩
      exact Nat.le_of_eq reached⟩
  have next := (sight_opened seam.second_eq seam.skipped seam.shown context).2.2.2
  have fresh : ∀ found ∈ (seam.firstCourse context).seam, ∃ seen later,
      found.2 = seen :: later ∧ seen.token ≠ .semicolon ∧ seen.token ≠ .kwImport := by
    rintro _ ⟨⟩
    refine ⟨_, _, @seenOf_cons (Prod.map id (Span.down (first.count '\n' + 1)) seam.token) seam.shown
      0 _, apart, ?_⟩
    intro found
    obtain ⟨decl, member, isImport⟩ := Course.exists_import (next.trans found)
    exact importless decl member isImport
  -- The first text ends at the seam, and the second goes on behind it.
  obtain ⟨opposite, goesOn, decls, past⟩ :=
    Course.body_crosses fresh pairs before supported good ⟨_, rfl, reached⟩
  have behind := seam.second_pairs firstReports goesOn reached outermost
  have secondClean := clean_of_consume (secondBlock.clean secondSilent)
  obtain ⟨others, final⟩ := Course.body_to_end rfl behind secondClean
  have seamless : ∀ parser, (seam.secondCourse context).Before parser := by
    rintro parser _ ⟨⟩
  have closes : (pastDecls opposite.consume).ahead = .closeBrace :=
    (final.matched (seamless _)).token.trans secondBlock.closes
  have last := (final.consume (by rw [secondBlock.closes]; decide) (seamless _)).1
  have ended : (pastDecls opposite.consume).consume.ahead = .endOfInput :=
    (last.matched (seamless _)).token.trans (of_decide_eq_true secondBlock.ended)
  have unmoved : ∀ decls : List Decl,
      decls.map (Decl.moved (seam.firstCourse context).pairing.move) = decls := by
    intro decls
    have still : (seam.firstCourse context).pairing.move = id := rfl
    rw [still]
    exact List.map_id'' Decl.moved_id decls
  rw [unmoved, others] at decls
  refine ⟨⟨(starts.matched early).token.trans firstBlock.opens, ?_, ?_⟩, decls, ?_⟩
  · rw [past]
    exact closes
  · rw [past]
    exact decide_eq_true ended
  · rw [past]
    exact last.clean

/-- Clean texts compose: if two texts start at the margin and nothing is reported of either, nothing is
reported of the second behind the first, and the declarations are those of the first and then those of
the second, further down by the lines of the first. Each declaration of the first has to be one that the
grammar reads to its end; the second has no imports, and does not start with a separator. -/
theorem clean_texts_compose (first second : List Char) (context : Context)
    (firstStarts : StartsAtMargin context.file first)
    (secondStarts : StartsAtMargin context.file second)
    (apart : ∀ written ∈ (writtenTokens context.file second).head?, written.token ≠ .semicolon)
    (firstSilent : (parseText first context).2.diagnostics = #[])
    (secondSilent : (parseText second context).2.diagnostics = #[])
    (supported : ∀ program ∈ (parseText first context).1, ∀ decl ∈ program.decls,
      IsSupported decl)
    (importless : ∀ program ∈ (parseText second context).1, ∀ decl ∈ program.decls,
      ¬IsImport decl) :
    let joined := parseText (first ++ '\n' :: second) context
    joined.2.diagnostics = #[] ∧
      ∃ program further whole, (parseText first context).1 = some program ∧
        (parseText second context).1 = some further ∧ joined.1 = some whole ∧
          whole.decls = program.decls ++
            further.decls.map (Decl.moved (Span.down (first.count '\n' + 1))) := by
  intro joined
  have firstBlock := firstStarts.isBlock firstSilent
  have secondBlock := secondStarts.isBlock secondSilent
  obtain ⟨span, program, -⟩ := firstBlock.parsed
  obtain ⟨otherSpan, further, -⟩ := secondBlock.parsed
  have supported := supported _ program
  have importless := importless _ further
  obtain ⟨-, reports⟩ := silent_of_parse firstSilent
  rw [stream_reports] at reports
  have nested : nestAll [] ((reader.stream context.file first).inner.map Prod.fst) = some [] := by
    rw [(parseText_eq first context).2] at firstSilent
    have clean := parseTokens_clean (stream_within context.file first) firstSilent
    rw [parseTokens_final firstBlock.inside] at clean
    rw [← rest_start _ context]
    exact nested_of_clean firstBlock.opens clean supported
  obtain ⟨seam⟩ := exists_seam firstStarts secondStarts reports nested
  have separate : seam.token.1 ≠ .semicolon := by
    obtain ⟨written, head, located⟩ := Option.map_eq_some_iff.1 seam.head
    rw [← located]
    exact apart written head
  obtain ⟨block, decls, clean⟩ := joined_block firstBlock secondBlock firstSilent secondSilent seam
    separate supported importless
  obtain ⟨_, whole, diagnostics⟩ := block.parsed
  exact ⟨diagnostics.trans clean.diagnostics, _, _, _, program, further, whole, decls⟩

def openText : List Char := "import A\nf x = case x of\n  y -> z where\n    z = (do\n      y)".toList

def furtherText : List Char := "-- g\ng = do\n\th 1\n\ti\n".toList

theorem clean_open_texts_compose :
    StartsAtMargin .single openText ∧ StartsAtMargin .single furtherText ∧
      (∀ written ∈ (writtenTokens .single furtherText).head?, written.token ≠ .semicolon) ∧
      (parseText openText {}).2.diagnostics = #[] ∧
      (parseText furtherText {}).2.diagnostics = #[] ∧
      (∀ program ∈ (parseText openText {}).1, ∀ decl ∈ program.decls, IsSupported decl) ∧
      (∀ program ∈ (parseText furtherText {}).1, ∀ decl ∈ program.decls, ¬IsImport decl) ∧
      let joined := parseText (openText ++ '\n' :: furtherText) {}
      joined.2.diagnostics = #[] ∧
        ∃ program further whole, (parseText openText {}).1 = some program ∧
          (parseText furtherText {}).1 = some further ∧ joined.1 = some whole ∧
            whole.decls = program.decls ++
              further.decls.map (Decl.moved (Span.down (openText.count '\n' + 1))) := by
  have openStarts : StartsAtMargin .single openText := by
    unfold StartsAtMargin
    decide +kernel
  have furtherStarts : StartsAtMargin .single furtherText := by
    unfold StartsAtMargin
    decide +kernel
  have apart : ∀ written ∈ (writtenTokens .single furtherText).head?,
      written.token ≠ .semicolon := by decide +kernel
  have openSilent : (parseText openText {}).2.diagnostics = #[] := by decide +kernel
  have furtherSilent : (parseText furtherText {}).2.diagnostics = #[] := by decide +kernel
  -- An import and a function, and a function.
  have openKinds : (parseText openText {}).1.map (fun program => program.decls.map Decl.ctorIdx) =
      some [1, 4] := by decide +kernel
  have furtherKinds : (parseText furtherText {}).1.map
      (fun program => program.decls.map Decl.ctorIdx) = some [4] := by decide +kernel
  have supported : ∀ program ∈ (parseText openText {}).1, ∀ decl ∈ program.decls,
      IsSupported decl := by
    intro program parsed decl member keyword span unsupported
    rw [Option.mem_def.1 parsed, Option.map_some, Option.some_inj] at openKinds
    have kind : decl.ctorIdx ∈ _ := List.mem_map_of_mem member
    rw [openKinds, unsupported] at kind
    exact absurd (show 6 ∈ [1, 4] from kind) (by decide)
  have importless : ∀ program ∈ (parseText furtherText {}).1, ∀ decl ∈ program.decls,
      ¬IsImport decl := by
    rintro program parsed decl member ⟨imported, isImport⟩
    rw [Option.mem_def.1 parsed, Option.map_some, Option.some_inj] at furtherKinds
    have kind : decl.ctorIdx ∈ _ := List.mem_map_of_mem member
    rw [furtherKinds, isImport] at kind
    exact absurd (show 1 ∈ [4] from kind) (by decide)
  exact ⟨openStarts, furtherStarts, apart, openSilent, furtherSilent, supported, importless,
    clean_texts_compose openText furtherText {} openStarts furtherStarts apart openSilent
      furtherSilent supported importless⟩

end Offside.Haskell
