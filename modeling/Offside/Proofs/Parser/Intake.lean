import Offside.Proofs.Grammar.Programs
import Offside.Proofs.Layout.Joined
import Offside.Proofs.Lexical.Finish

/-!
What a parser takes in from its text. A token brings its reports and lexemes when it is pulled, which
may be early or late and between reports of the grammar. As long as the rest of the stream would add
what is missing, the order of both is that of the text, and a parse ends with nothing left to pull.
-/

namespace Offside

set_option autoImplicit false

open Offside.Lexical

namespace Context

def lexicalReports (context : Context) : List Diagnostic :=
  context.diagnostics.toList.filter fun report => report.problem.isLexical

structure ReadsAlike (left right : Context) : Prop where
  lexemes : left.lexemes = right.lexemes
  reports : left.lexicalReports = right.lexicalReports
  keepComments : left.keepComments = right.keepComments

namespace ReadsAlike

variable {left middle right : Context}

theorem refl (context : Context) : context.ReadsAlike context := ⟨rfl, rfl, rfl⟩

theorem trans (first : left.ReadsAlike middle) (second : middle.ReadsAlike right) :
    left.ReadsAlike right where
  lexemes := first.lexemes.trans second.lexemes
  reports := first.reports.trans second.reports
  keepComments := first.keepComments.trans second.keepComments

theorem absorbAll (alike : left.ReadsAlike right) (items : List Lexed) :
    (left.absorbAll items).ReadsAlike (right.absorbAll items) := by
  have texts : left.Agrees right := ⟨alike.lexemes, alike.keepComments⟩
  refine ⟨(texts.absorbAll items).lexemes, ?_, (texts.absorbAll items).keepComments⟩
  have reports := alike.reports
  unfold lexicalReports at reports ⊢
  rw [Context.absorbAll_eq, Context.absorbAll_eq]
  simp only [Array.toList_appendList, List.filter_append, reports]

theorem report {problem : Problem} (grammatical : problem.isLexical = false) (context : Context)
    (span : Span) : (context.report problem span).ReadsAlike context where
  lexemes := rfl
  reports := by
    simp [lexicalReports, Context.report, List.filter_append, grammatical]
  keepComments := rfl

end ReadsAlike

end Context

namespace Parser

variable {files : FileId → Prop} {total : Context} {parser : Parser}

/-- Pulling takes in what it takes off the stream, and at the end of the stream nothing. -/
theorem absorbAll_pullFrom (stream : TokenStream) (context : Context) :
    (pullFrom stream context).2.2.absorbAll (pullFrom stream context).2.1.items =
      context.absorbAll stream.items := by
  have split : stream.items = stream.comments ++ stream.afterComments.items := by
    rw [stream.items_afterComments]
    exact List.takeWhile_append_dropWhile.symm
  unfold pullFrom
  simp only [TokenStream.next]
  cases found : stream.afterComments.items with
  | nil =>
    have mute : (Lexed.silent .endOfInput stream.afterComments.finish).IsMute :=
      ⟨rfl, fun _ member => absurd member List.not_mem_nil⟩
    rw [Context.absorb_mute mute]
    simp only [found, Context.absorbAll, split, List.append_nil, List.foldl_nil]
  | cons item later =>
    simp only [TokenStream.drop, found, Context.absorbAll, split, List.foldl_append,
      List.foldl_cons, List.drop_succ_cons, List.drop_zero]

def EndsOnce (items : List Lexed) : Prop :=
  items.Pairwise fun earlier _ => earlier.token ≠ .endOfInput

theorem pullFrom_ended {stream : TokenStream} (once : EndsOnce stream.items) (context : Context) :
    EndsOnce (pullFrom stream context).2.1.items ∧
      ((pullFrom stream context).1.1 = .endOfInput →
        (pullFrom stream context).2.1.items = []) := by
  rcases pullFrom_items stream context with ⟨comments, item, split, token, -⟩ | ⟨-, none, -⟩
  · rw [split] at once
    have behind := List.pairwise_cons.1 (List.pairwise_append.1 once).2.1
    refine ⟨behind.2, ?_⟩
    rw [token]
    intro final
    apply List.eq_nil_iff_forall_not_mem.2
    exact fun later member => behind.1 later member final
  · exact ⟨by rw [none]; exact List.Pairwise.nil, fun _ => none⟩

/-- With what the stream still holds the context comes to a total; a parser that sees the end of input
has pulled all there is. -/
structure TakesIn (total : Context) (parser : Parser) : Prop where
  alike : (parser.context.absorbAll parser.input.items).ReadsAlike total
  ahead : parser.ahead = .endOfInput → parser.input.items = []
  buffered : ∀ found ∈ parser.buffered, found.1 = .endOfInput → parser.input.items = []
  once : EndsOnce parser.input.items

/-- A stream that is used up stays so. -/
theorem items_pullFrom {stream : TokenStream} (used : stream.items = []) (context : Context) :
    (pullFrom stream context).2.1.items = [] := by
  rcases pullFrom_items stream context with ⟨comments, item, split, -⟩ | ⟨-, none, -⟩
  · rw [used] at split
    simp at split
  · exact none

namespace TakesIn

theorem consume (takes : parser.TakesIn total) : parser.consume.TakesIn total := by
  have members := takes.buffered
  unfold Parser.consume
  cases found : parser.buffered with
  | nil =>
    have pulled := pullFrom_ended takes.once parser.context
    have alike := takes.alike
    rw [← absorbAll_pullFrom] at alike
    exact
      { alike
        ahead := pulled.2
        buffered := by simp [pull]
        once := pulled.1 }
  | cons next later =>
    rw [found, List.forall_mem_cons] at members
    exact
      { alike := takes.alike
        ahead := members.1
        buffered := members.2
        once := takes.once }

theorem fill (takes : parser.TakesIn total) : (parser.fill 1).TakesIn total := by
  have pulled := pullFrom_ended takes.once parser.context
  have alike := takes.alike
  rw [← absorbAll_pullFrom] at alike
  refine
    { alike
      ahead := fun final => items_pullFrom (takes.ahead final) parser.context
      buffered := ?_
      once := pulled.1 }
  intro found member final
  rcases List.mem_append.1 member with buffered | new
  · exact items_pullFrom (takes.buffered found buffered final) parser.context
  · rw [List.mem_singleton.1 new] at final
    exact pulled.2 final

theorem report {problem : Problem} (grammatical : problem.isLexical = false)
    (takes : parser.TakesIn total) (span : Span) :
    ({ parser with context := parser.context.report problem span } : Parser).TakesIn total :=
  { takes with
    alike := ((Context.ReadsAlike.report grammatical _ span).absorbAll _).trans takes.alike }

theorem reportUnexpected (takes : parser.TakesIn total) :
    parser.reportUnexpected.TakesIn total := by
  rcases reportUnexpected_cases parser with same | reported
  · rw [same]
    exact takes
  · rw [reported]
    exact { takes.report rfl parser.aheadSpan with }

theorem leaveNesting (takes : parser.TakesIn total) : parser.leaveNesting.TakesIn total := by
  unfold Parser.leaveNesting
  split
  · exact { takes with }
  · exact { takes with }

end TakesIn

theorem Run.takesIn {before after : Parser} {passed : List (Token × Span)}
    (run : Run files before passed after) (takes : before.TakesIn total) :
    after.TakesIn total := by
  induction run with
  | refl parser => exact takes
  | trans _ _ first second => exact second (first takes)
  | consume _ => exact takes.consume
  | fill _ => exact takes.fill
  | report parser => exact takes.reportUnexpected
  | consumeReporting _ => exact takes.consume.report rfl _
  | refuse _ => exact takes.report rfl _
  | nested _ _ inside => exact (inside { takes with }).leaveNesting
  | raise _ _ _ => exact { takes with }

theorem start_takesIn {stream : TokenStream} (once : EndsOnce stream.items) (context : Context) :
    (start stream context).TakesIn (context.absorbAll stream.items) := by
  have pulled := pullFrom_ended once context
  have alike := Context.ReadsAlike.refl (context.absorbAll stream.items)
  nth_rewrite 1 [← absorbAll_pullFrom] at alike
  exact
    { alike
      ahead := pulled.2
      buffered := by simp [start]
      once := pulled.1 }

theorem TakesIn.ended (takes : parser.TakesIn total) (ended : parser.isAtEnd = true) :
    parser.context.ReadsAlike total := by
  have alike := takes.alike
  rw [takes.ahead (by simpa [isAtEnd] using ended)] at alike
  exact alike

end Parser

open Offside.Parser

namespace Haskell

theorem stream_endsOnce (file : FileId) (source : List Char) :
    EndsOnce (reader.stream file source).items := by
  obtain ⟨inner, final, split, -, others⟩ :=
    @Reader.items_split _ reader file (reader.start source)
  have items : (reader.stream file source).items = inner ++ [final] := split
  rw [items, EndsOnce, List.pairwise_append]
  have inside : ∀ item ∈ inner, item.token ≠ .endOfInput := by
    intro item member
    simpa [Lexed.isFinal] using others item member
  refine ⟨?_, List.pairwise_singleton _ _, fun item member _ _ => inside item member⟩
  exact List.pairwise_iff_getElem.2 fun first second bound _ _ =>
    inside _ (List.getElem_mem bound)

/-- Scanning finds no problem but those of tokens. -/
theorem scan_lexical (afterProper : Bool) (text : List Char) :
    ∀ defect ∈ (scan afterProper text).defect, defect.problem.isLexical = true := by
  have cutOff : ∀ (closed : Prop) [Decidable closed] (width : Nat),
      ∀ defect ∈ (if closed then none else some (⟨.unterminatedLiteral, width⟩ : Defect)),
        defect.problem.isLexical = true := by
    intro closed _ width defect member
    split at member
    · cases member
    · cases member
      rfl
  have nothing : ∀ defect ∈ (none : Option Defect), defect.problem.isLexical = true :=
    fun _ member => by cases member
  have scanned := scan_scanned afterProper text
  generalize scan afterProper text = found at scanned ⊢
  cases scanned with
  | blockComment | string | character => exact cutOff _ _
  | number =>
    unfold scanNumber
    split
    · intro defect member
      simp only [scanRadix] at member
      split at member
      · cases member
        rfl
      · cases member
    · exact nothing
  | unknown =>
    intro defect member
    cases member
    rfl
  | ended | lineComment | delimiter | word | properWord | qualifyingDot | operator => exact nothing

theorem stream_reports_lexical (file : FileId) (source : List Char) :
    ∀ report ∈ reportsOf (reader.stream file source).items, report.problem.isLexical = true := by
  intro report member
  rw [stream_reports, sourceReadings, Lexer.readings_eq_visits] at member
  obtain ⟨reading, read, member⟩ := List.mem_flatMap.1 member
  obtain ⟨lexer, -, rfl⟩ := List.mem_map.1 read
  simp only [Lexer.nextItem, Scan.lexed, List.mem_map, Option.mem_toList] at member
  obtain ⟨defect, found, rfl⟩ := member
  exact scan_lexical _ _ defect found

theorem parseTokens_takesIn (file : FileId) (source : List Char) (context : Context) :
    (parseTokens (reader.stream file source) context).2.context.ReadsAlike
      (context.absorbAll (reader.stream file source).items) := by
  have within := stream_within file source
  have run := parseTokens_run within context
  have takes := run.takesIn (start_takesIn (stream_endsOnce file source) context)
  exact takes.ended (parseTokens_ends within context).2.1

theorem parseText_takesIn (source : List Char) (context : Context) :
    (parseText source context).2.ReadsAlike (context.lex .haskell source).2 := by
  have takes := parseTokens_takesIn context.file source context
  have reads : ∀ program, ({ (parseTokens (reader.stream context.file source) context).2.context
      with program } : Context).ReadsAlike (context.lex .haskell source).2 :=
    fun _ => ⟨takes.lexemes, takes.reports, takes.keepComments⟩
  unfold parseText
  simp only
  split
  · exact takes
  · exact reads none

/-- Parsing sees the whole text: whatever the grammar made of it and wherever it gave up, a parse in a
fresh context leaves the reports of reading tokens in the order of the text, and the lexemes, that
reading the tokens alone leaves. -/
theorem parsing_takes_in_all (source : List Char) (context : Context) :
    let fresh : Context := { context with diagnostics := #[], lexemes := .empty, program := none }
    let parsed := (parseText source fresh).2
    let lexed := (fresh.lex .haskell source).2
    parsed.diagnostics.toList.filter (fun report => report.problem.isLexical) =
        lexed.diagnostics.toList ∧
      parsed.lexemes = lexed.lexemes := by
  intro fresh parsed lexed
  have takes : parsed.ReadsAlike lexed := parseText_takesIn source fresh
  have own : lexed.diagnostics.toList = reportsOf (reader.stream context.file source).items := by
    have absorbed : lexed.diagnostics = fresh.diagnostics ++
        reportsOf (reader.stream context.file source).items := by
      change (fresh.absorbAll (reader.stream context.file source).items).diagnostics = _
      rw [Context.absorbAll_eq]
    rw [absorbed]
    simp [fresh]
  have lexical : lexed.lexicalReports = lexed.diagnostics.toList := by
    rw [Context.lexicalReports, own]
    exact List.filter_eq_self.2 (stream_reports_lexical context.file source)
  exact ⟨takes.reports.trans lexical, takes.lexemes⟩

end Haskell

end Offside
