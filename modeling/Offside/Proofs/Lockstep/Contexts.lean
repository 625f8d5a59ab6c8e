import Offside.Proofs.Layout.Joined
import Offside.Proofs.Lexical.Comments
import Offside.Proofs.Lockstep.Modules
import Offside.Proofs.Reading.Conservation

/-!
Two parses of one text in contexts that have nothing in common but the file. What was recorded before
is no matter, since the texts that a grammar looks up are those of tokens it has pulled, which replace
what was there. Comments are no matter either, as no grammar looks them up. What was reported before is no
matter to the program, and neither to the reports unless just one of the contexts ends with the very report
that the end of input makes.
-/

namespace Offside

set_option autoImplicit false

open Offside.Lexical

namespace LexemeTable

theorem get?_recordAll_replaced {entries : List Entry} (apart : Entry.AreApart entries)
    {entry : Entry} (member : entry ∈ entries) {lexeme : Lexeme}
    (recorded : entry.lexeme? = some lexeme) (table : LexemeTable) :
    (table.recordAll entries).get? entry.place = some lexeme := by
  induction entries generalizing table with
  | nil => cases member
  | cons first later induction =>
    rw [Entry.AreApart, List.pairwise_cons] at apart
    change ((table.recordEntry first).recordAll later).get? entry.place = _
    rcases List.mem_cons.1 member with rfl | member
    · rw [get?_recordAll_spared, get?_recordEntry_of_some recorded, if_pos rfl]
      intro other among kind
      exact (apart.1 other among (by simp [recorded]) kind).symm
    · exact induction apart.2 member _

end LexemeTable

namespace Lexical.Accounts

variable {language : Language} {source : List Char} {items readings : List Lexed}

/-- The text of a token is recorded whatever was recorded before. -/
theorem lexemeAt_replaced (accounts : Accounts language source items readings) (context : Context)
    {reading : Lexed} (read : reading ∈ readings) {text : List Char}
    (copies : reading.Copies language source text) {category : Lexeme.Category}
    (kind : Lexeme.Category.ofToken? reading.token = some category)
    (shown : reading.token ≠ .comment) :
    (context.absorbAll items).lexemeAt reading.span.start =
      some ⟨category, String.ofList (language.recordedText reading.token text)⟩ := by
  let entry : Entry := ⟨reading.token, reading.span.start,
    String.ofList (language.recordedText reading.token text)⟩
  have own : entry ∈ reading.entries := by
    rw [copies.entries]
    exact List.mem_singleton_self _
  have member : entry ∈ (entriesOf readings).filter context.records :=
    List.mem_filter.2 ⟨List.mem_flatMap.2 ⟨reading, read, own⟩, by
      simp [Context.records, entry, shown]⟩
  rw [Context.lexemeAt, Context.absorbAll_eq, accounts.entries]
  exact LexemeTable.get?_recordAll_replaced (accounts.apart.sublist List.filter_sublist) member
    (by simp [entry, Entry.lexeme?, kind]) _

end Lexical.Accounts

namespace Parser

/-- A token on which two tables agree if a grammar looks it up. -/
def AgreeOn (texts others : Position → Option Lexeme) (found : Token × Span) : Prop :=
  found.1.isLookedUp = true → texts found.2.start = others found.2.start

/-- What is fixed of two runs: the texts that each will have recorded once all is read, the reports that
each found in its context, and the place at which the text ends. -/
structure Views where
  texts : Position → Option Lexeme
  others : Position → Option Lexeme
  first : List Diagnostic
  second : List Diagnostic
  finish : Span

namespace Views

/-- Both runs found the end of input reported already, or neither did. -/
def AreLevel (views : Views) : Prop :=
  views.first.getLast? = some ⟨.unexpectedToken, views.finish⟩ ↔
    views.second.getLast? = some ⟨.unexpectedToken, views.finish⟩

structure Admits (views : Views) (found : Token × Span) : Prop where
  texts : AgreeOn views.texts views.others found
  finish : found.1 = .endOfInput → found.2 = views.finish

end Views

variable {views : Views} {parser : Parser} {context : Context} {reportedAt : Option Nat}

/-- Whatever is pulled from a stream stood in it, or is the end of input. -/
theorem pulled_agree {texts others : Position → Option Lexeme} {stream : TokenStream}
    (agree : ∀ item ∈ stream.items, AgreeOn texts others item.located) (context : Context) :
    AgreeOn texts others (pullFrom stream context).1 ∧
      ∀ item ∈ (pullFrom stream context).2.1.items, AgreeOn texts others item.located := by
  rcases pullFrom_items stream context with ⟨comments, item, split, token, -⟩ | ⟨final, none, -⟩
  · rw [token]
    constructor
    · exact agree item (by rw [split]; simp)
    · exact fun later member => agree later (by rw [split]; simp [member])
  · constructor
    · intro lookedUp
      rw [final] at lookedUp
      cases lookedUp
    · rw [none]
      simp

theorem pulled_admitted {stream : TokenStream} (finish : stream.finish = views.finish)
    (admitted : ∀ item ∈ stream.items, views.Admits item.located) (context : Context) :
    views.Admits (pullFrom stream context).1 ∧
      ∀ item ∈ (pullFrom stream context).2.1.items, views.Admits item.located := by
  have agree := pulled_agree (fun item member => (admitted item member).texts) context
  rcases pullFrom_items stream context with ⟨comments, item, split, token, -⟩ | ⟨-, none, -⟩
  · constructor
    · rw [token]
      exact admitted item (by rw [split]; simp)
    · exact fun later member => admitted later (by rw [split]; simp [member])
  · refine ⟨⟨agree.1, fun final => ?_⟩, by rw [none]; simp⟩
    unfold pullFrom at final none ⊢
    simp only [TokenStream.next] at final none ⊢
    cases found : stream.afterComments.items with
    | nil => exact finish
    | cons item later =>
      have member : item ∈ stream.items :=
        (List.dropWhile_sublist Lexed.isComment).subset
          (by rw [← stream.items_afterComments, found]; exact List.mem_cons_self)
      simp only [found] at final ⊢
      exact (admitted item member).finish final

/-- A parser beside one that differs from it in its context and in what it last reported. Unless one of
them alone found the end of input reported, both have reported the same. -/
structure Abreast (views : Views) (parser : Parser) (context : Context)
    (reportedAt : Option Nat) : Prop where
  reports : views.AreLevel → ∃ added : List Diagnostic,
    parser.context.diagnostics.toList = views.first ++ added ∧
      context.diagnostics.toList = views.second ++ added
  counted : views.AreLevel → reportedAt = parser.reportedAt
  steady : parser.Steady views.texts
  other : ({ parser with context, reportedAt } : Parser).Steady views.others
  ahead : views.Admits (parser.ahead, parser.aheadSpan)
  buffered : ∀ found ∈ parser.buffered, views.Admits found
  input : ∀ item ∈ parser.input.items, views.Admits item.located
  finish : parser.input.finish = views.finish

def KeepsAbreast (views : Views) (move : Parser → Parser) (parser : Parser) (context : Context)
    (reportedAt : Option Nat) : Prop :=
  ∃ after count,
    move { parser with context, reportedAt } =
        { move parser with context := after, reportedAt := count } ∧
      (move parser).Abreast views after count

namespace Abreast

variable (abreast : parser.Abreast views context reportedAt)

include abreast

theorem pulled_reports (level : views.AreLevel) : ∃ added : List Diagnostic,
      (pullFrom parser.input parser.context).2.2.diagnostics.toList = views.first ++ added ∧
        (pullFrom parser.input context).2.2.diagnostics.toList = views.second ++ added := by
  obtain ⟨added, own, other⟩ := abreast.reports level
  refine ⟨added ++ reportsOf parser.input.comments ++ parser.input.afterComments.next.1.reports,
    ?_, ?_⟩
  · simp [diagnostics_pullFrom, own]
  · simp [diagnostics_pullFrom, other]

theorem consume : KeepsAbreast views Parser.consume parser context reportedAt := by
  have other := abreast.other.consume
  have steady := abreast.steady.consume
  have members := abreast.buffered
  have pulled := pulled_admitted abreast.finish abreast.input parser.context
  unfold KeepsAbreast
  unfold Parser.consume at other steady ⊢
  cases found : parser.buffered with
  | nil =>
    simp only [found] at other steady ⊢
    exact ⟨_, _, rfl,
      { reports := abreast.pulled_reports
        counted := abreast.counted
        steady, other
        ahead := pulled.1
        buffered := by simp [pull]
        input := pulled.2
        finish := (finish_pullFrom parser.input parser.context).trans abreast.finish }⟩
  | cons next later =>
    rw [found, List.forall_mem_cons] at members
    simp only [found] at other steady ⊢
    exact ⟨_, _, rfl,
      { reports := abreast.reports
        counted := abreast.counted
        steady, other
        ahead := members.1
        buffered := members.2
        input := abreast.input
        finish := abreast.finish }⟩

theorem fill (count : Nat) : KeepsAbreast views (Parser.fill count) parser context reportedAt := by
  induction count generalizing parser context with
  | zero => exact ⟨context, reportedAt, rfl, abreast⟩
  | succ count induction =>
    have pulled := pulled_admitted abreast.finish abreast.input parser.context
    have one : (parser.fill 1).Abreast views (pullFrom parser.input context).2.2 reportedAt :=
      { reports := abreast.pulled_reports
        counted := abreast.counted
        steady := abreast.steady.fill
        other := abreast.other.fill
        ahead := abreast.ahead
        buffered := fun found member => by
          rcases List.mem_append.1 member with buffered | new
          · exact abreast.buffered found buffered
          · rw [List.mem_singleton.1 new]
            exact pulled.1
        input := pulled.2
        finish := (finish_pullFrom parser.input parser.context).trans abreast.finish }
    exact induction one

theorem report (problem : Problem) (span : Span) :
    Abreast views { parser with context := parser.context.report problem span }
      (context.report problem span) reportedAt :=
  { abreast with
    reports := by
      intro level
      obtain ⟨added, own, other⟩ := abreast.reports level
      refine ⟨added ++ [⟨problem, span⟩], ?_, ?_⟩
      · simp [Context.report, own]
      · simp [Context.report, other]
    steady := abreast.steady.report problem span
    other := abreast.other.report problem span }

/-- The end of input counts as reported in both runs or in neither. -/
theorem endAlreadyReported (level : views.AreLevel) :
    ({ parser with context, reportedAt } : Parser).endAlreadyReported =
      parser.endAlreadyReported := by
  have ends : ({ parser with context, reportedAt } : Parser).isAtEnd = parser.isAtEnd := rfl
  unfold Parser.endAlreadyReported
  rw [ends]
  cases ended : parser.isAtEnd with
  | false => rfl
  | true =>
    have place : parser.aheadSpan = views.finish :=
      abreast.ahead.finish (by simpa [isAtEnd] using ended)
    obtain ⟨added, own, other⟩ := abreast.reports level
    simp only [Bool.true_and, place, ← Array.getLast?_toList, own, other]
    rcases List.eq_nil_or_concat added with rfl | ⟨front, last, rfl⟩
    · rw [List.append_nil, List.append_nil, Bool.eq_iff_iff, beq_iff_eq, beq_iff_eq]
      exact level.symm
    · simp [← List.append_assoc]

theorem reportUnexpected :
    KeepsAbreast views Parser.reportUnexpected parser context reportedAt := by
  have reported := abreast.report .unexpectedToken parser.aheadSpan
  have same : views.AreLevel →
      ((reportedAt = some parser.consumed ∨
          ({ parser with context, reportedAt } : Parser).endAlreadyReported = true) ↔
        (parser.reportedAt = some parser.consumed ∨ parser.endAlreadyReported = true)) := by
    intro level
    rw [abreast.endAlreadyReported level, abreast.counted level]
  unfold KeepsAbreast Parser.reportUnexpected
  split
  · rename_i told
    split
    · exact ⟨context, reportedAt, rfl, abreast⟩
    · rename_i untold
      have affected : ¬views.AreLevel := fun level => untold ((same level).1 told)
      exact ⟨context, reportedAt, rfl,
        { abreast with
          reports := fun level => absurd level affected
          counted := fun level => absurd level affected
          steady := { reported.steady with }
          other := { abreast.other with } }⟩
  · rename_i untold
    split
    · rename_i told
      have affected : ¬views.AreLevel := fun level => untold ((same level).2 told)
      exact ⟨_, _, rfl,
        { abreast with
          reports := fun level => absurd level affected
          counted := fun level => absurd level affected
          other := { reported.other with } }⟩
    · exact ⟨_, _, rfl,
        { reported with
          counted := fun _ => rfl
          steady := { reported.steady with }
          other := { reported.other with } }⟩

theorem consumeInner : KeepsAbreast views Parser.consumeInner parser context reportedAt := by
  have ended : ({ parser with context, reportedAt } : Parser).isAtEnd = parser.isAtEnd := rfl
  unfold KeepsAbreast Parser.consumeInner
  rw [ended]
  split
  · exact ⟨context, reportedAt, rfl, abreast⟩
  · exact abreast.consume

/-- Whatever goes wrong goes wrong in both runs. -/
theorem mishap (mishap : Mishap) : KeepsAbreast views mishap.apply parser context reportedAt := by
  cases mishap with
  | unexpected => exact abreast.reportUnexpected
  | failure =>
    obtain ⟨reported, count, same, goesOn⟩ := abreast.reportUnexpected
    obtain ⟨after, final, sameAfter, ended⟩ := goesOn.consumeInner
    refine ⟨after, final, ?_, ended⟩
    change ({ parser with context, reportedAt } : Parser).reportUnexpected.consumeInner = _
    rw [same, sameAfter]
    rfl
  | nesting => exact (abreast.report .nestingTooDeep parser.aheadSpan).consumeInner
  | report problem span => exact ⟨_, _, rfl, abreast.report problem span⟩
  | raised fault =>
    exact ⟨context, reportedAt, rfl,
      { abreast with
        steady := { abreast.steady with }
        other := { abreast.other with } }⟩

theorem atDepth (depth : Nat) : Abreast views { parser with depth } context reportedAt :=
  { abreast with
    steady := { abreast.steady with }
    other := { abreast.other with } }

end Abreast

end Parser

open Offside.Parser

/-- Parsers in the same state but for their contexts and for what they last reported. -/
def sameText (views : Views) : Pairing where
  move := id
  pairs _ left right := ∃ context reportedAt,
    right = { left with context, reportedAt } ∧ left.Abreast views context reportedAt
  good _ := True
  seam _ := False

variable {views : Views}

theorem sameText_forgiving : (sameText views).Forgiving where
  seamless := fun _ => id
  untracked := fun _ _ _ _ pairs => pairs
  move := rfl
  good := fun _ => trivial
  aheadSpan := by
    rintro brackets left right ⟨context, reportedAt, rfl, abreast⟩
    rfl
  exact := by
    rintro brackets left right ⟨context, reportedAt, rfl, abreast⟩
    rfl
  consume := by
    rintro brackets left right ⟨context, reportedAt, rfl, abreast⟩
    exact abreast.consume
  mishap := by
    rintro brackets left right ⟨context, reportedAt, rfl, abreast⟩ mishap
    exact abreast.mishap mishap

theorem sameText_peek {left right : Parser} {distance : Nat}
    (pairs : (sameText views).pairs [] left right) (near : 1 ≤ distance)
    (within : distance ≤ reach) :
    (right.peek distance).1 = (left.peek distance).1 ∧
      (sameText views).pairs [] (left.peek distance).2 (right.peek distance).2 := by
  obtain ⟨context, reportedAt, rfl, abreast⟩ := pairs
  obtain ⟨after, count, same, goesOn⟩ := abreast.fill (distance - left.buffered.length)
  rw [peek_apply near within, peek_apply near within]
  simp only [same]
  exact ⟨trivial, after, count, rfl, goesOn⟩

instance : (sameText views).Lawful where
  file := fun _ => rfl
  through := fun _ _ => rfl
  touches := fun _ _ => Iff.rfl
  ahead := by
    rintro brackets left right ⟨context, reportedAt, rfl, abreast⟩ -
    rfl
  aheadSpan := by
    rintro brackets left right ⟨context, reportedAt, rfl, abreast⟩ -
    rfl
  atSeam := fun _ seam => seam.elim
  stays := fun _ => id
  good_of_consume := fun _ => trivial
  seam_of_leads := fun _ _ seam => seam.elim
  spanFrom := by
    rintro brackets left right ⟨context, reportedAt, rfl, abreast⟩ start
    rfl
  lexeme := by
    rintro brackets left right ⟨context, reportedAt, rfl, abreast⟩ lookedUp
    rw [abreast.steady.lexemeAt lookedUp, abreast.ahead.texts lookedUp]
    exact abreast.other.lexemeAt lookedUp
  depth := by
    rintro brackets left right ⟨context, reportedAt, rfl, abreast⟩
    rfl
  atDepth := by
    rintro brackets left right ⟨context, reportedAt, rfl, abreast⟩ depth
    exact ⟨context, reportedAt, rfl, abreast.atDepth depth⟩
  good_atDepth := fun _ _ => Iff.rfl
  seam_atDepth := fun _ _ => Iff.rfl
  good_of_leads := fun _ _ => trivial
  mishap := fun _ _ _ => sameText_forgiving
  consume := by
    intro before after left right pairs _ _ _
    have goesOn := sameText_forgiving.consume pairs
    exact sameText_forgiving.steps pairs goesOn
  peek := by
    intro brackets left right distance pairs _ _ reachable _
    have near : 1 ≤ distance ∧ distance ≤ reach := by
      rcases reachable with rfl | ⟨rfl, -⟩ <;> decide
    obtain ⟨same, goesOn⟩ := sameText_peek pairs near.1 near.2
    exact ⟨⟨Or.inl (by rw [same]), fun _ => by rw [same]; rfl⟩,
      sameText_forgiving.steps pairs goesOn⟩

namespace Haskell

theorem wide_of_lookedUp {file : FileId} {source : List Char} {found : Token × Span}
    (member : found ∈ (reader.stream file source).items.map Lexed.located)
    (lookedUp : found.1.isLookedUp = true) : found.2.isPoint = false := by
  rw [← Bool.not_eq_true]
  intro point
  rw [stream_located] at member
  have widths := Lexer.scanned_wide file (Lexer.start source)
  rcases Layout.spread_points widths {} found member point with added | ended
  · simp only [Token.isLookedUp, Bool.or_eq_true, decide_eq_true_eq] at lookedUp
    rcases lookedUp with kind | kind <;> rw [kind] at added <;> cases added
  · rw [ended] at lookedUp
    cases lookedUp

theorem read_of_lookedUp {file : FileId} {source : List Char} {found : Token × Span}
    (member : found ∈ (reader.stream file source).items.map Lexed.located)
    (lookedUp : found.1.isLookedUp = true) :
    ∃ reading ∈ sourceReadings file source, reading.located = found :=
  List.mem_map.1
    (((stream_accounts file source).wide found (wide_of_lookedUp member lookedUp)).1 member)

theorem recorded_of_lookedUp {token : Token} (lookedUp : token.isLookedUp = true) :
    (Lexeme.Category.ofToken? token).isSome = true ∧ token ≠ .comment := by
  simp only [Token.isLookedUp, Bool.or_eq_true, decide_eq_true_eq] at lookedUp
  rcases lookedUp with rfl | rfl <;> decide

theorem parseText_eq (source : List Char) (context : Context) :
    let parsed := parseTokens (reader.stream context.file source) context
    (parseText source context).1 = parsed.1 ∧
      (parseText source context).2.diagnostics = parsed.2.context.diagnostics := by
  intro parsed
  simp only [parseText]
  split
  · rename_i none
    exact ⟨none.symm, rfl⟩
  · rename_i some
    exact ⟨some.symm, rfl⟩

def endSpan (file : FileId) (source : List Char) : Span :=
  Span.point (Position.origin.afterAll source) file

theorem Lexer.span_of_ended {source : List Char} {lexer : Lexer} (passed : lexer.Passed source)
    (ended : lexer.nextScan.token = .endOfInput) (file : FileId) :
    (lexer.nextWritten file).span = endSpan file source := by
  have stands := passed.stands.skipWhile Text.isBlank
  have nothing : lexer.place.ahead = [] := ahead_of_final ended
  have text : lexer.place.behind.reverse = source := by
    have whole : lexer.place.behind.reverse ++ lexer.place.ahead = source := stands.text
    rwa [nothing, List.append_nil] at whole
  have position : lexer.place.position = Position.origin.afterAll source := by
    rw [← text]
    exact stands.position
  rw [nextWritten, nextScan_ended nothing]
  change Span.point lexer.place.position file = _
  rw [position, endSpan]

/-- Whatever stands in a stream was added by layout or scanned. -/
theorem Layout.mem_spread {found : Token × Span} {tokens : List Written} (layout : Layout)
    (member : found ∈ layout.spread tokens) :
    Layout.isAdded found.1 = true ∨ ∃ written ∈ tokens, found = written.located := by
  induction tokens generalizing layout with
  | nil => cases member
  | cons written later induction =>
    have further : ∀ layout : Layout, found ∈ layout.spread later →
        Layout.isAdded found.1 = true ∨ ∃ other ∈ written :: later, found = other.located := by
      intro layout member
      rcases induction layout member with added | ⟨other, among, same⟩
      · exact Or.inl added
      · exact Or.inr ⟨other, List.mem_cons_of_mem _ among, same⟩
    by_cases comment : written.token = .comment
    · rw [Layout.spread_of_comment comment] at member
      rcases List.mem_cons.1 member with rfl | member
      · exact Or.inr ⟨written, List.mem_cons_self, rfl⟩
      · exact further layout member
    · rw [Layout.spread_of_written comment] at member
      rcases List.mem_append.1 member with before | member
      · obtain ⟨token, among, rfl⟩ := List.mem_map.1 before
        exact Or.inl (Layout.step_added written layout token among)
      · rcases List.mem_cons.1 member with rfl | member
        · exact Or.inr ⟨written, List.mem_cons_self, rfl⟩
        · exact further _ member

theorem stream_end (file : FileId) (source : List Char) :
    (∀ item ∈ (reader.stream file source).items, item.token = .endOfInput →
        item.span = endSpan file source) ∧
      (reader.stream file source).finish = endSpan file source := by
  have final : ∀ found ∈ Layout.spread {} (scannedTokens file source),
      found.1 = .endOfInput → found.2 = endSpan file source := by
    intro found member final
    rcases Layout.mem_spread {} member with added | ⟨written, scanned, rfl⟩
    · rw [final] at added
      cases added
    · rw [scannedTokens, Lexer.scanned_eq_visits] at scanned
      obtain ⟨lexer, visit, rfl⟩ := List.mem_map.1 scanned
      have step : ∀ lexer, Lexer.Passed source lexer → Lexer.Passed source lexer.pastNext :=
        fun _ => Lexer.Passed.pastNext
      have passed := Lexer.mem_visits step _ (Lexer.passed_start source) lexer visit
      exact Lexer.span_of_ended passed final file
  have ends : ∀ item ∈ (reader.stream file source).items, item.token = .endOfInput →
      item.span = endSpan file source := by
    intro item member
    have handed := List.mem_map_of_mem (f := Lexed.located) member
    rw [stream_located] at handed
    exact final _ handed
  refine ⟨ends, ?_⟩
  obtain ⟨inner, last, split, ended, -⟩ :=
    @Reader.items_split _ reader file (reader.start source)
  have items : (reader.stream file source).items = inner ++ [last] := split
  have finish : (reader.stream file source).finish =
      TokenStream.finishOf (reader.stream file source).items := rfl
  have span := ends last (by rw [items]; simp) (by simpa [Lexed.isFinal] using ended)
  rw [finish, items, TokenStream.finishOf, List.getLast?_append, List.getLast?_singleton,
    Option.some_or]
  simp only [span]
  rfl

/-- What is recorded of a token that a grammar looks up is what was read of it, whatever was recorded
before. -/
theorem lexemeAt_read {file : FileId} {source : List Char} (context : Context) {reading : Lexed}
    (read : reading ∈ sourceReadings file source) (lookedUp : reading.token.isLookedUp = true) :
    (context.absorbAll (reader.stream file source).items).lexemeAt reading.span.start =
      reading.entries.head?.bind Entry.lexeme? := by
  have accounts := stream_accounts file source
  obtain ⟨kind, shown⟩ := recorded_of_lookedUp lookedUp
  obtain ⟨category, kind⟩ := Option.isSome_iff_exists.1 kind
  obtain ⟨text, copies⟩ | plain := accounts.readings reading read
  · rw [accounts.lexemeAt_replaced context read copies kind shown, copies.entries]
    simp [Entry.lexeme?, kind]
  · rw [plain.token] at kind
    cases kind

theorem recorded_anyway (context other : Context) (file : FileId) (source : List Char) :
    ∀ item ∈ (reader.stream file source).items,
      AgreeOn (context.absorbAll (reader.stream file source).items).lexemeAt
        (other.absorbAll (reader.stream file source).items).lexemeAt item.located := by
  intro item member lookedUp
  obtain ⟨reading, read, same⟩ := read_of_lookedUp (List.mem_map_of_mem member) lookedUp
  rw [← same] at lookedUp ⊢
  exact (lexemeAt_read context read lookedUp).trans (lexemeAt_read other read lookedUp).symm

def startViews (file : FileId) (source : List Char) (context other : Context) : Views where
  texts := (context.absorbAll (reader.stream file source).items).lexemeAt
  others := (other.absorbAll (reader.stream file source).items).lexemeAt
  first := context.diagnostics.toList
  second := other.diagnostics.toList
  finish := endSpan file source

theorem start_abreast (file : FileId) (source : List Char) (context other : Context) :
    let stream := reader.stream file source
    Parser.start stream other =
        { Parser.start stream context with
          context := (pullFrom stream other).2.2, reportedAt := none } ∧
      (Parser.start stream context).Abreast (startViews file source context other)
        (pullFrom stream other).2.2 none := by
  intro stream
  have settled := stream_settled file source
  have ends := stream_end file source
  have admitted : ∀ item ∈ stream.items,
      (startViews file source context other).Admits item.located := fun item member =>
    ⟨recorded_anyway context other file source item member, ends.1 item member⟩
  have pulled := pulled_admitted ends.2 admitted context
  refine ⟨rfl, ?_⟩
  exact
    { reports := fun _ => by
        refine ⟨reportsOf stream.comments ++ stream.afterComments.next.1.reports, ?_, ?_⟩
        · change (pullFrom stream context).2.2.diagnostics.toList = context.diagnostics.toList ++ _
          simp [diagnostics_pullFrom]
        · change (pullFrom stream other).2.2.diagnostics.toList = other.diagnostics.toList ++ _
          simp [diagnostics_pullFrom]
      counted := fun _ => rfl
      steady := start_steady settled context
      other := start_steady settled other
      ahead := pulled.1
      buffered := by simp [Parser.start]
      input := pulled.2
      finish := (finish_pullFrom stream context).trans ends.2 }

theorem parseTokens_abreast (file : FileId) (source : List Char) (context other : Context) :
    let stream := reader.stream file source
    let views := startViews file source context other
    (parseTokens stream other).1 = (parseTokens stream context).1 ∧
      ∃ after reportedAt, (parseTokens stream other).2.context = after ∧
        (parseTokens stream context).2.Abreast views after reportedAt := by
  intro stream views
  obtain ⟨started, abreast⟩ := start_abreast file source context other
  have ends : (Parser.start stream other).isAtEnd = (Parser.start stream context).isAtEnd := rfl
  cases ended : (Parser.start stream context).isAtEnd with
  | true =>
    rw [parseTokens_of_ended ended, parseTokens_of_ended (ends.trans ended)]
    exact ⟨rfl, _, none, rfl, abreast⟩
  | false =>
    have mirrors := (Grammar.program_keeps (@sameText_forgiving views) []
      (Parser.start stream context) (Parser.start stream other)).forward
        ⟨_, _, started, abreast⟩ trivial
    obtain ⟨after, reportedAt, final, goesOn⟩ := mirrors.steps.pairs
    rw [parseTokens_program ended, parseTokens_program (ends.trans ended),
      parseTokens_final ended, parseTokens_final (ends.trans ended)]
    refine ⟨congrArg some ?_, after, reportedAt, ?_, goesOn⟩
    · rw [mirrors.value]
      exact Program.moved_id _
    · rw [final]

/-- In two contexts for one file that both end with a report of the end of the text as unexpected, or
neither, a parse adds the same reports. -/
theorem parseText_abreast (source : List Char) {context other : Context}
    (sameFile : other.file = context.file) :
    let finish := endSpan context.file source
    (parseText source other).1 = (parseText source context).1 ∧
      ((context.diagnostics.back? = some ⟨.unexpectedToken, finish⟩ ↔
          other.diagnostics.back? = some ⟨.unexpectedToken, finish⟩) →
        ∃ added : List Diagnostic,
          (parseText source context).2.diagnostics = context.diagnostics ++ added ∧
            (parseText source other).2.diagnostics = other.diagnostics ++ added) := by
  intro finish
  obtain ⟨program, diagnostics⟩ := parseText_eq source context
  obtain ⟨otherProgram, otherDiagnostics⟩ := parseText_eq source other
  rw [sameFile] at otherProgram otherDiagnostics
  obtain ⟨same, after, reportedAt, known, abreast⟩ :=
    parseTokens_abreast context.file source context other
  refine ⟨otherProgram.trans (same.trans program.symm), ?_⟩
  intro level
  rw [← Array.getLast?_toList, ← Array.getLast?_toList] at level
  obtain ⟨added, own, others⟩ := abreast.reports level
  refine ⟨added, ?_, ?_⟩
  · rw [diagnostics, ← Array.toList_inj, own]
    simp [startViews]
  · rw [otherDiagnostics, known, ← Array.toList_inj, others]
    simp [startViews]

/-- Neither what was reported or recorded before, nor a program that is kept, nor the comments make a
difference to a parse: in any two contexts for one file a text is parsed to the same program, and the
same reports are added unless one of them ends with a report of the end of the text as unexpected. -/
theorem parsing_ignores_context (source : List Char) {context other : Context}
    (sameFile : other.file = context.file) :
    let finish := endSpan context.file source
    (parseText source other).1 = (parseText source context).1 ∧
      (context.diagnostics.back? ≠ some ⟨.unexpectedToken, finish⟩ →
        other.diagnostics.back? ≠ some ⟨.unexpectedToken, finish⟩ →
        ∃ added : List Diagnostic,
          (parseText source context).2.diagnostics = context.diagnostics ++ added ∧
            (parseText source other).2.diagnostics = other.diagnostics ++ added) := by
  intro finish
  obtain ⟨program, alike⟩ := parseText_abreast source sameFile
  exact ⟨program, fun unreported otherUnreported =>
    alike (iff_of_false unreported otherUnreported)⟩

/-- An import of which the words `qualified` and `as` are looked up, in a context that was used before:
another text was recorded for the first of the words, and the last report is about the end. -/
def usedContext : Context where
  keepComments := true
  diagnostics := #[⟨.unexpectedToken, ⟨.single, ⟨7, 0⟩, ⟨7, 0⟩⟩⟩]
  lexemes := LexemeTable.empty.record .identifier ⟨0, 7⟩ "stale"

theorem parsing_ignores_used_context :
    let source := "import qualified M as -- N\n  ("
    usedContext.file = ({} : Context).file ∧
      (parseText source.toList usedContext).1 = (parseText source.toList {}).1 ∧
      ∃ added : List Diagnostic,
        (parseText source.toList {}).2.diagnostics = ({} : Context).diagnostics ++ added ∧
          (parseText source.toList usedContext).2.diagnostics =
            usedContext.diagnostics ++ added := by
  intro source
  have ignores := @parsing_ignores_context source.toList {} usedContext rfl
  exact ⟨rfl, ignores.1, ignores.2 (by decide) (by decide)⟩

end Haskell

/-- Comments are seen by nobody but who asks for them. In a fresh context, any calls of either lexer,
each of which keeps comments or drops them, hand out the same tokens at the same places, report the
same and record the same texts, comments aside, as calls that drop them all. A parse that keeps
comments comes to the same program and the same reports as one that drops them. -/
theorem comments_make_no_difference (context : Context) (source : List Char) :
    let fresh : Context := { context with lexemes := .empty }
    (∀ (language : Language) (flags : Nat → Bool), ∃ count handed after,
      fresh.Ignores language source ((List.range count).map flags) handed after) ∧
      ∀ kept : Bool,
        let parsed := Haskell.parseText source { fresh with keepComments := kept }
        let plain := Haskell.parseText source { fresh with keepComments := false }
        parsed.1 = plain.1 ∧ parsed.2.diagnostics = plain.2.diagnostics := by
  intro fresh
  constructor
  · intro language flags
    exact lexing_ignores_comments fresh language source rfl flags
  · intro kept parsed plain
    let keeping := { fresh with keepComments := kept }
    let dropping := { fresh with keepComments := false }
    obtain ⟨program, alike⟩ := @Haskell.parseText_abreast source dropping keeping rfl
    obtain ⟨added, own, others⟩ := alike Iff.rfl
    exact ⟨program, others.trans own.symm⟩

end Offside
