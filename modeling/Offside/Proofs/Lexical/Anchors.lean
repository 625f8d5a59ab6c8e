import Offside.Proofs.Lexical.Origins

/-!
What is reported while a text is read is anchored in its tokens. A report starts where the token starts
that was being read, so reports follow one another as tokens do. It is about this token as a whole,
except that a number without digits is reported with the characters that announce its radix alone.
-/

namespace Offside

set_option autoImplicit false

open Offside.Lexical

def Problem.tokens : Problem → List Token
  | .unterminatedLiteral => [.string, .character, .comment]
  | .unexpectedCharacter => [.invalid]
  | .malformedNumber => [.integer]
  | .inconsistentIndentation | .unexpectedToken | .nestingTooDeep => []

namespace Lexical

/-- A scan that finds fault with its own token, and with one that starts no token. -/
structure Scan.IsFair (scan : Scan) : Prop where
  kind : ∀ defect ∈ scan.defect, scan.token ∈ defect.problem.tokens
  within : ∀ defect ∈ scan.defect, defect.width ≤ scan.width
  whole : ∀ defect ∈ scan.defect, defect.problem ≠ .malformedNumber → defect.width = scan.width
  invalid : scan.token = .invalid → scan.defect ≠ none

namespace Scan

variable {scan : Scan}

theorem isFair_of_sound (sound : scan.defect = none) (valid : scan.token ≠ .invalid) :
    scan.IsFair where
  kind := by simp [sound]
  within := by simp [sound]
  whole := by simp [sound]
  invalid := fun invalid => absurd invalid valid

theorem isFair_of_defect {defect : Defect} (found : scan.defect = some defect)
    (kind : scan.token ∈ defect.problem.tokens) (within : defect.width ≤ scan.width)
    (whole : defect.problem ≠ .malformedNumber → defect.width = scan.width) : scan.IsFair where
  kind := by
    rw [found]
    exact fun other member => Option.some.inj member ▸ kind
  within := by
    rw [found]
    exact fun other member => Option.some.inj member ▸ within
  whole := by
    rw [found]
    exact fun other member => Option.some.inj member ▸ whole
  invalid := by simp [found]

theorem isFair_of_literal {closed : Bool}
    (literal : scan.token = .string ∨ scan.token = .character ∨ scan.token = .comment)
    (found : scan.defect = if closed then none else some ⟨.unterminatedLiteral, scan.width⟩) :
    scan.IsFair := by
  cases closed with
  | true =>
    apply isFair_of_sound found
    intro invalid
    rw [invalid] at literal
    exact absurd literal (by decide)
  | false =>
    apply isFair_of_defect found
    · simpa [Problem.tokens] using literal
    · exact Nat.le_refl _
    · exact fun _ => rfl

/-- A number is reported with the two characters that announce its radix. -/
theorem isFair_of_radix {digits : Nat} (integer : scan.token = .integer) (wide : 2 ≤ scan.width)
    (found : scan.defect = if digits = 0 then some ⟨.malformedNumber, 2⟩ else none) :
    scan.IsFair := by
  by_cases none : digits = 0
  · rw [if_pos none] at found
    apply isFair_of_defect found
    · rw [integer]
      exact List.mem_singleton_self _
    · exact wide
    · exact fun other => absurd rfl other
  · rw [if_neg none] at found
    apply isFair_of_sound found
    rw [integer]
    decide

end Scan

end Lexical

namespace Python

theorem scanNumber_isFair (text : List Char) : (scanNumber text).IsFair := by
  unfold scanNumber
  split
  · apply Scan.isFair_of_radix rfl
    · simp only [scanRadix]
      omega
    · rfl
  · simp only [scanDecimal]
    split
    · exact Scan.isFair_of_sound rfl (by decide : Token.float ≠ .invalid)
    · split
      · exact Scan.isFair_of_sound rfl (by decide : Token.float ≠ .invalid)
      · exact Scan.isFair_of_sound rfl (by decide : Token.integer ≠ .invalid)

theorem scanString_isFair (prefixWidth : Nat) (text : List Char) :
    (scanString prefixWidth text).IsFair := by
  unfold scanString
  split
  · exact Scan.isFair_of_sound rfl (by decide : Token.string ≠ .invalid)
  · exact Scan.isFair_of_literal (.inl rfl) rfl

theorem scanSymbol_isFair (text : List Char) : (scanSymbol text).IsFair := by
  have valid : ∀ entry ∈ symbols, entry.2 ≠ .invalid := by decide
  unfold scanSymbol
  split
  · rename_i found
    exact Scan.isFair_of_sound rfl (valid _ (List.mem_of_find?_eq_some found))
  · exact Scan.isFair_of_defect rfl List.mem_cons_self (Nat.le_refl _) fun _ => rfl

theorem scan_isFair (text : List Char) : (scan text).IsFair := by
  unfold scan
  split
  · exact scanNumber_isFair text
  · split
    · exact scanString_isFair _ text
    · split
      · exact Scan.isFair_of_sound rfl (Token.forall_of_getD (· ≠ .invalid) (by decide) (by decide) _)
      · exact scanSymbol_isFair text

end Python

namespace Haskell

theorem scanNumber_isFair (text : List Char) : (scanNumber text).IsFair := by
  unfold scanNumber
  split
  · apply Scan.isFair_of_radix rfl
    · simp only [scanRadix]
      omega
    · rfl
  · apply Scan.isFair_of_sound rfl
    simp only [scanDecimal]
    split
    · decide
    · decide

theorem scan_isFair (afterProper : Bool) (text : List Char) : (scan afterProper text).IsFair := by
  have scanned := scan_scanned afterProper text
  generalize scan afterProper text = found at scanned ⊢
  cases scanned with
  | ended => exact Scan.isFair_of_sound rfl (by decide : Token.endOfInput ≠ .invalid)
  | blockComment => exact Scan.isFair_of_literal (.inr (.inr rfl)) rfl
  | lineComment => exact Scan.isFair_of_sound rfl (by decide : Token.comment ≠ .invalid)
  | delimiter rest spelled =>
    exact Scan.isFair_of_sound rfl (Token.forall_of_spelled? (· ≠ .invalid) (by decide) spelled)
  | string => exact Scan.isFair_of_literal (.inl rfl) rfl
  | character => exact Scan.isFair_of_literal (.inr (.inl rfl)) rfl
  | number => exact scanNumber_isFair _
  | word =>
    exact Scan.isFair_of_sound rfl
      (scanVariable_token (· ≠ .invalid) (by decide) (by decide) (by decide) _)
  | properWord => exact Scan.isFair_of_sound rfl (by decide : Token.properIdentifier ≠ .invalid)
  | qualifyingDot => exact Scan.isFair_of_sound rfl (by decide : Token.dot ≠ .invalid)
  | operator =>
    exact Scan.isFair_of_sound rfl
      (scanOperator_token (· ≠ .invalid) (by decide) (by decide) (by decide) _)
  | unknown => exact Scan.isFair_of_defect rfl List.mem_cons_self (Nat.le_refl _) fun _ => rfl

end Haskell

theorem Language.scan_isFair (language : Language) (afterProper : Bool) (text : List Char) :
    (language.scan afterProper text).IsFair := by
  cases language with
  | python =>
    simp only [Language.scan]
    split
    · exact Scan.isFair_of_sound rfl (by decide : Token.comment ≠ .invalid)
    · exact Python.scan_isFair text
  | haskell => exact Haskell.scan_isFair afterProper text

namespace Lexical.Lexed.Arises

variable {language : Language} {file : FileId} {source : List Char} {item : Lexed}
  {report : Diagnostic}

variable (arises : item.Arises language file source)

include arises

theorem report_start (reported : report ∈ item.reports) : report.span.start = item.span.start := by
  cases arises with
  | scanned stands afterProper text =>
    obtain ⟨defect, -, rfl⟩ := List.mem_map.1 reported
    rfl
  | newline stands feed => cases reported
  | margin place made => cases reported
  | misaligned place =>
    rw [List.mem_singleton.1 reported]

/-- A report is about a line that meets no block, or about a token of a kind that may have the
problem. -/
theorem report_kind (reported : report ∈ item.reports) :
    (item.token = .dedent ∧ item.span.isPoint = true ∧
        report.problem = .inconsistentIndentation) ∨
      item.token ∈ report.problem.tokens := by
  cases arises with
  | scanned stands afterProper text =>
    obtain ⟨defect, found, rfl⟩ := List.mem_map.1 reported
    exact .inr ((language.scan_isFair _ _).kind defect (Option.mem_toList.1 found))
  | newline stands feed => cases reported
  | margin place made => cases reported
  | misaligned place =>
    rw [List.mem_singleton.1 reported]
    exact .inl ⟨rfl, Span.isPoint_point place file, rfl⟩

/-- A report is about its token as a whole, unless a number has no digits. -/
theorem report_whole (reported : report ∈ item.reports)
    (noNumber : report.problem ≠ .malformedNumber) : report.span = item.span := by
  cases arises with
  | scanned stands afterProper text =>
    obtain ⟨defect, found, rfl⟩ := List.mem_map.1 reported
    have whole := (language.scan_isFair _ _).whole defect (Option.mem_toList.1 found) noNumber
    exact congrArg (spanAhead file _) whole
  | newline stands feed => cases reported
  | margin place made => cases reported
  | misaligned place =>
    rw [List.mem_singleton.1 reported]

theorem report_within (reported : report ∈ item.reports) :
    item.span.contains report.span = true := by
  cases arises with
  | @scanned cursor stands afterProper text =>
    obtain ⟨defect, found, rfl⟩ := List.mem_map.1 reported
    have within := (language.scan_isFair _ _).within defect (Option.mem_toList.1 found)
    obtain ⟨more, width⟩ := Nat.exists_eq_add_of_le within
    have behind : (cursor.skip defect.width).position ≤
        (cursor.skip (language.scan afterProper cursor.ahead).width).position := by
      rw [width, Cursor.skip_add]
      exact Cursor.position_le_skip _ _
    exact Span.contains_iff.2 ⟨rfl, Position.le_refl _, behind⟩
  | newline stands feed => cases reported
  | margin place made => cases reported
  | misaligned place =>
    rw [List.mem_singleton.1 reported]
    exact Span.contains_iff.2 ⟨rfl, Position.le_refl _, Position.le_refl _⟩

theorem report_written (reported : report ∈ item.reports) :
    Haskell.Layout.isAdded item.token = false := by
  rcases arises.report_kind reported with ⟨dedent, -, -⟩ | kind
  · rw [dedent]
    rfl
  · have written : ∀ token ∈ report.problem.tokens, Haskell.Layout.isAdded token = false := by
      cases report.problem <;> decide
    exact written item.token kind

theorem report_unterminated (reported : report ∈ item.reports)
    (problem : report.problem = .unterminatedLiteral) :
    (item.token = .string ∨ item.token = .character ∨ item.token = .comment) ∧
      report.span = item.span := by
  constructor
  · rcases arises.report_kind reported with ⟨-, -, misaligned⟩ | kind
    · simp [problem] at misaligned
    · simpa [problem, Problem.tokens] using kind
  · exact arises.report_whole reported (by simp [problem])

theorem report_malformed (reported : report ∈ item.reports)
    (problem : report.problem = .malformedNumber) : item.token = .integer := by
  rcases arises.report_kind reported with ⟨-, -, misaligned⟩ | kind
  · simp [problem] at misaligned
  · simpa [problem, Problem.tokens] using kind

theorem report_misaligned (reported : report ∈ item.reports)
    (problem : report.problem = .inconsistentIndentation) :
    item.token = .dedent ∧ item.span.isPoint = true ∧ report.span = item.span := by
  have whole := arises.report_whole reported (by simp [problem])
  rcases arises.report_kind reported with ⟨dedent, point, -⟩ | kind
  · exact ⟨dedent, point, whole⟩
  · simp [problem, Problem.tokens] at kind

/-- A character that starts no token is reported once, and nothing else is reported like it. -/
theorem unexpected_reported :
    (item.reports.filter fun report => report.problem = .unexpectedCharacter).map Diagnostic.span =
      if item.token = .invalid then [item.span] else [] := by
  by_cases invalid : item.token = .invalid
  · rw [if_pos invalid]
    cases arises with
    | @scanned cursor stands afterProper text =>
      have fair := language.scan_isFair afterProper cursor.ahead
      obtain ⟨defect, found⟩ := Option.ne_none_iff_exists'.1 (fair.invalid invalid)
      have kind := fair.kind defect found
      rw [show (language.scan afterProper cursor.ahead).token = .invalid from invalid] at kind
      have unexpected : defect.problem = .unexpectedCharacter := by
        cases problem : defect.problem <;> rw [problem] at kind <;> simp [Problem.tokens] at kind
      have whole := fair.whole defect found (by simp [unexpected])
      simp [Scan.lexed, found, unexpected, whole]
    | newline stands feed => cases invalid
    | margin place made => simp [Lexed.silent] at invalid; simp [invalid] at made
    | misaligned place => cases invalid
  · rw [if_neg invalid]
    have none : (item.reports.filter fun report => report.problem = .unexpectedCharacter) = [] := by
      apply List.filter_eq_nil_iff.2
      intro report reported
      rcases arises.report_kind reported with ⟨-, -, misaligned⟩ | kind
      · simp [misaligned]
      · intro unexpected
        rw [of_decide_eq_true unexpected] at kind
        exact invalid (List.mem_singleton.1 kind)
    rw [none, List.map_nil]

end Lexical.Lexed.Arises

/-- Token by token: characters that start no token are reported in their order. -/
theorem Lexical.unexpected_reported {language : Language} {file : FileId} {source : List Char}
    {items : List Lexed} (arise : ∀ item ∈ items, item.Arises language file source) :
    ((reportsOf items).filter fun report => report.problem = .unexpectedCharacter).map
        Diagnostic.span =
      ((items.map Lexed.located).filter fun found => found.1 = .invalid).map Prod.snd := by
  induction items with
  | nil => rfl
  | cons item later induction =>
    rw [List.forall_mem_cons] at arise
    have split : reportsOf (item :: later) = item.reports ++ reportsOf later := rfl
    rw [split, List.filter_append, List.map_append, arise.1.unexpected_reported,
      induction arise.2, List.map_cons, List.filter_cons]
    by_cases invalid : item.token = .invalid
    · simp [Lexed.located, invalid]
    · simp [Lexed.located, invalid]

namespace Language

variable {language : Language} {file : FileId} {source : List Char} {reading : Lexed}

/-- A token of a kind that layout never adds is handed out as it was read. -/
theorem located_mem_stream (read : reading ∈ language.readings file source)
    (written : Haskell.Layout.isAdded reading.token = false) :
    reading.located ∈
      ((TokenSource.ofText language source).stream file).items.map Lexed.located := by
  have same := @stream_filter language file source (fun token => !Haskell.Layout.isAdded token)
    (fun token added => by simp [added])
  have member : reading.located ∈
      ((language.readings file source).map Lexed.located).filter
        fun found => !Haskell.Layout.isAdded found.1 :=
    List.mem_filter.2 ⟨List.mem_map_of_mem read, by simp [Lexed.located, written]⟩
  rw [← same] at member
  exact (List.mem_filter.1 member).1

/-- What is reported follows the order of the text, as tokens do. -/
theorem reports_ordered (language : Language) (file : FileId) (source : List Char) :
    (reportsOf (language.readings file source)).Pairwise fun earlier later =>
      earlier.span.start ≤ later.span.start := by
  have arise := readings_arise language file source
  apply List.pairwise_flatMap.2
  constructor
  · intro reading read
    apply List.pairwise_of_forall_mem_list
    intro first member second another
    rw [(arise reading read).report_start member, (arise reading read).report_start another]
    exact Position.le_refl _
  · apply (readings_ordered language file source).imp_of_mem
    intro earlier later read readLater before first member second another
    rw [(arise earlier read).report_start member, (arise later readLater).report_start another]
    exact Position.le_trans (arise earlier read).forward before

/-- What is reported of a literal was found when the literal was read. -/
theorem reported_iff {report : Diagnostic} (read : reading ∈ language.readings file source)
    (wide : reading.span.isPoint = false) (starts : report.span.start = reading.span.start)
    (problem : report.problem = .unterminatedLiteral ∨ report.problem = .malformedNumber) :
    report ∈ reportsOf (language.readings file source) ↔ report ∈ reading.reports := by
  constructor
  · intro reported
    obtain ⟨other, among, own⟩ := List.mem_flatMap.1 reported
    have arises := readings_arise language file source other among
    have recorded : (Lexeme.Category.ofToken? other.token).isSome = true := by
      rcases problem with unterminated | malformed
      · rcases (arises.report_unterminated own unterminated).1 with kind | kind | kind <;>
          rw [kind] <;> rfl
      · rw [arises.report_malformed own malformed]
        rfl
    have same := reading_unique among read (wide_of_reading among recorded) wide
      ((arises.report_start own).symm.trans starts)
    rwa [same] at own
  · exact fun own => List.mem_flatMap.2 ⟨reading, read, own⟩

end Language

/-- The reports of a text read with its comments are anchored in its tokens: they follow one another as
tokens do, an unexpected character is reported for every invalid token and for nothing else, and every
other report stands at a token that may have the problem. -/
theorem reports_anchored (language : Language) (source : List Char) (context : Context) :
    let lexed :=
      ({ context with keepComments := true, diagnostics := #[] } : Context).lex language source
    let reported := lexed.2.diagnostics.toList
    (reported.Pairwise fun earlier later => earlier.span.start ≤ later.span.start) ∧
      (reported.filter fun report => report.problem = .unexpectedCharacter).map Diagnostic.span =
        (lexed.1.filter fun found => found.1 = .invalid).map Prod.snd ∧
      ∀ report ∈ reported,
        (report.problem = .unterminatedLiteral →
          ∃ token, (token = .string ∨ token = .character ∨ token = .comment) ∧
            (token, report.span) ∈ lexed.1) ∧
        (report.problem = .malformedNumber →
          ∃ span, (.integer, span) ∈ lexed.1 ∧ span.start = report.span.start ∧
            span.contains report.span = true) ∧
        (report.problem = .inconsistentIndentation →
          report.span.isPoint = true ∧ (.dedent, report.span) ∈ lexed.1) := by
  intro lexed reported
  have reports : reported = reportsOf (language.readings context.file source) :=
    language.reports_lex source rfl
  have tokens : lexed.1 =
      ((TokenSource.ofText language source).stream context.file).items.map Lexed.located := by
    simp [lexed, Context.lex, Lexed.located]
  have arise := language.readings_arise context.file source
  have same := @language.stream_filter context.file source (fun token => token = .invalid)
    (fun token added => by
      apply decide_eq_false
      rintro rfl
      cases added)
  constructor
  · rw [reports]
    exact language.reports_ordered _ _
  constructor
  · rw [reports, tokens, same]
    exact Lexical.unexpected_reported arise
  intro report member
  rw [reports] at member
  obtain ⟨reading, read, reported⟩ := List.mem_flatMap.1 member
  have arises := arise reading read
  have handed : (reading.token, reading.span) ∈ lexed.1 := by
    rw [tokens]
    exact language.located_mem_stream read (arises.report_written reported)
  refine ⟨fun unterminated => ?_, fun malformed => ?_, fun misaligned => ?_⟩
  · obtain ⟨kind, whole⟩ := arises.report_unterminated reported unterminated
    rw [whole]
    exact ⟨reading.token, kind, handed⟩
  · rw [arises.report_malformed reported malformed] at handed
    exact ⟨reading.span, handed, (arises.report_start reported).symm,
      arises.report_within reported⟩
  · obtain ⟨dedent, point, whole⟩ := arises.report_misaligned reported misaligned
    rw [dedent] at handed
    rw [whole]
    exact ⟨point, handed⟩

end Offside
