import Offside.Proofs.Lexical.Anchors
import Offside.Proofs.Literals.Numbers
import Offside.Proofs.Literals.Strings

/-!
Literals in whole texts. A number is read where one starts, and it is the longest that starts there; it
is reported when it announces a radix and no digits follow. A string is read where an opening stands,
ends where its form says and is reported when nothing closes it, and reading goes on behind it.
-/

namespace Offside

set_option autoImplicit false

open Offside.Lexical

namespace Language

def numbers : Language → RegularExpression Char
  | .python => Python.numbers
  | .haskell => Haskell.numbers

def floatMarks : Language → List Char
  | .python => Python.floatMarks
  | .haskell => Haskell.floatMarks

variable {language : Language} {text : List Char}

theorem scan_isNumber (afterProper : Bool)
    (number : ∃ literal, literal <+: text ∧ literal ∈ language.numbers.matches') :
    (language.scan afterProper text).IsNumber language.numbers language.floatMarks text := by
  cases language with
  | python =>
    have starts : Python.startsNumber text = true := Python.startsNumber_iff.2 number
    rw [scan, if_neg (Python.no_comment_of_number starts), Python.scan, if_pos starts]
    exact Python.scanNumber_isNumber starts
  | haskell =>
    have starts : leads Char.isDigit text = true := Haskell.leads_digit_iff.2 number
    rw [scan, Haskell.scan_of_digit afterProper starts]
    exact Haskell.scanNumber_isNumber starts

theorem number_of_scan {afterProper : Bool}
    (scanned : (language.scan afterProper text).token = .integer ∨
      (language.scan afterProper text).token = .float) :
    ∃ literal, literal <+: text ∧ literal ∈ language.numbers.matches' := by
  cases language with
  | python =>
    simp only [scan] at scanned
    split at scanned
    · exact absurd scanned (by decide : ¬(Token.comment = .integer ∨ Token.comment = .float))
    · exact Python.startsNumber_iff.1 (Python.startsNumber_of_scan scanned)
  | haskell => exact Haskell.leads_digit_iff.1 (Haskell.leads_digit_of_scan scanned)

theorem no_number_of_feed (rest : List Char) :
    ¬∃ literal, literal <+: '\n' :: rest ∧ literal ∈ language.numbers.matches' := by
  intro number
  cases language with
  | python => cases Python.startsNumber_iff.2 number
  | haskell => cases Haskell.leads_digit_iff.2 number

end Language

/-- A token of some width is a number just where a literal of the language starts. It is then the
longest that starts there, and a float just when it is decimal and has a point, an exponent or the mark
of an imaginary number. -/
theorem numbers_longest (language : Language) (source : List Char) (context : Context) :
    ∀ token span, (token, span) ∈ (context.lex language source).1 → span.isPoint = false →
      ∃ front text, source = front ++ text ∧ span.start = Position.origin.afterAll front ∧
        ((token = .integer ∨ token = .float) ↔
          ∃ literal, literal <+: text ∧ literal ∈ language.numbers.matches') ∧
        ((token = .integer ∨ token = .float) →
          ∃ literal, IsLongestMatch language.numbers text literal ∧
            span.stop = Position.origin.afterAll (front ++ literal) ∧
            (token = .float ↔
              ¬HasRadix literal ∧ ∃ character ∈ literal, character ∈ language.floatMarks)) := by
  intro token span lexed wide
  obtain ⟨cursor, stands, starts, origin⟩ := language.scanned_of_wide lexed wide
  refine ⟨cursor.behind.reverse, cursor.ahead, stands.text.symm, starts.trans stands.position, ?_⟩
  rcases origin with ⟨rest, feed, rfl⟩ | ⟨afterProper, text, -, rfl, rfl⟩
  · rw [feed]
    have none := language.no_number_of_feed rest
    have other : ¬(Token.newline = .integer ∨ Token.newline = .float) := by decide
    exact ⟨iff_of_false other none, fun number => absurd number other⟩
  · constructor
    · constructor
      · exact language.number_of_scan
      · intro number
        exact (language.scan_isNumber afterProper number).kind
    · intro scanned
      have number := language.scan_isNumber afterProper (language.number_of_scan scanned)
      refine ⟨_, number.longest, ?_, number.float⟩
      rw [spanAhead, Cursor.position_skip, stands.position, Position.afterAll_append]

/-- In `1.e5j` the exponent belongs to the number although no digit follows the point. -/
theorem numbers_longest_exponent :
    let source := "1.e5j".toList
    let span : Span := ⟨.single, ⟨0, 0⟩, ⟨0, 5⟩⟩
    (Token.float, span) ∈ (({} : Context).lex .python source).1 ∧ span.isPoint = false ∧
      ∃ front text, source = front ++ text ∧ span.start = Position.origin.afterAll front ∧
        ∃ literal, IsLongestMatch Language.python.numbers text literal ∧
          span.stop = Position.origin.afterAll (front ++ literal) := by
  intro source span
  have lexed : (Token.float, span) ∈ (({} : Context).lex .python source).1 := by decide +kernel
  have wide : span.isPoint = false := by decide
  obtain ⟨front, text, split, starts, -, number⟩ :=
    numbers_longest .python source {} .float span lexed wide
  obtain ⟨literal, longest, stops, -⟩ := number (.inr rfl)
  exact ⟨lexed, wide, front, text, split, starts, literal, longest, stops⟩

namespace Lexical

/-- A radix is announced and nothing follows that may stand among its digits. -/
def LacksDigits (separators literal : List Char) : Prop :=
  ∃ radix : Text.Radix, ∃ letter ∈ radix.letters, ∃ rest, literal = '0' :: letter :: rest ∧
    ∀ character ∈ rest, character ∉ radix.digits ++ separators

variable {accepts : Char → Bool} {text separators : List Char} {radix : Text.Radix}

/-- No characters are accepted at the start of a text just when none are among those read, if what is
read behind them is not accepted. -/
theorem length_takeWhile_eq_zero_iff {more : Nat}
    (apart : ∀ character ∈ (text.drop (text.takeWhile accepts).length).take more,
      accepts character = false) :
    (text.takeWhile accepts).length = 0 ↔
      ∀ character ∈ text.take ((text.takeWhile accepts).length + more), accepts character = false := by
  constructor
  · intro none
    rw [none, Nat.zero_add]
    rw [none, List.drop_zero] at apart
    exact apart
  · intro refused
    apply Classical.byContradiction
    intro some
    obtain ⟨first, rest, found⟩ := List.exists_cons_of_length_pos (Nat.pos_of_ne_zero some)
    have read : first ∈ text.take ((text.takeWhile accepts).length + more) := by
      rw [List.take_add, take_takeWhile, found]
      exact List.mem_append_left _ List.mem_cons_self
    have accepted : accepts first = true := by
      apply List.mem_takeWhile_imp
      rw [found]
      exact List.mem_cons_self
    rw [refused first read] at accepted
    cases accepted

theorem lacksDigits_iff {letter : Char} {rest : List Char} {more : Nat}
    (known : ∀ character, accepts character = true ↔ character ∈ radix.digits ++ separators)
    (announced : letter ∈ radix.letters)
    (apart : ∀ character ∈ (rest.drop (rest.takeWhile accepts).length).take more,
      accepts character = false) :
    LacksDigits separators ('0' :: letter :: rest.take ((rest.takeWhile accepts).length + more)) ↔
      (rest.takeWhile accepts).length = 0 := by
  rw [length_takeWhile_eq_zero_iff apart]
  constructor
  · rintro ⟨other, same, among, later, split, lacking⟩ character read
    cases split
    cases radix_unique among announced
    rw [← Bool.not_eq_true, known]
    exact lacking character read
  · intro refused
    refine ⟨radix, letter, announced, _, rfl, fun character read digit => ?_⟩
    have accepted := (known character).2 digit
    rw [refused character read] at accepted
    cases accepted

theorem LacksDigits.hasRadix (lacking : LacksDigits separators text) : HasRadix text := by
  obtain ⟨radix, letter, announced, rest, split, -⟩ := lacking
  exact ⟨radix, letter, announced, rest, split⟩

/-- A scan that reports the integer it read just when this lacks digits. -/
def Scan.ReportsLack (scan : Scan) (separators text : List Char) : Prop :=
  (∃ defect ∈ scan.defect, defect.problem = .malformedNumber) ↔
    LacksDigits separators (text.take scan.width)

namespace Scan

variable {scan : Scan}

theorem reportsLack_of_digits {digits : Nat}
    (reports : scan.defect = if digits = 0 then some ⟨.malformedNumber, 2⟩ else none)
    (lacking : LacksDigits separators (text.take scan.width) ↔ digits = 0) :
    scan.ReportsLack separators text := by
  rw [ReportsLack, lacking, reports]
  by_cases none : digits = 0
  · simp [none]
  · simp [none]

theorem reportsLack_of_plain (sound : scan.defect = none) (plain : radixOf? text = none) :
    scan.ReportsLack separators text := by
  apply iff_of_false
  · rintro ⟨defect, found, -⟩
    rw [sound] at found
    cases found
  · exact fun lacking => not_hasRadix_take plain scan.width lacking.hasRadix

end Scan

end Lexical

def Language.separators : Language → List Char
  | .python => ['_']
  | .haskell => []

theorem Python.scanNumber_reportsLack (text : List Char) : (scanNumber text).ReportsLack ['_'] text := by
  unfold scanNumber
  split
  · rename_i radix found
    obtain ⟨letter, announced, rest, rfl⟩ := radixOf?_iff.1 found
    apply Scan.reportsLack_of_digits rfl
    rw [scanRadix_width]
    apply lacksDigits_iff (isRadixDigit_iff · radix) announced
    intro character read
    have apart : ∀ letter ∈ ['l', 'L'], letter ∉ radix.digits ++ ['_'] :=
      List.all_iff_forall_prop.1 (by cases radix <;> decide)
    have mark := mem_of_mark (mark_matches isLongMark_iff _) character read
    rw [← Bool.not_eq_true, isRadixDigit_iff]
    exact apart character mark
  · rename_i plain
    apply Scan.reportsLack_of_plain _ plain
    rcases scanDecimal_cases text with ⟨-, scan⟩ | ⟨-, ⟨-, scan⟩ | ⟨-, -, scan⟩⟩
    · exact congrArg Scan.defect scan
    · exact congrArg Scan.defect scan
    · exact congrArg Scan.defect scan

theorem Haskell.scanNumber_reportsLack (text : List Char) : (scanNumber text).ReportsLack [] text := by
  unfold scanNumber
  split
  · rename_i radix found
    obtain ⟨letter, announced, rest, rfl⟩ := radixOf?_iff.1 found
    apply Scan.reportsLack_of_digits rfl
    have width : (scanRadix radix ('0' :: letter :: rest)).width =
        (rest.takeWhile radix.isDigit).length + 0 + 2 := Nat.add_comm _ _
    have nothing : ∀ character ∈ (rest.drop (rest.takeWhile radix.isDigit).length).take 0,
        radix.isDigit character = false := by
      rw [List.take_zero]
      exact List.forall_mem_nil _
    rw [width]
    exact lacksDigits_iff (isRadixDigit_iff radix) announced nothing
  · exact Scan.reportsLack_of_plain rfl ‹_›

namespace Language

variable {language : Language} {text : List Char}

theorem scan_reportsLack {afterProper : Bool}
    (scanned : (language.scan afterProper text).token = .integer) :
    (language.scan afterProper text).ReportsLack language.separators text := by
  have number := language.number_of_scan (.inl scanned)
  cases language with
  | python =>
    have starts : Python.startsNumber text = true := Python.startsNumber_iff.2 number
    rw [scan, if_neg (Python.no_comment_of_number starts), Python.scan, if_pos starts]
    exact Python.scanNumber_reportsLack text
  | haskell =>
    have starts : leads Char.isDigit text = true := Haskell.leads_digit_iff.2 number
    rw [scan, Haskell.scan_of_digit afterProper starts]
    exact Haskell.scanNumber_reportsLack text

end Language

/-- An integer is reported as malformed just when it announces a radix and nothing follows that may
stand among the digits of this radix. Nothing else is reported like that. -/
theorem malformed_lacks_digits (language : Language) (source : List Char) (context : Context) :
    let lexed := ({ context with diagnostics := #[] } : Context).lex language source
    let malformed := lexed.2.diagnostics.toList.filter fun report => report.problem = .malformedNumber
    (∀ report ∈ malformed, ∃ span, (.integer, span) ∈ lexed.1 ∧ span.start = report.span.start) ∧
      ∀ span, (.integer, span) ∈ lexed.1 →
        ∃ literal, span.slice? source = some literal ∧
          ((∃ report ∈ malformed, report.span.start = span.start) ↔
            LacksDigits language.separators literal) := by
  intro lexed malformed
  have reports : lexed.2.diagnostics.toList = reportsOf (language.readings context.file source) :=
    language.reports_lex source rfl
  constructor
  · intro report member
    obtain ⟨reported, problem⟩ := List.mem_filter.1 member
    rw [reports] at reported
    obtain ⟨reading, read, own⟩ := List.mem_flatMap.1 reported
    have arises := language.readings_arise context.file source reading read
    have handed := language.located_mem_stream read (arises.report_written own)
    rw [Lexed.located, arises.report_malformed own (of_decide_eq_true problem)] at handed
    exact ⟨reading.span, mem_lex.2 ⟨handed, by simp⟩, (arises.report_start own).symm⟩
  intro span member
  have wide : span.isPoint = false := language.wide_of_lexed member rfl
  obtain ⟨cursor, stands, starts, origin⟩ := language.scanned_of_wide member wide
  rcases origin with ⟨rest, feed, newline⟩ | ⟨afterProper, text, read, integer, rfl⟩
  · cases newline
  refine ⟨_, stands.slice?_ahead context.file _, ?_⟩
  refine Iff.trans ?_ (language.scan_reportsLack integer.symm)
  constructor
  · rintro ⟨report, reported, here⟩
    obtain ⟨member, problem⟩ := List.mem_filter.1 reported
    rw [reports, language.reported_iff read wide here (.inr (of_decide_eq_true problem))] at member
    obtain ⟨defect, found, rfl⟩ := List.mem_map.1 member
    exact ⟨defect, Option.mem_toList.1 found, of_decide_eq_true problem⟩
  · rintro ⟨defect, found, problem⟩
    refine ⟨⟨defect.problem, spanAhead context.file cursor defect.width⟩, ?_, rfl⟩
    apply List.mem_filter.2
    rw [reports, language.reported_iff read wide (by rfl) (.inr problem)]
    exact ⟨List.mem_map.2 ⟨defect, Option.mem_toList.2 found, rfl⟩, decide_eq_true problem⟩

/-- The separator in `0x_` is no digit, but it is read as one: the number has none and is not
reported. -/
theorem separator_hides_lack :
    let source := "0x_".toList
    let lexed := ({} : Context).lex .python source
    let span : Span := ⟨.single, ⟨0, 0⟩, ⟨0, 3⟩⟩
    (Token.integer, span) ∈ lexed.1 ∧ span.slice? source = some source ∧
      ¬((∃ report ∈ lexed.2.diagnostics.toList,
          report.problem = .malformedNumber ∧ report.span.start = span.start) ↔
        LacksDigits [] source) := by
  intro source lexed span
  have member : (Token.integer, span) ∈ lexed.1 := by decide +kernel
  have slice : span.slice? source = some source := by decide +kernel
  have silent : lexed.2.diagnostics.toList = [] := by decide +kernel
  have lacking : LacksDigits [] source :=
    ⟨.hexadecimal, 'x', by decide, ['_'], by decide, List.all_iff_forall_prop.1 (by decide)⟩
  refine ⟨member, slice, fun claimed => ?_⟩
  obtain ⟨report, reported, -⟩ := claimed.2 lacking
  rw [silent] at reported
  cases reported

theorem Cursor.Stands.ahead_eq {source : List Char} {cursor other : Cursor}
    (stands : cursor.Stands source) (standsToo : other.Stands source)
    (same : cursor.position = other.position) : cursor.ahead = other.ahead := by
  have split : cursor.behind.reverse ++ cursor.ahead = other.behind.reverse ++ other.ahead :=
    stands.text.trans standsToo.text.symm
  rw [stands.position, standsToo.position] at same
  rcases List.append_eq_append_iff.1 split with ⟨between, behind, ahead⟩ | ⟨between, behind, ahead⟩
  · cases between with
    | nil => exact ahead
    | cons character back =>
      rw [behind] at same
      exact absurd same (Position.ne_of_lt (Position.afterAll_lt _))
  · cases between with
    | nil => exact ahead.symm
    | cons character back =>
      rw [behind] at same
      exact absurd same.symm (Position.ne_of_lt (Position.afterAll_lt _))

/-- What is shown behind a token is what is shown of the tokens behind it. -/
theorem Lexical.Reader.exists_of_shown {keepComments : Bool} {items : List Lexed}
    {earlier later : List (Token × Span)} {found : Token × Span}
    (split : Reader.shown keepComments items = earlier ++ found :: later) :
    ∃ front item back, items = front ++ item :: back ∧ item.located = found ∧
      later = Reader.shown keepComments back := by
  obtain ⟨first, rest, shown, -, others⟩ := List.map_eq_append_iff.1 split
  obtain ⟨item, last, rfl, located, rfl⟩ := List.map_eq_cons_iff.1 others
  obtain ⟨front, more, rfl, -, shownMore⟩ := List.filter_eq_append_iff.1 shown
  obtain ⟨skipped, back, rfl, -, -, rfl⟩ := List.filter_eq_cons_iff.1 shownMore
  exact ⟨front ++ skipped, item, back, (List.append_assoc _ _ _).symm, located, rfl⟩

namespace Language

variable {language : Language} {opening body : List Char} {form : StringForm}

/-- Behind a word that is shown, what is shown of the text behind it. -/
theorem exists_left {context : Context} {source : List Char} {earlier later : List (Token × Span)}
    {found : Token × Span}
    (split : (context.lex language source).1 = earlier ++ found :: later) (word : found.1.IsWord) :
    ∃ cursor afterProper rest, language.Passes context.file source found cursor afterProper rest ∧
      ∃ left : TokenSource, left.ReadsOn rest ∧
        later = Reader.shown context.keepComments (left.stream context.file).items := by
  obtain ⟨front, item, back, items, rfl, rfl⟩ := Reader.exists_of_shown split
  obtain ⟨cursor, afterProper, rest, passes, left, readsOn, behind⟩ :=
    language.exists_passes word items
  exact ⟨cursor, afterProper, rest, passes, left, readsOn, congrArg _ behind⟩

/-- What stands in front of a string makes no difference to it. -/
theorem scan_opening_eq (opens : Opens language opening body form) (afterProper other : Bool) :
    language.scan afterProper (opening ++ body) = language.scan other (opening ++ body) := by
  cases opens with
  | single known mark alone => rfl
  | triple body known mark => rfl
  | haskell body =>
    rw [List.singleton_append, scan, scan, Haskell.scan_string, Haskell.scan_string]

theorem not_opens_of_feed {rest : List Char} (split : '\n' :: rest = opening ++ body) :
    ¬Opens language opening body form := by
  intro opens
  cases opens with
  | single known mark alone =>
    rw [List.append_assoc] at split
    exact Python.feed_ne_opening known mark rest split
  | triple body known mark =>
    rw [List.append_assoc] at split
    exact Python.feed_ne_opening known mark rest split
  | haskell body => cases split

end Language

/-- A token of some width is a string just where an opening stands. It then ends behind the first
unescaped closing quotes, or in front of the first stop if this comes first, which is reported. What
follows is what is read of the text behind the string, without the line break that cut it off if the
language reads this together with the string. -/
theorem strings_end (language : Language) (source : List Char) (context : Context) :
    let lexed := ({ context with diagnostics := #[] } : Context).lex language source
    ∀ earlier token span later, lexed.1 = earlier ++ (token, span) :: later → span.isPoint = false →
      ∃ front text, source = front ++ text ∧ span.start = Position.origin.afterAll front ∧
        (token = .string ↔
          ∃ opening body form, text = opening ++ body ∧ language.Opens opening body form) ∧
        ∀ opening body form, text = opening ++ body → language.Opens opening body form →
          ∃ width closed, form.Ends body width closed ∧
            span.stop = Position.origin.afterAll (front ++ opening ++ body.take width) ∧
            (⟨.unterminatedLiteral, span⟩ ∈ lexed.2.diagnostics.toList ↔ closed = false) ∧
            ∃ left : TokenSource,
              left.ReadsOn (body.drop (width + if closed then 0 else form.consumed (body.drop width))) ∧
              later = Reader.shown context.keepComments (left.stream context.file).items := by
  intro lexed earlier token span later split wide
  have member : (token, span) ∈ lexed.1 := by
    rw [split]
    exact List.mem_append_right _ List.mem_cons_self
  obtain ⟨cursor, stands, starts, origin⟩ := language.scanned_of_wide member wide
  refine ⟨cursor.behind.reverse, cursor.ahead, stands.text.symm, starts.trans stands.position, ?_⟩
  rcases origin with ⟨rest, feed, rfl⟩ | ⟨afterProper, text, read, rfl, rfl⟩
  · rw [feed]
    constructor
    · apply iff_of_false (by decide)
      rintro ⟨opening, body, form, ahead, opens⟩
      exact language.not_opens_of_feed ahead opens
    · intro opening body form ahead opens
      exact absurd opens (language.not_opens_of_feed ahead)
  · constructor
    · constructor
      · exact language.exists_opens_of_scan
      · rintro ⟨opening, body, form, ahead, opens⟩
        rw [ahead]
        obtain ⟨width, closed, -, token, -⟩ := language.scan_isString afterProper opens
        exact token
    · intro opening body form ahead opens
      obtain ⟨width, closed, ends, string, whole, absorbed, defect⟩ :=
        language.scan_isString afterProper opens
      rw [← ahead] at string whole absorbed defect
      refine ⟨width, closed, ends, ?_, ?_, ?_⟩
      · rw [spanAhead, Cursor.position_skip, stands.position, ← Position.afterAll_append, whole, ahead,
          List.take_length_add_append, List.append_assoc]
      · have reports : lexed.2.diagnostics.toList =
            reportsOf (language.readings context.file source) :=
          language.reports_lex source rfl
        rw [reports, language.reported_iff read wide (by rfl) (.inl rfl)]
        simp only [Scan.lexed, defect]
        cases closed with
        | true => simp
        | false => simp
      · have word : (language.scan afterProper cursor.ahead).token.IsWord := by
          rw [string]
          exact ⟨rfl, by decide⟩
        obtain ⟨other, otherProper, rest, passes, left, readsOn, follows⟩ :=
          language.exists_left split word
        have place : other.position = cursor.position :=
          congrArg Span.start passes.span.symm
        have same : other.ahead = opening ++ body :=
          (passes.stands.ahead_eq stands place).trans ahead
        refine ⟨left, ?_, follows⟩
        have behind := passes.rest
        rw [same, language.scan_opening_eq opens otherProper afterProper, ← ahead, whole, absorbed,
          ahead, Nat.add_assoc, List.drop_length_add_append] at behind
        rwa [behind] at readsOn

/-- A quote behind a backslash closes nothing, so its line cuts the string off. -/
theorem strings_end_escaped_quote :
    let source := "'a\\'b\nc".toList
    let lexed := ({} : Context).lex .python source
    let span : Span := ⟨.single, ⟨0, 0⟩, ⟨0, 5⟩⟩
    lexed.1 = [] ++ (Token.string, span) :: lexed.1.tail ∧ span.isPoint = false ∧
      ⟨.unterminatedLiteral, span⟩ ∈ lexed.2.diagnostics.toList ∧
      ∃ front opening body form width, source = front ++ (opening ++ body) ∧
        Language.python.Opens opening body form ∧ form.Ends body width false ∧
        span.stop = Position.origin.afterAll (front ++ opening ++ body.take width) := by
  intro source lexed span
  have split : lexed.1 = [] ++ (Token.string, span) :: lexed.1.tail := by decide +kernel
  have wide : span.isPoint = false := by decide
  have reported : ⟨.unterminatedLiteral, span⟩ ∈ lexed.2.diagnostics.toList := by decide +kernel
  obtain ⟨front, text, whole, -, string, ends⟩ :=
    strings_end .python source {} [] .string span lexed.1.tail split wide
  obtain ⟨opening, body, form, rfl, opens⟩ := string.1 rfl
  obtain ⟨width, closed, found, stops, unclosed, -⟩ := ends opening body form rfl opens
  rw [unclosed.1 reported] at found
  exact ⟨split, wide, reported, front, opening, body, form, width, whole, opens, found, stops⟩

end Offside
