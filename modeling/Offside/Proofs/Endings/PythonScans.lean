import Mathlib.Data.List.Find
import Mathlib.Tactic.ByContra
import Offside.Proofs.Endings.Widths
import Offside.Python.Scan

/-!
Tokens of Python with the other line ends. Every token is found again, and behind it stands the same
text again, unless the token is a string of one line in which a backslash cancels a line feed: of the
two characters of the other line end the backslash takes the first alone. Between triple quotes the
second is one more character of the string.
-/

namespace Offside.Python

set_option autoImplicit false

open Lexical Text

theorem fractionWidth_within : WithinLine fractionWidth := .marked_run (by decide) (by decide)

theorem longMarkWidth_within : WithinLine longMarkWidth := .mark (by decide)

theorem scanRadix_reads {text : List Char} {radix : Text.Radix}
    (announced : radixOf? text = some radix) : ReadsLine (scanRadix radix) text := by
  have two := two_le_firstLine announced
  have stays : StaysInLine fun character => radix.isDigit character || character == '_' := by
    cases radix <;> decide
  have digits := length_takeWhile_le_firstLine stays (text.drop 2)
  have mark := longMarkWidth_within.within ((text.drop 2).drop
    ((text.drop 2).takeWhile fun character => radix.isDigit character || character == '_').length)
  rw [← drop_firstLine digits, ← drop_firstLine two] at mark
  rw [← drop_firstLine two] at digits
  constructor
  · simp only [scanRadix, ← List.drop_drop]
    rw [drop_firstLine two, takeWhile_firstLine stays,
      drop_firstLine (length_takeWhile_le_firstLine stays _), longMarkWidth_within.same]
  · simp only [scanRadix, ← List.drop_drop]
    simp only [List.length_drop] at digits mark
    omega

theorem scanDecimal_reads (text : List Char) : ReadsLine scanDecimal text := by
  have stays : StaysInLine isDigitOrUnderscore := by decide
  have whole := WithinLine.run stays
  have fraction := whole.followed fractionWidth_within
  have decimal := fraction.followed (exponentWidth_within stays)
  have mark := (decimal.followed (WithinLine.mark (show StaysInLine isImaginaryMark by decide)))
  have long := (decimal.followed longMarkWidth_within)
  have decimalWithin := decimal.within text
  have markWithin := mark.within text
  have longWithin := long.within text
  have behindWhole := whole.drop text
  have behindFraction := fraction.drop text
  have behindDecimal := decimal.drop text
  constructor
  · simp only [scanDecimal, takeWhile_firstLine stays, behindWhole, fractionWidth_within.same,
      behindFraction, (exponentWidth_within stays).same, behindDecimal, longMarkWidth_within.same,
      leads_firstLine (show StaysInLine isImaginaryMark by decide)]
  · simp only [scanDecimal]
    split
    · rename_i marked
      rw [if_pos marked] at markWithin
      exact markWithin
    · split
      · exact decimalWithin
      · exact longWithin

theorem scanNumber_reads (text : List Char) : ReadsLine scanNumber text :=
  .number (fun text radix announced => by rw [scanNumber, announced])
    (fun text unannounced => by rw [scanNumber, unannounced])
    (fun _ announced => scanRadix_reads announced) (scanDecimal_reads text)

theorem startsNumber_firstLine (text : List Char) :
    startsNumber (firstLine text) = startsNumber text := by
  have digit : StaysInLine Char.isDigit := by decide
  have point : StaysInLine (· == '.') := by decide
  unfold startsNumber
  rw [leads_firstLine digit, leads_firstLine point]
  cases led : leads (· == '.') text with
  | false => rfl
  | true =>
    rw [drop_firstLine (length_firstLine_pos point led), leads_firstLine digit]

theorem scanWord_reads (text : List Char) : ReadsLine scanWord text where
  same := by
    unfold scanWord
    rw [takeWhile_firstLine (by decide)]
  within := length_takeWhile_le_firstLine (by decide) text

theorem symbols_inLine :
    ∀ entry ∈ symbols, ∀ character ∈ entry.1.toList, isInLine character = true := by
  have all : symbols.all (fun entry => entry.1.toList.all isInLine) = true := by decide +kernel
  intro entry member character among
  exact List.all_eq_true.1 (List.all_eq_true.1 all entry member) character among

theorem symbolAhead_firstLine (text : List Char) :
    (symbols.find? fun (spelling, _) => spelling.toList.isPrefixOf (firstLine text)) =
      symbols.find? fun (spelling, _) => spelling.toList.isPrefixOf text :=
  List.find?_congr fun entry member => isPrefixOf_firstLine (symbols_inLine entry member) text

theorem scanSymbol_reads {text : List Char} (remains : firstLine text ≠ []) :
    ReadsLine scanSymbol text := by
  constructor
  · unfold scanSymbol
    rw [symbolAhead_firstLine]
  · rw [← List.length_pos_iff] at remains
    unfold scanSymbol
    rw [← symbolAhead_firstLine]
    split
    · rename_i spelling token matched
      have front := List.find?_some matched
      exact (List.isPrefixOf_iff_prefix.1 front).length_le
    · exact remains

theorem isInLine_of_isQuote {character : Char} (quote : isQuote character = true) :
    isInLine character = true :=
  StaysInLine.isInLine (show StaysInLine isQuote by decide) quote

theorem isPrefixLetter_of_pair {first second : Char} (pair : isPrefixPair first second = true) :
    isPrefixLetter first = true ∧ isPrefixLetter second = true := by
  simp only [isPrefixPair, Bool.or_eq_true, Bool.and_eq_true, beq_iff_eq] at pair
  rcases pair with ⟨rfl, (rfl | rfl) | rfl⟩ | ⟨rfl, rfl | rfl⟩ <;> decide

theorem prefixLetter_plain {letter : Char} (prefixed : isPrefixLetter letter.toLower = true) :
    isQuote letter = false ∧ isInLine letter = true := by
  have stays : StaysInLine fun letter => isPrefixLetter letter.toLower := by decide
  refine ⟨?_, stays.isInLine prefixed⟩
  cases quote : isQuote letter with
  | false => rfl
  | true =>
    simp only [isQuote, Bool.or_eq_true, beq_iff_eq] at quote
    rcases quote with rfl | rfl <;> cases prefixed

/-- A string starts with at most two letters and a quote. -/
theorem stringPrefixWidth?_shape {text : List Char} {prefixWidth : Nat}
    (string : stringPrefixWidth? text = some prefixWidth) :
    ∃ front quote rest, text = front ++ quote :: rest ∧ front.length = prefixWidth ∧
      isQuote quote = true ∧
        ∀ character ∈ front, isQuote character = false ∧ isInLine character = true := by
  unfold stringPrefixWidth? at string
  split at string
  · cases string
  · rename_i first rest
    split at string
    · rename_i quote
      cases string
      exact ⟨[], first, rest, rfl, rfl, quote, by simp⟩
    · split at string
      · rename_i one
        cases string
        obtain ⟨letter, led⟩ := Bool.and_eq_true_iff.1 one
        cases rest with
        | nil => cases led
        | cons quote rest =>
          exact ⟨[first], quote, rest, rfl, rfl, by simpa [leads] using led,
            by simp [prefixLetter_plain letter]⟩
      · split at string
        · rename_i second more _
          split at string
          · rename_i two
            cases string
            obtain ⟨pair, led⟩ := Bool.and_eq_true_iff.1 two
            have letters := isPrefixLetter_of_pair pair
            cases more with
            | nil => cases led
            | cons quote rest =>
              exact ⟨[first, second], quote, rest, rfl, rfl, by simpa [leads] using led,
                by simp [prefixLetter_plain letters.1, prefixLetter_plain letters.2]⟩
          · cases string
        · cases string

theorem isPrefixPair_of_break {second : Char} (isBreak : isInLine second = false) (first : Char) :
    isPrefixPair first second.toLower = false := by
  simp only [isInLine, Bool.and_eq_false_iff, bne_eq_false_iff_eq] at isBreak
  have lineFeed : '\n'.toLower = '\n' := by decide
  have carriageReturn : '\r'.toLower = '\r' := by decide
  rcases isBreak with rfl | rfl
  · simp [isPrefixPair, lineFeed]
  · simp [isPrefixPair, carriageReturn]

theorem stringPrefixWidth?_of_break {first : Char} (isBreak : isInLine first = false)
    (rest : List Char) : stringPrefixWidth? (first :: rest) = none := by
  have stays : StaysInLine fun letter => isQuote letter || isPrefixLetter letter.toLower := by
    decide
  have plain : (isQuote first || isPrefixLetter first.toLower) = false := by
    cases accepted : isQuote first || isPrefixLetter first.toLower with
    | false => rfl
    | true =>
      rw [stays.isInLine accepted] at isBreak
      cases isBreak
  obtain ⟨noQuote, noLetter⟩ := Bool.or_eq_false_iff.1 plain
  have noPair : ∀ second, isPrefixPair first.toLower second = false := by
    intro second
    cases pair : isPrefixPair first.toLower second with
    | false => rfl
    | true =>
      rw [(isPrefixLetter_of_pair pair).1] at noLetter
      cases noLetter
  cases rest with
  | nil => simp [stringPrefixWidth?, noQuote, noLetter]
  | cons second more => simp [stringPrefixWidth?, noQuote, noLetter, noPair]

theorem stringPrefixWidth?_firstLine (text : List Char) :
    stringPrefixWidth? (firstLine text) = stringPrefixWidth? text := by
  cases text with
  | nil => rfl
  | cons first rest =>
    cases inLine : isInLine first with
    | false =>
      rw [firstLine_of_break inLine, stringPrefixWidth?_of_break inLine]
      rfl
    | true =>
      rw [firstLine_cons inLine]
      unfold stringPrefixWidth?
      simp only [leads_firstLine (show StaysInLine isQuote by decide)]
      cases rest with
      | nil => rfl
      | cons second more =>
        cases kept : isInLine second with
        | true =>
          simp only [firstLine_cons kept,
            leads_firstLine (show StaysInLine isQuote by decide)]
        | false =>
          rw [firstLine_of_break kept]
          simp only [isPrefixPair_of_break kept, Bool.false_and, Bool.false_eq_true,
            if_false]

theorem scan_opened {text : List Char} {prefixWidth : Nat} (other : startsNumber text = false)
    (string : stringPrefixWidth? text = some prefixWidth) :
    scan text = scanString prefixWidth text := by
  simp [scan, other, string]

theorem scan_reads {text : List Char} (remains : firstLine text ≠ [])
    (other : startsNumber text = true ∨ stringPrefixWidth? text = none) : ReadsLine scan text := by
  have number := startsNumber_firstLine text
  have string := stringPrefixWidth?_firstLine text
  have word := leads_firstLine (show StaysInLine startsWord by decide) text
  cases numbered : startsNumber text with
  | true =>
    rw [numbered] at number
    exact (scanNumber_reads text).turns (by simp [scan, number]) (by simp [scan, numbered])
  | false =>
    have absent := other.resolve_left (by simp [numbered])
    rw [numbered] at number
    rw [absent] at string
    cases worded : leads startsWord text with
    | true =>
      rw [worded] at word
      exact (scanWord_reads text).turns (by simp [scan, number, string, word])
        (by simp [scan, numbered, absent, worded])
    | false =>
      rw [worded] at word
      exact (scanSymbol_reads remains).turns (by simp [scan, number, string, word])
        (by simp [scan, numbered, absent, worded])

theorem stringBody_escape (quote : Char) (triple : Bool) (character : Char) (rest : List Char) :
    stringBody quote triple ('\\' :: character :: rest) =
      ((stringBody quote triple rest).1 + 2, (stringBody quote triple rest).2) :=
  rfl

theorem stringBody_cons {quote character : Char} (plain : character ≠ '\\') (triple : Bool)
    (rest : List Char) :
    stringBody quote triple (character :: rest) =
      if !triple && decide (lineBreakWidth (character :: rest) > 0) then (0, false)
      else if character = quote ∧ triple = false then (1, true)
      else if character = quote ∧ rest.take 2 = [quote, quote] then (3, true)
      else ((stringBody quote triple rest).1 + 1, (stringBody quote triple rest).2) := by
  rw [stringBody]
  · simp [plain]
  · simp [plain]

theorem take_two_crlf {quote : Char} (isQuoteMark : isQuote quote = true) (text : List Char) :
    (crlf text).take 2 = [quote, quote] ↔ text.take 2 = [quote, quote] := by
  have inLine := isInLine_of_isQuote isQuoteMark
  have both : ∀ character ∈ [quote, quote], isInLine character = true := by simp [inLine]
  have prefixes : ∀ text : List Char,
      text.take 2 = [quote, quote] ↔ [quote, quote].isPrefixOf text = true := by
    intro text
    rw [List.isPrefixOf_iff_prefix, List.prefix_iff_eq_take, eq_comm]
    rfl
  rw [prefixes, prefixes, ← isPrefixOf_firstLine both, firstLine_crlf, isPrefixOf_firstLine both]

theorem stringBody_lineFeed (quote : Char) (rest : List Char) :
    stringBody quote false ('\n' :: rest) = (0, false) := by
  rw [stringBody_cons (by decide)]
  rfl

theorem stringBody_lineBreak (quote : Char) (rest : List Char) :
    stringBody quote false ('\r' :: '\n' :: rest) = (0, false) := by
  rw [stringBody_cons (by decide)]
  rfl

theorem lineBreakWidth_of_inLine {character : Char} (inLine : isInLine character = true)
    (rest : List Char) : lineBreakWidth (character :: rest) = 0 := by
  simp only [isInLine, Bool.and_eq_true, bne_iff_ne] at inLine
  simp [lineBreakWidth, inLine]

/-- A character that neither closes the string nor ends its line is passed over. -/
theorem stringBody_passed {quote character : Char} {triple : Bool} (plain : character ≠ '\\')
    (onLine : triple = true ∨ isInLine character = true) {rest : List Char}
    (unclosed : character ≠ quote ∨ triple = true ∧ rest.take 2 ≠ [quote, quote]) :
    stringBody quote triple (character :: rest) =
      ((stringBody quote triple rest).1 + 1, (stringBody quote triple rest).2) := by
  have unbroken : (!triple && decide (lineBreakWidth (character :: rest) > 0)) = false := by
    rcases onLine with rfl | inLine
    · rfl
    · simp [lineBreakWidth_of_inLine inLine]
  rw [stringBody_cons plain, unbroken, if_neg Bool.false_ne_true]
  rcases unclosed with other | ⟨rfl, goesOn⟩
  · simp [other]
  · simp [goesOn]

theorem stringBody_closed {quote : Char} (isQuoteMark : isQuote quote = true) (rest : List Char) :
    stringBody quote false (quote :: rest) = (1, true) := by
  have plain : quote ≠ '\\' := by
    rintro rfl
    cases isQuoteMark
  rw [stringBody_cons plain, lineBreakWidth_of_inLine (isInLine_of_isQuote isQuoteMark)]
  simp

theorem stringBody_closedTriple {quote : Char} (isQuoteMark : isQuote quote = true)
    {rest : List Char} (closing : rest.take 2 = [quote, quote]) :
    stringBody quote true (quote :: rest) = (3, true) := by
  have plain : quote ≠ '\\' := by
    rintro rfl
    cases isQuoteMark
  rw [stringBody_cons plain]
  simp [closing]

/-- What stands between the quotes of a string has the same end, with the other line ends. -/
def EndsAlike (quote : Char) (triple : Bool) (text : List Char) : Prop :=
  stringBody quote triple (crlf text) =
    ((crlf (text.take (stringBody quote triple text).1)).length, (stringBody quote triple text).2)

section

variable {quote : Char} {triple : Bool} {rest : List Char}

/-- Between triple quotes a backslash may cancel a line feed: of the other line end the second
character is passed over behind it. -/
theorem endsAlike_escape (isQuoteMark : isQuote quote = true) (behind : EndsAlike quote triple rest)
    {second : Char} (whole : second = '\n' → triple = true) :
    EndsAlike quote triple ('\\' :: second :: rest) := by
  unfold EndsAlike at behind ⊢
  by_cases lineFeed : second = '\n'
  · have noFeed : '\n' ≠ quote := by
      rintro rfl
      cases isQuoteMark
    rw [lineFeed, crlf_cons (by decide), crlf_lineFeed, stringBody_escape, stringBody_escape,
      stringBody_passed (by decide) (.inl (whole lineFeed)) (.inl noFeed), behind]
    simp [crlf_cons]
  · rw [crlf_cons (by decide), crlf_cons lineFeed, stringBody_escape, stringBody_escape, behind]
    simp [crlf_cons, lineFeed]

theorem endsAlike_passed (isQuoteMark : isQuote quote = true) (behind : EndsAlike quote triple rest)
    {character : Char} (plain : character ≠ '\\')
    (onLine : triple = true ∨ isInLine character = true)
    (unclosed : character ≠ quote ∨ triple = true ∧ rest.take 2 ≠ [quote, quote]) :
    EndsAlike quote triple (character :: rest) := by
  unfold EndsAlike at behind ⊢
  rw [stringBody_passed plain onLine unclosed]
  by_cases lineFeed : character = '\n'
  · have noFeed : '\n' ≠ quote := by
      rintro rfl
      cases isQuoteMark
    have noReturn : '\r' ≠ quote := by
      rintro rfl
      cases isQuoteMark
    have isTriple : triple = true := by simpa [lineFeed, isInLine] using onLine
    rw [lineFeed, crlf_lineFeed, stringBody_passed (by decide) (.inl isTriple) (.inl noReturn),
      stringBody_passed (by decide) (.inl isTriple) (.inl noFeed), behind]
    simp
  · have unclosedOther : character ≠ quote ∨
        triple = true ∧ (crlf rest).take 2 ≠ [quote, quote] :=
      unclosed.imp_right fun goesOn => ⟨goesOn.1, mt (take_two_crlf isQuoteMark rest).1 goesOn.2⟩
    rw [crlf_cons lineFeed, stringBody_passed plain onLine unclosedOther, behind]
    simp [crlf_cons lineFeed]

end

theorem stringBody_crlf {quote : Char} (isQuoteMark : isQuote quote = true) (triple : Bool)
    {text : List Char} (feeds : '\r' ∉ text)
    (whole : triple = false → ¬lineSplice <:+: text.take (stringBody quote triple text).1) :
    EndsAlike quote triple text := by
  have noFeed : quote ≠ '\n' := by
    rintro rfl
    cases isQuoteMark
  induction text using stringBody.induct quote triple with
  | case1 => rfl
  | case2 => rfl
  | case3 second rest width closed found induction =>
    simp only [List.mem_cons, not_or] at feeds
    rw [stringBody_escape] at whole
    refine endsAlike_escape isQuoteMark (induction feeds.2.2 fun single splice =>
      whole single (List.infix_cons (List.infix_cons splice))) ?_
    rintro rfl
    by_contra single
    exact whole (by simpa using single) ⟨[], _, rfl⟩
  | case4 character rest notLast notEscape isBreak =>
    simp only [List.mem_cons, not_or] at feeds
    simp only [Bool.and_eq_true, Bool.not_eq_true', decide_eq_true_eq] at isBreak
    obtain ⟨rfl, breaks⟩ := isBreak
    have lineFeed : character = '\n' := by
      by_contra other
      simp [lineBreakWidth, other, Ne.symm feeds.1] at breaks
    rw [lineFeed, EndsAlike, crlf_lineFeed, stringBody_lineFeed, stringBody_lineBreak]
    rfl
  | case5 character rest notLast notEscape sameLine ends =>
    obtain ⟨rfl, rfl⟩ := ends
    rw [EndsAlike, crlf_cons noFeed, stringBody_closed isQuoteMark,
      stringBody_closed isQuoteMark]
    simp [crlf_cons noFeed]
  | case6 character rest notLast notEscape sameLine goesOn ends =>
    obtain ⟨rfl, closing⟩ := ends
    have isTriple : triple = true := by simpa using goesOn
    subst isTriple
    rw [EndsAlike, crlf_cons noFeed, stringBody_closedTriple isQuoteMark closing,
      stringBody_closedTriple isQuoteMark ((take_two_crlf isQuoteMark rest).2 closing)]
    simp [closing, crlf_cons noFeed]
  | case7 character rest notLast notEscape sameLine goesOn inner width closed found induction =>
    simp only [List.mem_cons, not_or] at feeds
    have plain := plain_of_no_escape notLast notEscape
    have unclosed : character ≠ quote ∨ triple = true ∧ rest.take 2 ≠ [quote, quote] := by
      by_cases closing : character = quote
      · exact .inr ⟨by simpa [closing] using goesOn, fun taken => inner ⟨closing, taken⟩⟩
      · exact .inl closing
    have onLine : triple = true ∨ isInLine character = true := by
      cases triple with
      | true => exact .inl rfl
      | false =>
        refine .inr ?_
        by_cases lineFeed : character = '\n'
        · simp [lineFeed, lineBreakWidth] at sameLine
        · exact isInLine_of_ne lineFeed feeds.1
    rw [stringBody_passed plain onLine unclosed] at whole
    exact endsAlike_passed isQuoteMark (induction feeds.2 fun single splice =>
      whole single (List.infix_cons splice)) plain onLine unclosed

def isTripleQuoted (text : List Char) : Bool :=
  match text.dropWhile fun character => !isQuote character with
  | quote :: rest => rest.take 2 == [quote, quote]
  | [] => false

section

variable {front rest more : List Char} {quote : Char}

theorem isTripleQuoted_append (unquoted : ∀ character ∈ front, isQuote character = false)
    (isQuoteMark : isQuote quote = true) (rest : List Char) :
    isTripleQuoted (front ++ quote :: rest) = (rest.take 2 == [quote, quote]) := by
  have opened : (front ++ quote :: rest).dropWhile (fun character => !isQuote character) =
      quote :: rest := by
    rw [List.dropWhile_append_of_pos fun character member => by simp [unquoted character member]]
    exact List.dropWhile_cons_of_neg (by simp [isQuoteMark])
  rw [isTripleQuoted, opened]

theorem scanString_triple (front : List Char) (quote : Char) (more : List Char) :
    scanString front.length (front ++ quote :: quote :: quote :: more) =
      { token := .string
        width := front.length + 3 + (stringBody quote true more).1
        defect := if (stringBody quote true more).2 then none else
          some ⟨.unterminatedLiteral, front.length + 3 + (stringBody quote true more).1⟩ } := by
  simp [scanString]

theorem scanString_single (front : List Char) {quote : Char} {rest : List Char}
    (single : rest.take 2 ≠ [quote, quote]) :
    scanString front.length (front ++ quote :: rest) =
      { token := .string
        width := front.length + 1 + (stringBody quote false rest).1
        absorbed := if (stringBody quote false rest).2 then 0 else
          lineBreakWidth (rest.drop (stringBody quote false rest).1)
        defect := if (stringBody quote false rest).2 then none else
          some ⟨.unterminatedLiteral, front.length + 1 + (stringBody quote false rest).1⟩ } := by
  have behind : (front ++ quote :: rest).drop
      (front.length + 1 + (stringBody quote false rest).1) =
        rest.drop (stringBody quote false rest).1 := by
    rw [Nat.add_assoc, ← List.drop_drop, List.drop_left, Nat.add_comm, List.drop_succ_cons]
  have isSingle : (rest.take 2 == [quote, quote]) = false := beq_false_of_ne single
  simp [scanString, isSingle, behind]

theorem scanString_triple_twin (feeds : '\r' ∉ front ++ quote :: quote :: quote :: more)
    (isQuoteMark : isQuote quote = true) (inLine : '\n' ∉ front) :
    Scan.Twin (front ++ quote :: quote :: quote :: more)
      (scanString front.length (front ++ quote :: quote :: quote :: more))
      (scanString front.length (crlf (front ++ quote :: quote :: quote :: more))) := by
  have quoteInLine := isInLine_of_isQuote isQuoteMark
  have noFeed : quote ≠ '\n' := by
    rintro rfl
    cases quoteInLine
  have feedsBehind : '\r' ∉ more := fun member => feeds (by simp [member])
  have body : stringBody quote true (crlf more) = _ :=
    stringBody_crlf isQuoteMark true feedsBehind fun single => by cases single
  have kept : crlf (front ++ quote :: quote :: quote :: more) =
      front ++ quote :: quote :: quote :: crlf more := by
    rw [crlf_append, crlf_of_inLine inLine, crlf_cons noFeed, crlf_cons noFeed, crlf_cons noFeed]
  rw [kept, scanString_triple, scanString_triple, body]
  generalize stringBody quote true more = found
  obtain ⟨width, closed⟩ := found
  refine ⟨⟨rfl, ?_⟩, ?_, Iff.rfl⟩
  · cases closed <;> rfl
  · have taken : (front ++ quote :: quote :: quote :: more).take (front.length + 3 + width + 0) =
        front ++ quote :: quote :: quote :: more.take width := by
      rw [Nat.add_zero, Nat.add_assoc, List.take_length_add_append, Nat.add_comm 3 width]
      rfl
    simp only [taken, crlf_append, crlf_of_inLine inLine, crlf_cons noFeed, List.length_append,
      List.length_cons]
    omega

theorem scanString_single_twin (feeds : '\r' ∉ front ++ quote :: rest)
    (isQuoteMark : isQuote quote = true) (inLine : '\n' ∉ front)
    (single : rest.take 2 ≠ [quote, quote])
    (whole : ¬lineSplice <:+: rest.take (stringBody quote false rest).1) :
    Scan.Twin (front ++ quote :: rest) (scanString front.length (front ++ quote :: rest))
      (scanString front.length (crlf (front ++ quote :: rest))) := by
  have quoteInLine := isInLine_of_isQuote isQuoteMark
  have noFeed : quote ≠ '\n' := by
    rintro rfl
    cases quoteInLine
  have feedsBehind : '\r' ∉ rest := fun member => feeds (by simp [member])
  have body : stringBody quote false (crlf rest) = _ :=
    stringBody_crlf isQuoteMark false feedsBehind fun _ => whole
  have kept : crlf (front ++ quote :: rest) = front ++ quote :: crlf rest := by
    rw [crlf_append, crlf_of_inLine inLine, crlf_cons noFeed]
  rw [kept, scanString_single front single,
    scanString_single front (mt (take_two_crlf isQuoteMark rest).1 single), body]
  generalize stringBody quote false rest = found
  obtain ⟨width, closed⟩ := found
  have taken : ∀ count, (front ++ quote :: rest).take (front.length + 1 + count) =
      front ++ quote :: rest.take count := by
    intro count
    rw [Nat.add_assoc, List.take_length_add_append, Nat.add_comm 1 count]
    rfl
  have feedsLeft : '\r' ∉ rest.drop width := fun member => feedsBehind (List.mem_of_mem_drop member)
  cases closed with
  | true =>
    refine ⟨⟨rfl, rfl⟩, ?_, Iff.rfl⟩
    simp only [if_true, Nat.add_zero, taken, crlf_append, crlf_of_inLine inLine,
      crlf_cons noFeed, List.length_append, List.length_cons]
    omega
  | false =>
    simp only [drop_crlf, Bool.false_eq_true, if_false]
    refine ⟨⟨rfl, rfl⟩, ?_, lineBreakWidth_crlf_pos_iff feedsLeft⟩
    simp only [Nat.add_assoc _ width, taken, List.take_add, crlf_append, crlf_of_inLine inLine,
      crlf_cons noFeed, List.length_append, List.length_cons, lineBreakWidth_crlf feedsLeft]
    omega

end

theorem scanString_twin {text : List Char} {prefixWidth : Nat}
    (string : stringPrefixWidth? text = some prefixWidth) (feeds : '\r' ∉ text)
    (whole : isTripleQuoted (text.take (scanString prefixWidth text).width) = false →
      ¬lineSplice <:+: text.take (scanString prefixWidth text).width) :
    Scan.Twin text (scanString prefixWidth text) (scanString prefixWidth (crlf text)) := by
  obtain ⟨front, quote, rest, rfl, rfl, isQuoteMark, letters⟩ := stringPrefixWidth?_shape string
  have inLine : '\n' ∉ front := by
    intro member
    cases (letters _ member).2
  by_cases triple : rest.take 2 = [quote, quote]
  · obtain ⟨more, rfl⟩ : ∃ more, rest = quote :: quote :: more :=
      ⟨rest.drop 2, (List.take_append_drop 2 rest).symm.trans (congrArg (· ++ rest.drop 2) triple)⟩
    exact scanString_triple_twin feeds isQuoteMark inLine
  · refine scanString_single_twin feeds isQuoteMark inLine triple fun splice => ?_
    have taken : (front ++ quote :: rest).take
        (scanString front.length (front ++ quote :: rest)).width =
          front ++ quote :: rest.take (stringBody quote false rest).1 := by
      rw [scanString_single front triple, Nat.add_assoc, List.take_length_add_append,
        Nat.add_comm 1]
      rfl
    rw [taken] at whole
    refine whole ?_ ?_
    · rw [isTripleQuoted_append (fun character member => (letters character member).1) isQuoteMark]
      refine beq_false_of_ne fun closing => triple ?_
      rw [List.take_take] at closing
      have length := congrArg List.length closing
      simp only [List.length_take, List.length_cons, List.length_nil] at length
      rwa [Nat.min_eq_left (by omega)] at closing
    · exact (List.infix_cons splice).trans (List.suffix_append front _).isInfix

def IsSpliced (token : Token) (text : List Char) : Prop :=
  token = .string ∧ isTripleQuoted text = false ∧ lineSplice <:+: text

/-- A token that is no spliced string is found again, with the same text behind it. -/
theorem scan_twin {text : List Char} (remains : firstLine text ≠ []) (feeds : '\r' ∉ text)
    (whole : ¬IsSpliced (scan text).token (text.take (scan text).width)) :
    Scan.Twin text (scan text) (scan (crlf text)) := by
  have number : startsNumber (crlf text) = startsNumber text := by
    rw [← startsNumber_firstLine, firstLine_crlf, startsNumber_firstLine]
  have opened : stringPrefixWidth? (crlf text) = stringPrefixWidth? text := by
    rw [← stringPrefixWidth?_firstLine, firstLine_crlf, stringPrefixWidth?_firstLine]
  by_cases other : startsNumber text = true ∨ stringPrefixWidth? text = none
  · have reads := scan_reads remains other
    have same := reads.crlf (scan_reads (by rwa [firstLine_crlf]) (by rwa [number, opened]))
    rw [same]
    refine ⟨.refl _, ?_, Iff.rfl⟩
    rw [crlf_take_of_within reads.within, length_take_of_within reads.within]
  · obtain ⟨noNumber, string⟩ := not_or.1 other
    obtain ⟨prefixWidth, string⟩ := Option.ne_none_iff_exists'.1 string
    have noNumber : startsNumber text = false := by simpa using noNumber
    rw [scan_opened noNumber string] at whole ⊢
    rw [scan_opened (number.trans noNumber) (opened.trans string)]
    refine scanString_twin string feeds fun single splice => whole ⟨?_, single, splice⟩
    unfold scanString
    split <;> rfl

end Offside.Python
