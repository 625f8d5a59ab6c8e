import Offside.Proofs.Literals.Patterns

/-!
Both languages read the longest number. Past a leading zero the letter of a radix continues no decimal
number. A decimal number of Python is an integer only if nothing but digits was read, so what is an
integer and what is a float never compete; one of Haskell reads a point only together with the digit
behind it, so that it is told apart from the next bound of an enumeration.
-/

namespace Offside

set_option autoImplicit false

open Offside.Lexical RegularExpression

namespace Python

/-- A decimal point and digits behind it, of which there may be none. -/
def fraction : RegularExpression Char := oneOf ['.'] * anyOf (Text.decimals ++ ['_'])

def longMark : RegularExpression Char := optional (oneOf ['l', 'L'])

def imaginaryMark : RegularExpression Char := optional (oneOf ['j', 'J'])

def integers : RegularExpression Char := digitRun ['_'] * longMark

def floats : RegularExpression Char :=
  (digitRun ['_'] * optional fraction + oneOf ['.'] * digitRun ['_']) * optional (exponent ['_']) *
    imaginaryMark

def numbers : RegularExpression Char :=
  numbersOf (fun radix => radixDigits ['_'] radix * longMark) (integers + floats)

/-- What makes a decimal number a float: a point, an exponent or the mark of an imaginary number. -/
def floatMarks : List Char := ['.', 'e', 'E', 'j', 'J']

variable {text front : List Char} {radix : Text.Radix}

section Characters

variable (character : Char)

theorem isDigitOrUnderscore_iff :
    isDigitOrUnderscore character = true ↔ character ∈ Text.decimals ++ ['_'] := by
  simp [isDigitOrUnderscore, Text.isDigit_iff]

theorem isLongMark_iff : isLongMark character = true ↔ character ∈ ['l', 'L'] := by
  simp [isLongMark]

theorem isImaginaryMark_iff : isImaginaryMark character = true ↔ character ∈ ['j', 'J'] := by
  simp [isImaginaryMark]

theorem isRadixDigit_iff (radix : Text.Radix) :
    (radix.isDigit character || character == '_') = true ↔ character ∈ radix.digits ++ ['_'] := by
  simp [radix.isDigit_iff]

end Characters

def radixWidth (radix : Text.Radix) (text : List Char) : Nat :=
  let digits :=
    (text.takeWhile fun character => radix.isDigit character || character == '_').length
  digits + longMarkWidth (text.drop digits)

/-- Characters of a decimal number without its last letter. -/
def decimalWidth (text : List Char) : Nat :=
  let whole := (text.takeWhile isDigitOrUnderscore).length
  let fraction := fractionWidth (text.drop whole)
  whole + fraction + exponentWidth isDigitOrUnderscore (text.drop (whole + fraction))

def imaginaryMarkWidth (text : List Char) : Nat := if leads isImaginaryMark text then 1 else 0

theorem munches_radixDigits (radix : Text.Radix) :
    Munches (radixDigits ['_'] radix * longMark) (radixWidth radix)
      (radix.digits ++ ['_'] ++ ['l', 'L']) := by
  apply (Munches.run (isRadixDigit_iff · radix)).followed (Munches.mark isLongMark_iff)
  intro next back mark
  have apart : ∀ letter ∈ ['l', 'L'], letter ∉ radix.digits ++ ['_'] :=
    List.all_iff_forall_prop.1 (by cases radix <;> decide)
  exact apart next (mem_of_mark mark next List.mem_cons_self)

theorem munches_fraction :
    Munches (optional fraction) fractionWidth (['.'] ++ (Text.decimals ++ ['_'])) := by
  apply (Munches.run isDigitOrUnderscore_iff).announced
  · intro front body back point digits
    obtain ⟨character, known, rfl⟩ := matches_oneOf.1 point
    rw [List.mem_singleton.1 known]
    rfl
  · intro next back other
    have noPoint : ¬(next == '.') = true := by simpa using other
    exact if_neg noPoint

theorem munches_integers :
    Munches integers (fun text => (text.takeWhile isDigitOrUnderscore).length +
      longMarkWidth (text.drop (text.takeWhile isDigitOrUnderscore).length))
      (Text.decimals ++ ['_'] ++ ['l', 'L']) := by
  have digits := (Munches.run isDigitOrUnderscore_iff).mono fun text => @anyOf_of_digitRun ['_'] text
  apply digits.followed (Munches.mark isLongMark_iff)
  intro next back mark
  have apart : ∀ letter ∈ ['l', 'L'], letter ∉ Text.decimals ++ ['_'] :=
    List.all_iff_forall_prop.1 (by decide)
  exact apart next (mem_of_mark mark next List.mem_cons_self)

/-- A number that starts with its point has no digits in front of it. -/
theorem floats_relaxed (float : text ∈ floats.matches') :
    text ∈ (anyOf (Text.decimals ++ ['_']) * optional fraction * optional (exponent ['_']) *
      imaginaryMark).matches' := by
  obtain ⟨number, exponented, mark, marked, rfl⟩ := matches_mul.1 float
  obtain ⟨decimal, pointed, power, raised, rfl⟩ := matches_mul.1 exponented
  refine matches_mul.2 ⟨_, matches_mul.2 ⟨decimal, ?_, power, raised, rfl⟩, mark, marked, rfl⟩
  rcases pointed with whole | pointed
  · obtain ⟨digits, run, later, rest, rfl⟩ := matches_mul.1 whole
    exact matches_mul.2 ⟨digits, anyOf_of_digitRun run, later, rest, rfl⟩
  · obtain ⟨point, found, digits, run, rfl⟩ := matches_mul.1 pointed
    have behind : point ++ digits ∈ fraction.matches' :=
      matches_mul.2 ⟨point, found, digits, anyOf_of_digitRun run, rfl⟩
    exact matches_mul.2 ⟨[], matches_anyOf.2 (List.forall_mem_nil _), _, .inr behind, rfl⟩

theorem munches_floats :
    Munches floats (fun text => decimalWidth text + imaginaryMarkWidth (text.drop (decimalWidth text)))
      (Text.decimals ++ ['_'] ++ (['.'] ++ (Text.decimals ++ ['_'])) ++
        (['e', 'E'] ++ (Text.decimals ++ ['_'])) ++ ['j', 'J']) := by
  have pointed := (Munches.run isDigitOrUnderscore_iff).followed munches_fraction (by
    intro next back fraction
    have apart : ∀ letter ∈ ['.'], letter ∉ Text.decimals ++ ['_'] :=
      List.all_iff_forall_prop.1 (by decide)
    exact apart next (mem_of_announced fraction))
  have raised := pointed.followed (munches_exponent isDigitOrUnderscore_iff) (by
    intro next back exponent
    have apart : ∀ letter ∈ ['e', 'E'],
        letter ∉ Text.decimals ++ ['_'] ++ (['.'] ++ (Text.decimals ++ ['_'])) :=
      List.all_iff_forall_prop.1 (by decide)
    exact apart next (mem_of_exponent exponent))
  have marked := raised.followed (Munches.mark isImaginaryMark_iff) (by
    intro next back mark
    have apart : ∀ letter ∈ ['j', 'J'],
        letter ∉ Text.decimals ++ ['_'] ++ (['.'] ++ (Text.decimals ++ ['_'])) ++
          (['e', 'E'] ++ (Text.decimals ++ ['_'])) :=
      List.all_iff_forall_prop.1 (by decide)
    exact apart next (mem_of_mark mark next List.mem_cons_self))
  exact marked.mono fun text => floats_relaxed

/-- In front of the letter of a radix a decimal number is a zero. -/
theorem length_le_of_decimal {letter : Char} {rest : List Char} (announced : letter ∈ radix.letters)
    (starts : front <+: '0' :: letter :: rest) (decimal : front ∈ (integers + floats).matches') :
    front.length ≤ 1 := by
  have zero : ['0'] ∈ (digitRun ['_']).matches' :=
    matches_digitRun.2 ⟨'0', [], rfl, by decide, List.forall_mem_nil _⟩
  have apart : ∀ letter ∈ radix.letters, letter ∉ Text.decimals ++ ['_'] ++ ['l', 'L'] ∧
      letter ∉ Text.decimals ++ ['_'] ++ (['.'] ++ (Text.decimals ++ ['_'])) ++
        (['e', 'E'] ++ (Text.decimals ++ ['_'])) ++ ['j', 'J'] :=
    List.all_iff_forall_prop.1 (by cases radix <;> decide)
  rcases decimal with integer | float
  · have alone : ['0'] ∈ integers.matches' := matches_mul.2 ⟨['0'], zero, [], .inl rfl, rfl⟩
    exact munches_integers.length_le alone (apart letter announced).1 integer starts
  · have alone : ['0'] ∈ floats.matches' :=
      matches_mul.2 ⟨['0'], matches_mul.2 ⟨['0'],
        .inl (matches_mul.2 ⟨['0'], zero, [], .inl rfl, rfl⟩), [], .inl rfl, rfl⟩, [], .inl rfl, rfl⟩
    exact munches_floats.length_le alone (apart letter announced).2 float starts

theorem scanRadix_width (radix : Text.Radix) (text : List Char) :
    (scanRadix radix text).width = radixWidth radix (text.drop 2) + 2 := by
  simp only [scanRadix, radixWidth, List.drop_drop]
  omega

theorem scanRadix_isNumber (announced : radixOf? text = some radix) :
    (scanRadix radix text).IsNumber numbers floatMarks text := by
  obtain ⟨letter, known, rest, rfl⟩ := radixOf?_iff.1 announced
  have reads : rest.take (radixWidth radix rest) ∈ (radixDigits ['_'] radix * longMark).matches' :=
    take_add_matches (takeWhile_matches (isRadixDigit_iff · radix) rest) (mark_matches isLongMark_iff _)
  exact Scan.isNumber_of_radix known (munches_radixDigits radix) reads
    (fun front => length_le_of_decimal known) rfl (scanRadix_width radix _)

/-- What a decimal number is depends on what is read behind its first digits. -/
theorem scanDecimal_cases (text : List Char) :
    let whole := (text.takeWhile isDigitOrUnderscore).length
    let fraction := fractionWidth (text.drop whole)
    let exponent := exponentWidth isDigitOrUnderscore (text.drop (whole + fraction))
    (leads isImaginaryMark (text.drop (decimalWidth text)) = true ∧
        scanDecimal text = { token := .float, width := decimalWidth text + 1 }) ∨
      (leads isImaginaryMark (text.drop (decimalWidth text)) = false ∧
        ((0 < fraction + exponent ∧
            scanDecimal text = { token := .float, width := decimalWidth text }) ∨
          (fraction = 0 ∧ decimalWidth text = whole ∧
            scanDecimal text =
              { token := .integer, width := whole + longMarkWidth (text.drop whole) }))) := by
  intro whole fraction exponent
  have width : decimalWidth text = whole + fraction + exponent := rfl
  have scan : scanDecimal text =
      if leads isImaginaryMark (text.drop (decimalWidth text)) then
        { token := .float, width := decimalWidth text + 1 }
      else if fraction + exponent > 0 then { token := .float, width := decimalWidth text }
      else { token := .integer,
             width := decimalWidth text + longMarkWidth (text.drop (decimalWidth text)) } := rfl
  rw [scan]
  split
  · exact .inl ⟨‹_›, rfl⟩
  · rename_i noMark
    refine .inr ⟨Bool.eq_false_iff.2 noMark, ?_⟩
    split
    · exact .inl ⟨‹_›, rfl⟩
    · have none : fraction = 0 := by omega
      have same : decimalWidth text = whole := by omega
      rw [same]
      exact .inr ⟨none, rfl, rfl⟩

theorem fractionWidth_matches (text : List Char) :
    text.take (fractionWidth text) ∈ (optional fraction).matches' := by
  unfold fractionWidth
  split
  · rename_i point
    have one : text.take 1 ∈ (oneOf ['.']).matches' := by
      cases text with
      | nil => cases point
      | cons first rest => exact matches_oneOf.2 ⟨first, by simpa [leads] using point, rfl⟩
    exact .inr (take_add_matches one (takeWhile_matches isDigitOrUnderscore_iff _))
  · exact .inl rfl

theorem leads_of_fractionWidth (present : 0 < fractionWidth text) :
    leads (· == '.') text = true := by
  apply Classical.byContradiction
  intro none
  rw [fractionWidth, if_neg none] at present
  exact Nat.lt_irrefl 0 present

theorem point_of_startsNumber (number : startsNumber text = true)
    (led : leads Char.isDigit text = false) :
    ∃ rest, text = '.' :: rest ∧ leads Char.isDigit rest = true := by
  rw [startsNumber, led, Bool.false_or, Bool.and_eq_true] at number
  cases text with
  | nil => cases number.1
  | cons first rest =>
    have isPoint : first = '.' := by simpa [leads] using number.1
    exact ⟨rest, congrArg (· :: rest) isPoint, number.2⟩

theorem pointed_matches (number : startsNumber text = true) :
    let whole := (text.takeWhile isDigitOrUnderscore).length
    text.take (whole + fractionWidth (text.drop whole)) ∈
      (digitRun ['_'] * optional fraction + oneOf ['.'] * digitRun ['_']).matches' := by
  intro whole
  cases led : leads Char.isDigit text with
  | true =>
    exact .inl (take_add_matches (takeWhile_digitRun isDigitOrUnderscore_iff led)
      (fractionWidth_matches _))
  | false =>
    obtain ⟨rest, rfl, digit⟩ := point_of_startsNumber number led
    have one : ('.' :: rest).take 1 ∈ (oneOf ['.']).matches' :=
      matches_oneOf.2 ⟨'.', List.mem_cons_self, rfl⟩
    have none : whole = 0 := rfl
    have width : fractionWidth ('.' :: rest) = 1 + (rest.takeWhile isDigitOrUnderscore).length := rfl
    rw [none, List.drop_zero, Nat.zero_add, width]
    exact .inr (take_add_matches one (takeWhile_digitRun isDigitOrUnderscore_iff digit))

theorem leads_of_whole (number : startsNumber text = true)
    (whole : fractionWidth (text.drop (text.takeWhile isDigitOrUnderscore).length) = 0) :
    leads Char.isDigit text = true := by
  rw [← Bool.not_eq_false]
  intro led
  obtain ⟨rest, rfl, -⟩ := point_of_startsNumber number led
  have width : fractionWidth ('.' :: rest) = 1 + (rest.takeWhile isDigitOrUnderscore).length := rfl
  have none : (('.' :: rest).takeWhile isDigitOrUnderscore).length = 0 := rfl
  rw [none, List.drop_zero, width] at whole
  omega

theorem scanDecimal_matches (number : startsNumber text = true) :
    text.take (scanDecimal text).width ∈ (integers + floats).matches' := by
  have raised := take_add_matches (pointed_matches number)
    (exponentWidth_matches isDigitOrUnderscore_iff _)
  rcases scanDecimal_cases text with ⟨imaginary, scan⟩ | ⟨-, ⟨-, scan⟩ | ⟨noFraction, -, scan⟩⟩
  · have mark := mark_matches isImaginaryMark_iff (text.drop (decimalWidth text))
    rw [if_pos imaginary] at mark
    rw [scan]
    exact .inr (take_add_matches raised mark)
  · rw [scan]
    exact .inr (matches_mul.2 ⟨_, raised, [], .inl rfl, List.append_nil _⟩)
  · rw [scan]
    exact .inl (take_add_matches
      (takeWhile_digitRun isDigitOrUnderscore_iff (leads_of_whole number noFraction))
      (mark_matches isLongMark_iff _))

theorem length_le_of_starts (starts : front <+: text)
    (decimal : front ∈ (integers + floats).matches') : front.length ≤ (scanDecimal text).width := by
  obtain ⟨later, split⟩ := starts
  rcases decimal with integer | float
  · have reached := munches_integers.longest front later integer
    have mark : longMarkWidth (text.drop (text.takeWhile isDigitOrUnderscore).length) ≤ 1 := by
      unfold longMarkWidth
      split <;> omega
    rw [split] at reached
    rcases scanDecimal_cases text with ⟨-, scan⟩ | ⟨-, ⟨more, scan⟩ | ⟨-, -, scan⟩⟩
    · rw [scan]
      simp only [decimalWidth]
      omega
    · rw [scan]
      simp only [decimalWidth]
      omega
    · rw [scan]
      exact reached
  · have reached := munches_floats.longest front later float
    rw [split] at reached
    rcases scanDecimal_cases text with ⟨imaginary, scan⟩ | ⟨noMark, ⟨-, scan⟩ | ⟨-, same, scan⟩⟩
    · rw [imaginaryMarkWidth, if_pos imaginary] at reached
      rw [scan]
      exact reached
    · rw [imaginaryMarkWidth, if_neg (by simp [noMark])] at reached
      rw [scan]
      exact reached
    · rw [imaginaryMarkWidth, if_neg (by simp [noMark]), same] at reached
      rw [scan]
      exact Nat.le_trans reached (Nat.le_add_right _ _)

theorem scanDecimal_float (text : List Char) :
    (scanDecimal text).token = .float ↔
      ∃ character ∈ text.take (scanDecimal text).width, character ∈ floatMarks := by
  rcases scanDecimal_cases text with ⟨imaginary, scan⟩ | ⟨-, ⟨more, scan⟩ | ⟨-, -, scan⟩⟩
  · obtain ⟨mark, read, isMark⟩ := exists_of_leads imaginary (Nat.lt_succ_self _)
    rw [scan]
    exact iff_of_true rfl
      ⟨mark, read, List.mem_append_right ['.', 'e', 'E'] ((isImaginaryMark_iff mark).1 isMark)⟩
  · obtain ⟨mark, read, isMark⟩ := exists_floatMark more leads_of_fractionWidth leads_of_exponentWidth
    rw [scan]
    exact iff_of_true rfl ⟨mark, read, List.mem_append_left ['j', 'J'] isMark⟩
  · rw [scan]
    apply iff_of_false (by simp)
    rintro ⟨character, read, isMark⟩
    have apart : ∀ character ∈ floatMarks,
        character ∉ Text.decimals ++ ['_'] ∧ character ∉ ['l', 'L'] :=
      List.all_iff_forall_prop.1 (by decide)
    rw [List.take_add, List.mem_append] at read
    rcases read with digit | mark
    · exact (apart character isMark).1
        (matches_anyOf.1 (takeWhile_matches isDigitOrUnderscore_iff text) character digit)
    · exact (apart character isMark).2
        (mem_of_mark (mark_matches isLongMark_iff _) character mark)

theorem scanNumber_isNumber (number : startsNumber text = true) :
    (scanNumber text).IsNumber numbers floatMarks text := by
  unfold scanNumber
  split
  · exact scanRadix_isNumber ‹_›
  · apply Scan.isNumber_of_plain ‹_› _ (scanDecimal_matches number)
      (fun front => length_le_of_starts) (scanDecimal_float text)
    rcases scanDecimal_cases text with ⟨-, scan⟩ | ⟨-, ⟨-, scan⟩ | ⟨-, -, scan⟩⟩
    · exact .inr (congrArg Scan.token scan)
    · exact .inr (congrArg Scan.token scan)
    · exact .inl (congrArg Scan.token scan)

theorem startsNumber_of_digit {first : Char} (digit : first ∈ Text.decimals) (rest : List Char) :
    startsNumber (first :: rest) = true := by
  have led : leads Char.isDigit (first :: rest) = true := (Text.isDigit_iff first).2 digit
  rw [startsNumber, led, Bool.true_or]

theorem startsNumber_append (number : startsNumber front = true) (later : List Char) :
    startsNumber (front ++ later) = true := by
  rcases front with _ | ⟨first, _ | ⟨second, rest⟩⟩
  · cases number
  · have digit : first.isDigit = true := by simpa [startsNumber, leads] using number
    exact startsNumber_of_digit ((Text.isDigit_iff first).1 digit) later
  · exact number

theorem startsNumber_of_matches (matching : front ∈ numbers.matches') :
    startsNumber front = true := by
  have opened : ∀ {run : List Char}, run ∈ (digitRun ['_']).matches' → startsNumber run = true := by
    intro run found
    obtain ⟨first, rest, rfl, digit, -⟩ := matches_digitRun.1 found
    exact startsNumber_of_digit digit rest
  rcases matches_numbersOf.1 matching with ⟨radix, letter, -, rest, -, rfl⟩ | integer | float
  · exact startsNumber_of_digit (by decide) _
  · obtain ⟨number, found, mark, -, rfl⟩ := matches_mul.1 integer
    exact startsNumber_append (opened found) mark
  · obtain ⟨number, exponented, mark, -, rfl⟩ := matches_mul.1 float
    obtain ⟨decimal, pointed, power, -, rfl⟩ := matches_mul.1 exponented
    apply startsNumber_append
    apply startsNumber_append
    rcases pointed with whole | pointed
    · obtain ⟨digits, found, later, -, rfl⟩ := matches_mul.1 whole
      exact startsNumber_append (opened found) later
    · obtain ⟨point, found, digits, run, rfl⟩ := matches_mul.1 pointed
      obtain ⟨character, known, rfl⟩ := matches_oneOf.1 found
      obtain ⟨first, rest, rfl, digit, -⟩ := matches_digitRun.1 run
      rw [List.mem_singleton.1 known]
      have led : leads Char.isDigit (first :: rest) = true := (Text.isDigit_iff first).2 digit
      rw [startsNumber, Bool.or_eq_true, Bool.and_eq_true]
      exact .inr ⟨rfl, led⟩

theorem startsNumber_iff :
    startsNumber text = true ↔ ∃ literal, literal <+: text ∧ literal ∈ numbers.matches' := by
  constructor
  · intro number
    have longest := (scanNumber_isNumber number).longest
    exact ⟨_, longest.starts, longest.matching⟩
  · rintro ⟨literal, ⟨later, rfl⟩, matching⟩
    exact startsNumber_append (startsNumber_of_matches matching) later

theorem no_comment_of_number (number : startsNumber text = true) :
    ¬leads (· == '#') text = true := by
  intro comment
  cases text with
  | nil => cases comment
  | cons first rest =>
    have same : first = '#' := by simpa [leads] using comment
    subst same
    cases number

end Python

namespace Haskell

def fraction : RegularExpression Char := oneOf ['.'] * digitRun []

def decimals : RegularExpression Char :=
  digitRun [] * optional fraction * optional (exponent [])

def numbers : RegularExpression Char := numbersOf (radixDigits []) decimals

def floatMarks : List Char := ['.', 'e', 'E']

variable {text front : List Char} {radix : Text.Radix}

theorem isDigit_iff (character : Char) :
    character.isDigit = true ↔ character ∈ Text.decimals ++ [] := by
  rw [List.append_nil]
  exact Text.isDigit_iff character

theorem isRadixDigit_iff (radix : Text.Radix) (character : Char) :
    radix.isDigit character = true ↔ character ∈ radix.digits ++ [] := by
  rw [List.append_nil]
  exact radix.isDigit_iff character

theorem munches_fraction :
    Munches (optional fraction) fractionWidth (['.'] ++ (Text.decimals ++ [])) := by
  have digits := (Munches.run isDigit_iff).mono fun text => @anyOf_of_digitRun [] text
  apply digits.announced
  · intro front body back point run
    obtain ⟨character, known, rfl⟩ := matches_oneOf.1 point
    obtain ⟨first, rest, rfl, digit, -⟩ := matches_digitRun.1 run
    have isDigit : first.isDigit = true := (Text.isDigit_iff first).2 digit
    rw [List.mem_singleton.1 known]
    simp [fractionWidth, leads, isDigit]
  · intro next back other
    have noPoint : (next == '.') = false := by simpa using other
    have unled : ¬(leads (· == '.') (next :: back) && leads Char.isDigit back) = true := by
      simp [leads, noPoint]
    exact if_neg unled

theorem munches_decimals :
    Munches decimals (fun text => (scanDecimal text).width)
      (Text.decimals ++ [] ++ (['.'] ++ (Text.decimals ++ [])) ++
        (['e', 'E'] ++ (Text.decimals ++ []))) := by
  have digits := (Munches.run isDigit_iff).mono fun text => @anyOf_of_digitRun [] text
  have pointed := digits.followed munches_fraction (by
    intro next back fraction
    have apart : ∀ letter ∈ ['.'], letter ∉ Text.decimals ++ [] :=
      List.all_iff_forall_prop.1 (by decide)
    exact apart next (mem_of_announced fraction))
  exact pointed.followed (munches_exponent isDigit_iff) (by
    intro next back exponent
    have apart : ∀ letter ∈ ['e', 'E'],
        letter ∉ Text.decimals ++ [] ++ (['.'] ++ (Text.decimals ++ [])) :=
      List.all_iff_forall_prop.1 (by decide)
    exact apart next (mem_of_exponent exponent))

/-- In front of the letter of a radix a decimal number is a zero. -/
theorem length_le_of_decimal {letter : Char} {rest : List Char} (announced : letter ∈ radix.letters)
    (starts : front <+: '0' :: letter :: rest) (decimal : front ∈ decimals.matches') :
    front.length ≤ 1 := by
  have alone : ['0'] ∈ decimals.matches' :=
    matches_mul.2 ⟨['0'], matches_mul.2 ⟨['0'],
      matches_digitRun.2 ⟨'0', [], rfl, by decide, List.forall_mem_nil _⟩,
      [], .inl rfl, rfl⟩, [], .inl rfl, rfl⟩
  have apart : ∀ letter ∈ radix.letters, letter ∉ Text.decimals ++ [] ++
      (['.'] ++ (Text.decimals ++ [])) ++ (['e', 'E'] ++ (Text.decimals ++ [])) :=
    List.all_iff_forall_prop.1 (by cases radix <;> decide)
  exact munches_decimals.length_le alone (apart letter announced) decimal starts

theorem scanRadix_isNumber (announced : radixOf? text = some radix) :
    (scanRadix radix text).IsNumber numbers floatMarks text := by
  obtain ⟨letter, known, rest, rfl⟩ := radixOf?_iff.1 announced
  exact Scan.isNumber_of_radix known (Munches.run (isRadixDigit_iff radix))
    (takeWhile_matches (isRadixDigit_iff radix) rest) (fun front => length_le_of_decimal known) rfl
    (Nat.add_comm _ _)

theorem fractionWidth_matches (text : List Char) :
    text.take (fractionWidth text) ∈ (optional fraction).matches' := by
  unfold fractionWidth
  split
  · rename_i pointed
    obtain ⟨point, digit⟩ := (Bool.and_eq_true _ _).mp pointed
    have one : text.take 1 ∈ (oneOf ['.']).matches' := by
      cases text with
      | nil => cases point
      | cons first rest => exact matches_oneOf.2 ⟨first, by simpa [leads] using point, rfl⟩
    exact .inr (take_add_matches one (takeWhile_digitRun isDigit_iff digit))
  · exact .inl rfl

theorem leads_of_fractionWidth (present : 0 < fractionWidth text) :
    leads (· == '.') text = true := by
  apply Classical.byContradiction
  intro none
  rw [fractionWidth, Bool.eq_false_iff.2 none, Bool.false_and, if_neg Bool.false_ne_true] at present
  exact Nat.lt_irrefl 0 present

theorem scanDecimal_matches (number : leads Char.isDigit text = true) :
    text.take (scanDecimal text).width ∈ decimals.matches' :=
  take_add_matches
    (take_add_matches (takeWhile_digitRun isDigit_iff number) (fractionWidth_matches _))
    (exponentWidth_matches isDigit_iff _)

theorem scanDecimal_float (text : List Char) :
    (scanDecimal text).token = .float ↔
      ∃ character ∈ text.take (scanDecimal text).width, character ∈ floatMarks := by
  simp only [scanDecimal]
  split
  · rename_i more
    exact iff_of_true rfl (exists_floatMark more leads_of_fractionWidth leads_of_exponentWidth)
  · rename_i plain
    apply iff_of_false (by simp)
    rintro ⟨character, read, isMark⟩
    have apart : ∀ character ∈ floatMarks, character ∉ Text.decimals ++ [] :=
      List.all_iff_forall_prop.1 (by decide)
    rw [Nat.add_assoc, Nat.eq_zero_of_not_pos plain, Nat.add_zero] at read
    exact apart character isMark (matches_anyOf.1 (takeWhile_matches isDigit_iff text) character read)

theorem scanNumber_isNumber (number : leads Char.isDigit text = true) :
    (scanNumber text).IsNumber numbers floatMarks text := by
  unfold scanNumber
  split
  · exact scanRadix_isNumber ‹_›
  · apply Scan.isNumber_of_plain ‹_› _ (scanDecimal_matches number) _ (scanDecimal_float text)
    · simp only [scanDecimal]
      split
      · exact .inr rfl
      · exact .inl rfl
    · rintro front ⟨later, rfl⟩ decimal
      exact munches_decimals.longest front later decimal

theorem leads_digit_iff :
    leads Char.isDigit text = true ↔ ∃ literal, literal <+: text ∧ literal ∈ numbers.matches' := by
  constructor
  · intro number
    have longest := (scanNumber_isNumber number).longest
    exact ⟨_, longest.starts, longest.matching⟩
  · rintro ⟨literal, ⟨later, rfl⟩, matching⟩
    rcases matches_numbersOf.1 matching with ⟨radix, letter, -, rest, -, rfl⟩ | decimal
    · rfl
    · obtain ⟨pointed, found, power, -, rfl⟩ := matches_mul.1 decimal
      obtain ⟨digits, run, point, -, rfl⟩ := matches_mul.1 found
      obtain ⟨first, rest, rfl, digit, -⟩ := matches_digitRun.1 run
      exact (Text.isDigit_iff first).2 digit

end Haskell

end Offside
