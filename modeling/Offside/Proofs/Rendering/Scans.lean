import Offside.Proofs.Layout.Ahead
import Offside.Proofs.Rendering.Trees

/-!
How the texts of core expressions are scanned. A text that nothing goes on with is read back as one
token whatever follows: letters end where no letter follows, symbols where no symbol does, numbers where
neither does, and quotes and brackets end by themselves.
-/

namespace Offside.Haskell.Core

set_option autoImplicit false

open Offside.Lexical

structure Takes (found : Scan) (token : Token) (text : List Char) : Prop where
  token : found.token = token
  width : found.width = text.length
  sound : found.defect = none

/-- A text that goes on with no token before it. -/
structure Apart (after : List Char) : Prop where
  word : leads continuesWord after = false
  symbol : leads isSymbol after = false

section Runs

variable {accepts : Char → Bool} {text after : List Char}

theorem leads_append (stops : leads accepts after = false) :
    leads accepts (text ++ after) = leads accepts text := by
  cases text with
  | nil => simpa [leads] using stops
  | cons first rest => rfl

theorem takeWhile_append (stops : leads accepts after = false) :
    (text ++ after).takeWhile accepts = text.takeWhile accepts := by
  induction text with
  | nil =>
    cases after with
    | nil => rfl
    | cons first rest =>
      have other : accepts first = false := stops
      simp [other]
  | cons first rest induction => simp only [List.cons_append, List.takeWhile_cons, induction]

theorem takeWhile_whole (all : text.all accepts = true) (stops : leads accepts after = false) :
    (text ++ after).takeWhile accepts = text := by
  rw [takeWhile_append stops, List.takeWhile_eq_self_iff]
  exact List.all_eq_true.1 all

end Runs

namespace Apart

variable {after : List Char}

theorem stops (apart : Apart after) {accepts : Char → Bool}
    (known : ∀ character, accepts character = true →
      continuesWord character = true ∨ isSymbol character = true) :
    leads accepts after = false := by
  cases after with
  | nil => rfl
  | cons first rest =>
    have word : continuesWord first = false := apart.word
    have symbol : isSymbol first = false := apart.symbol
    by_contra accepted
    have goes : accepts first = true := by simpa [leads] using accepted
    rcases known first goes with letter | sign
    · rw [word] at letter
      cases letter
    · rw [symbol] at sign
      cases sign

end Apart

/-! What starts a word means nothing else. -/

/-- Two runs of codes that share none: one ends before the other starts, one is a single code outside
the other, or they alternate. -/
def runsApart (one other : Text.CodeRun) : Bool :=
  Nat.blt one.last other.first || Nat.blt other.last one.first ||
    (one.first == one.last && !other.contains one.first) ||
      (one.stride == 2 && other.stride == 2 && (one.first + other.first) % 2 == 1)

theorem not_contains_of_runsApart {one other : Text.CodeRun} (apart : runsApart one other = true)
    {code : Nat} (held : one.contains code = true) : other.contains code = false := by
  by_contra both
  rw [Bool.not_eq_false] at both
  have single : one.first = one.last → code = one.first := by
    simp only [Text.CodeRun.contains, Bool.and_eq_true, decide_eq_true_eq] at held
    omega
  simp only [runsApart, Bool.or_eq_true, Bool.and_eq_true, Nat.blt_eq, beq_iff_eq, Bool.not_eq_true']
    at apart
  rcases apart with ((before | behind) | ⟨alone, outside⟩) | ⟨⟨stride, otherStride⟩, odd⟩
  · simp only [Text.CodeRun.contains, Bool.and_eq_true, decide_eq_true_eq] at held both
    omega
  · simp only [Text.CodeRun.contains, Bool.and_eq_true, decide_eq_true_eq] at held both
    omega
  · rw [← single alone, both] at outside
    cases outside
  · simp only [Text.CodeRun.contains, Bool.and_eq_true, decide_eq_true_eq, beq_iff_eq, stride,
      otherStride] at held both
    omega

theorem contains_of_between {first last code : Nat} (low : first ≤ code) (high : code ≤ last) :
    (⟨first, last, 1⟩ : Text.CodeRun).contains code = true := by
  simp [Text.CodeRun.contains, low, high, Nat.mod_one]

theorem not_covers_of_runsApart {run : Text.CodeRun} {table : List Text.CodeRun}
    (apart : table.all (runsApart run) = true) {code : Nat} (held : run.contains code = true) :
    Text.CodeRun.covers table code = false := by
  by_contra covered
  rw [Bool.not_eq_false] at covered
  obtain ⟨other, member, holds⟩ := Text.CodeRun.exists_of_covers covered
  rw [not_contains_of_runsApart (List.all_eq_true.1 apart other member) held] at holds
  cases holds

def startsWord (character : Char) : Bool :=
  (Text.isLowercase character || character == '_') || Text.isUppercase character

def holdsNoLetter (run : Text.CodeRun) : Bool :=
  Text.lowercaseRuns.all (runsApart run) && Text.uppercaseRuns.all (runsApart run) &&
    !run.contains '_'.toNat

theorem startsWord_of_contains {run : Text.CodeRun} (free : holdsNoLetter run = true)
    {character : Char} (held : run.contains character.toNat = true) :
    startsWord character = false := by
  simp only [holdsNoLetter, Bool.and_eq_true, Bool.not_eq_true'] at free
  have underscore : (character == '_') = false := by
    rw [beq_eq_false_iff_ne]
    rintro rfl
    rw [free.2] at held
    cases held
  rw [startsWord, Text.isLowercase, Text.isUppercase, not_covers_of_runsApart free.1.1 held,
    not_covers_of_runsApart free.1.2 held, underscore]
  rfl

theorem blanks_apart : Text.blankRuns.all holdsNoLetter = true := by decide +kernel

theorem blank_of_startsWord {character : Char} (starts : startsWord character = true) :
    Text.isBlank character = false := by
  by_contra blank
  rw [Bool.not_eq_false] at blank
  obtain ⟨run, member, holds⟩ := Text.CodeRun.exists_of_covers blank
  rw [startsWord_of_contains (List.all_eq_true.1 blanks_apart run member) holds] at starts
  cases starts

theorem digits_apart : holdsNoLetter ⟨'0'.toNat, '9'.toNat, 1⟩ = true := by decide +kernel

theorem digit_of_startsWord {character : Char} (starts : startsWord character = true) :
    character.isDigit = false := by
  by_contra digit
  rw [Bool.not_eq_false, Char.isDigit, Bool.and_eq_true, decide_eq_true_eq, decide_eq_true_eq]
    at digit
  rw [startsWord_of_contains digits_apart (contains_of_between digit.1 digit.2)] at starts
  cases starts

def punctuation : List Char := "-\x7b\x7d()[],;`\"'".toList

theorem punctuation_apart : ∀ character ∈ punctuation, startsWord character = false := by
  have each : (punctuation.all fun character => !startsWord character) = true := by decide +kernel
  intro character member
  simpa using List.all_eq_true.1 each character member

theorem cases_apart :
    (Text.uppercaseRuns.all fun run => Text.lowercaseRuns.all (runsApart run)) = true := by
  decide +kernel

theorem lower_of_upper {character : Char} (upper : Text.isUppercase character = true) :
    (Text.isLowercase character || character == '_') = false := by
  obtain ⟨run, member, holds⟩ := Text.CodeRun.exists_of_covers upper
  rw [Text.isLowercase, not_covers_of_runsApart (List.all_eq_true.1 cases_apart run member) holds,
    Bool.false_or, beq_eq_false_iff_ne]
  rintro rfl
  have underscore : Text.isUppercase '_' = false := by decide +kernel
  rw [underscore] at upper
  cases upper

theorem plain_of_apart {first : Char} (apart : ∀ character ∈ punctuation, first ≠ character)
    (rest : List Char) :
    (first == '{') = false ∧ (first == '"') = false ∧ (first == '\'') = false ∧
      startsLineComment (first :: rest) = false ∧ Token.spelled? delimiters [first] = none := by
  have dash : (first == '-') = false := by simpa using apart '-' (by decide)
  refine ⟨by simpa using apart '{' (by decide), by simpa using apart '"' (by decide),
    by simpa using apart '\'' (by decide), by simp [startsLineComment, dash], ?_⟩
  rw [Option.eq_none_iff_forall_ne_some]
  intro token found
  obtain ⟨entry, member, spelled, -⟩ := Token.mem_of_spelled? found
  have known : (delimiters.all fun entry =>
      entry.1.toList.all fun character => punctuation.contains character) = true := by decide
  have own := List.all_eq_true.1 (List.all_eq_true.1 known entry member) first
    (by rw [spelled]; exact List.mem_singleton_self _)
  exact apart first (List.contains_iff_mem.1 own) rfl

/-- A text that starts like a word is scanned as a run of letters. -/
theorem scan_of_startsWord (afterProper : Bool) {first : Char} (starts : startsWord first = true)
    (rest : List Char) :
    scan afterProper (first :: rest) =
      if Text.isLowercase first || first == '_' then scanVariable (first :: rest)
      else scanConstructor (first :: rest) := by
  have apart : ∀ character ∈ punctuation, first ≠ character := by
    rintro character member rfl
    rw [punctuation_apart first member] at starts
    cases starts
  obtain ⟨brace, quote, apostrophe, comment, delimiter⟩ := plain_of_apart apart rest
  unfold scan
  simp only [brace, comment, delimiter, quote, apostrophe, digit_of_startsWord starts,
    Bool.false_and, Bool.false_eq_true, if_false]
  split
  · rfl
  · rename_i other
    have upper : Text.isUppercase first = true := by
      rw [Bool.not_eq_true] at other
      rwa [startsWord, other, Bool.false_or] at starts
    rw [if_pos upper]

/-! The kinds of text. -/

section Kinds

variable {text after : List Char}

theorem exists_cons_of_leads {accepts : Char → Bool} (led : leads accepts text = true) :
    ∃ first rest, text = first :: rest ∧ accepts first = true := by
  cases text with
  | nil => cases led
  | cons first rest => exact ⟨first, rest, rfl, led⟩

/-- Letters that start with a lower case one, whatever they mean. -/
theorem takes_word (afterProper : Bool)
    (starts : leads (fun first => Text.isLowercase first || first == '_') text = true)
    (word : text.all continuesWord = true) (stops : leads continuesWord after = false) :
    Takes (scan afterProper (text ++ after)) (scanVariable text).token text := by
  have run := takeWhile_whole word stops
  have own : text.takeWhile continuesWord = text :=
    List.takeWhile_eq_self_iff.2 (List.all_eq_true.1 word)
  obtain ⟨first, rest, rfl, lower⟩ := exists_cons_of_leads starts
  have scanned : scan afterProper (first :: rest ++ after) = scanVariable (first :: rest ++ after) := by
    rw [List.cons_append, scan_of_startsWord afterProper (by rw [startsWord, lower, Bool.true_or]),
      if_pos lower]
  rw [scanned, scanVariable, scanVariable, run, own]
  exact ⟨rfl, rfl, rfl⟩

theorem takes_variable (afterProper : Bool) (spelled : isVariableText text = true)
    (stops : leads continuesWord after = false) :
    Takes (scan afterProper (text ++ after)) .identifier text := by
  simp only [isVariableText, Bool.and_eq_true, bne_iff_ne, Option.isNone_iff_eq_none] at spelled
  obtain ⟨⟨⟨starts, word⟩, notWildcard⟩, unreserved⟩ := spelled
  have own : text.takeWhile continuesWord = text :=
    List.takeWhile_eq_self_iff.2 (List.all_eq_true.1 word)
  have unnamed : (scanVariable text).token = .identifier := by
    simp only [scanVariable, own, if_neg notWildcard, unreserved, Option.getD_none]
  rw [← unnamed]
  exact takes_word afterProper starts word stops

theorem takes_constructor (afterProper : Bool) (spelled : isConstructorText text = true)
    (stops : leads continuesWord after = false) :
    Takes (scan afterProper (text ++ after)) .properIdentifier text := by
  rw [isConstructorText, Bool.and_eq_true] at spelled
  obtain ⟨starts, word⟩ := spelled
  have run := takeWhile_whole word stops
  obtain ⟨first, rest, rfl, upper⟩ := exists_cons_of_leads starts
  have scanned :
      scan afterProper (first :: rest ++ after) = scanConstructor (first :: rest ++ after) := by
    rw [List.cons_append, scan_of_startsWord afterProper (by rw [startsWord, upper, Bool.or_true]),
      if_neg (by rw [lower_of_upper upper]; exact Bool.false_ne_true)]
  rw [scanned, scanConstructor, run]
  exact ⟨rfl, rfl, rfl⟩

def symbolToken (text : List Char) : Token := (scanOperator text).token

/-- A run of symbols starts no comment, whatever other characters follow. -/
theorem startsLineComment_symbols (spelled : isSymbolRun text = true)
    (stops : leads isSymbol after = false) : startsLineComment (text ++ after) = false := by
  simp only [isSymbolRun, Bool.and_eq_true, Bool.not_eq_true', Bool.and_eq_false_iff,
    decide_eq_false_iff_not, Nat.not_le] at spelled
  obtain ⟨⟨-, symbols⟩, undashed⟩ := spelled
  have dash : leads (· == '-') after = false := by
    cases after with
    | nil => rfl
    | cons first rest =>
      rw [leads, List.head?_cons, Option.any_some, beq_eq_false_iff_ne]
      rintro rfl
      cases stops
  rw [startsLineComment, takeWhile_append dash]
  have split := List.takeWhile_append_dropWhile (p := (· == '-')) (l := text)
  generalize dashes : text.takeWhile (· == '-') = front at split ⊢
  cases behind : text.dropWhile (· == '-') with
  | nil =>
    rw [behind, List.append_nil] at split
    have all : text.all (· == '-') = true := by
      rw [← split, ← dashes, List.all_takeWhile]
    have short : text.length < 2 := undashed.resolve_right (by rw [all]; simp)
    rw [split]
    simp [Nat.not_le.2 short]
  | cons first rest =>
    have symbol : isSymbol first = true := by
      apply List.all_eq_true.1 symbols
      rw [← split, behind]
      simp
    rw [← split, behind, List.append_assoc, List.drop_left]
    simp [leads, symbol]

theorem takes_symbols (spelled : isSymbolRun text = true) (stops : leads isSymbol after = false) :
    Takes (scan false (text ++ after)) (symbolToken text) text := by
  have comment := startsLineComment_symbols spelled stops
  have symbols : text.all isSymbol = true := by
    simp only [isSymbolRun, Bool.and_eq_true] at spelled
    exact spelled.1.2
  have run := takeWhile_whole symbols stops
  have own : text.takeWhile isSymbol = text := by
    rw [← List.append_nil text, takeWhile_whole symbols rfl, List.append_nil]
  have scanned : scan false (text ++ after) = scanOperator (text ++ after) := by
    cases text with
    | nil => cases spelled
    | cons first rest =>
      rw [List.all_cons, Bool.and_eq_true] at symbols
      rw [List.cons_append] at comment ⊢
      rw [scan_of_symbol symbols.1, comment]
      rfl
  rw [scanned, symbolToken, scanOperator, scanOperator, run, own]
  exact ⟨rfl, rfl, rfl⟩

structure IsOperator (token : Token) (text : List Char) : Prop where
  operator : token.isOperator = true
  kind : token.isConstructorOperator = leads (· == ':') text
  sign : token = .minus ↔ text = ['-']

theorem reserved_isOperator : ∀ entry ∈ reservedOperators, entry.2.isOperator = true →
    entry.2.isConstructorOperator = leads (· == ':') entry.1.toList ∧
      (entry.2 = .minus ↔ entry.1.toList = ['-']) := by
  decide

theorem symbols_of_operator (spelled : isOperatorText text = true) :
    isSymbolRun text = true ∧ text.all isSymbol = true := by
  rw [isOperatorText, Bool.and_eq_true] at spelled
  have run := spelled.1
  simp only [isSymbolRun, Bool.and_eq_true] at run
  exact ⟨spelled.1, run.1.2⟩

theorem symbolToken_isOperator (spelled : isOperatorText text = true) :
    IsOperator (symbolToken text) text := by
  have symbols := (symbols_of_operator spelled).2
  have run : text.takeWhile isSymbol = text := List.takeWhile_eq_self_iff.2 (List.all_eq_true.1 symbols)
  rw [isOperatorText, Bool.and_eq_true, isReservedText, Bool.not_eq_true'] at spelled
  rw [symbolToken, scanOperator, run]
  cases found : Token.spelled? reservedOperators text with
  | some token =>
    rw [found, Option.any_some, Bool.not_eq_false'] at spelled
    obtain ⟨entry, member, rfl, rfl⟩ := Token.mem_of_spelled? found
    obtain ⟨kind, sign⟩ := reserved_isOperator entry member spelled.2
    exact ⟨spelled.2, kind, sign⟩
  | none =>
    have other : text ≠ ['-'] := by
      rintro rfl
      cases found
    cases colon : leads (· == ':') text with
    | true => exact ⟨rfl, colon.symm, iff_of_false (by simp) other⟩
    | false => exact ⟨rfl, colon.symm, iff_of_false (by simp) other⟩

/-- A dot after a proper identifier, before an operator or before anything that is no symbol. -/
theorem takes_dot (afterProper : Bool)
    (goesOn : afterProper = true ∧ qualifies after = true ∨ leads isSymbol after = false) :
    Takes (scan afterProper ('.' :: after)) .dot ['.'] := by
  rcases goesOn with ⟨rfl, qualifying⟩ | stops
  · rw [scan_qualifying qualifying]
    exact ⟨rfl, rfl, rfl⟩
  · have unqualified : qualifies after = false := by
      cases after with
      | nil => rfl
      | cons first rest =>
        have other : isSymbol first = false := stops
        have dot : (first == '.') = false := by
          rw [beq_eq_false_iff_ne]
          rintro rfl
          cases other
        simp [qualifies, leads, other, dot]
    have plain : scan afterProper ('.' :: after) = scan false ('.' :: after) := by
      unfold scan
      simp only [unqualified, Bool.and_false]
    rw [plain]
    exact @takes_symbols ['.'] after (by decide) stops

def separators : List Token :=
  [.openParen, .closeParen, .openBracket, .closeBracket, .comma, .backtick]

theorem takes_separator (afterProper : Bool) {token : Token} (known : token ∈ separators) :
    Takes (scan afterProper (token.display.toList ++ after)) token token.display.toList := by
  simp only [separators, List.mem_cons, List.not_mem_nil, or_false] at known
  rcases known with rfl | rfl | rfl | rfl | rfl | rfl <;> exact ⟨rfl, rfl, rfl⟩

/-! Numbers. -/

theorem covers_of_first {run : Text.CodeRun} {table : List Text.CodeRun} {code : Nat}
    (held : run.contains code = true) : Text.CodeRun.covers (run :: table) code = true := by
  have low : run.first ≤ code := by
    simp only [Text.CodeRun.contains, Bool.and_eq_true, decide_eq_true_eq] at held
    exact held.1.1
  rw [Text.CodeRun.covers, if_neg (Nat.not_lt.2 low), held, Bool.true_or]

theorem continuesWord_of_isDigit {character : Char} (digit : character.isDigit = true) :
    continuesWord character = true := by
  rw [Char.isDigit, Bool.and_eq_true, decide_eq_true_eq, decide_eq_true_eq] at digit
  have numeric : Text.isNumeric character = true :=
    covers_of_first (@contains_of_between '0'.toNat '9'.toNat _ digit.1 digit.2)
  simp [continuesWord, Text.isAlphanumeric, numeric]

theorem blank_of_isDigit {character : Char} (digit : character.isDigit = true) :
    Text.isBlank character = false := by
  rw [Char.isDigit, Bool.and_eq_true, decide_eq_true_eq, decide_eq_true_eq] at digit
  have apart : Text.blankRuns.all (runsApart ⟨'0'.toNat, '9'.toNat, 1⟩) = true := by decide
  exact not_covers_of_runsApart apart (contains_of_between digit.1 digit.2)

theorem continuesWord_of_radixDigit (radix : Text.Radix) {character : Char}
    (digit : radix.isDigit character = true) : continuesWord character = true := by
  have valued : Text.digitValue? character ≠ none := by
    intro none
    rw [Text.Radix.isDigit, none] at digit
    cases digit
  unfold Text.digitValue? at valued
  split at valued
  · exact continuesWord_of_isDigit ‹_›
  · split at valued
    · rename_i small
      have letter : Text.isLowercase character = true :=
        covers_of_first (@contains_of_between 'a'.toNat 'z'.toNat _ small.1
          (Nat.le_trans small.2 (by decide)))
      exact continuesWord_of_isLowercase letter
    · split at valued
      · rename_i capital
        have letter : Text.isUppercase character = true :=
          covers_of_first (@contains_of_between 'A'.toNat 'Z'.toNat _ capital.1
            (Nat.le_trans capital.2 (by decide)))
        exact continuesWord_of_isUppercase letter
      · exact absurd rfl valued

/-- Counts characters at the start of a text, and counts the same when nothing goes on behind it. -/
def IsStable (width : List Char → Nat) : Prop :=
  ∀ text after, Apart after → width (text ++ after) = width text

theorem stable_run {accepts : Char → Bool} (known : ∀ character, accepts character = true →
      continuesWord character = true ∨ isSymbol character = true) :
    IsStable fun text => (text.takeWhile accepts).length := by
  intro text after apart
  simp only [takeWhile_append (apart.stops known)]

theorem stable_add {first second : List Char → Nat} (one : IsStable first)
    (other : IsStable second) : IsStable fun text => first text + second text := by
  intro text after apart
  simp only [one text after apart, other text after apart]

theorem stable_marked {accepts : Char → Bool} {width : List Char → Nat}
    (known : ∀ character, accepts character = true →
      continuesWord character = true ∨ isSymbol character = true)
    (inner : IsStable width) : IsStable (IsLocal.marked accepts width) := by
  intro text after apart
  cases text with
  | nil =>
    have stops := apart.stops known
    simp [IsLocal.marked, stops, show leads accepts [] = false from rfl]
  | cons first rest =>
    have same := inner rest after apart
    simp only [IsLocal.marked, List.cons_append, List.drop_succ_cons, List.drop_zero, same]
    rfl

theorem stable_digits : IsStable fun text => (text.takeWhile Char.isDigit).length :=
  stable_run fun _ digit => Or.inl (continuesWord_of_isDigit digit)

theorem stable_fraction : IsStable fractionWidth := by
  rw [fractionWidth_eq]
  refine stable_marked (fun character dot => Or.inr ?_) stable_digits
  rw [eq_of_beq dot]
  decide

theorem stable_exponent : IsStable (exponentWidth Char.isDigit) := by
  rw [exponentWidth_eq]
  refine stable_marked ?_ (stable_add (stable_marked ?_ stable_digits) stable_digits)
  · intro character mark
    left
    rcases Bool.or_eq_true _ _ ▸ mark with small | big
    · rw [eq_of_beq small]
      decide
    · rw [eq_of_beq big]
      decide
  · intro character sign
    right
    rcases Bool.or_eq_true _ _ ▸ sign with plus | minus
    · rw [eq_of_beq plus]
      decide
    · rw [eq_of_beq minus]
      decide

theorem scanDecimal_append (apart : Apart after) : scanDecimal (text ++ after) = scanDecimal text := by
  have whole := stable_digits text after apart
  have wholeWithin := length_takeWhile_le_length Char.isDigit text
  simp only [scanDecimal, whole]
  generalize (text.takeWhile Char.isDigit).length = count at wholeWithin
  have fractionWithin := fractionWidth_le (text.drop count)
  rw [List.length_drop] at fractionWithin
  rw [drop_append_within wholeWithin, stable_fraction _ _ apart]
  generalize fractionWidth (text.drop count) = fraction at fractionWithin
  rw [drop_append_within (by omega), stable_exponent _ _ apart]

theorem ofLetter?_eq_none {letter : Char} (other : continuesWord letter = false) :
    Text.Radix.ofLetter? letter = none := by
  unfold Text.Radix.ofLetter?
  split <;> first | rfl | (exact absurd other (by decide))

theorem radixOf?_append (some : text ≠ []) (apart : Apart after) :
    radixOf? (text ++ after) = radixOf? text := by
  obtain ⟨first, rest, rfl⟩ := List.exists_cons_of_ne_nil some
  cases rest with
  | cons second rest => 
      by_cases zero : first = '0'
      · subst zero
        rfl
      · simp [radixOf?, zero]
  | nil =>
    cases after with
    | nil => rfl
    | cons letter rest => 
      by_cases zero : first = '0'
      · subst zero
        exact ofLetter?_eq_none apart.word
      · simp [radixOf?, zero]

theorem scanNumber_append (apart : Apart after) (whole : (scanNumber text).width = text.length)
    (some : text ≠ []) : scanNumber (text ++ after) = scanNumber text := by
  have same := radixOf?_append some apart
  unfold scanNumber at whole ⊢
  rw [same]
  split
  · rename_i radix found
    rw [found] at whole
    have within : 2 ≤ text.length := by
      rw [← whole]
      exact Nat.le_add_right 2 _
    have stops := apart.stops fun _ digit => Or.inl (continuesWord_of_radixDigit radix digit)
    simp only [scanRadix, drop_append_within within, takeWhile_append stops]
  · exact scanDecimal_append apart

theorem scan_of_digit (afterProper : Bool) {first : Char} (digit : first.isDigit = true)
    (rest : List Char) : scan afterProper (first :: rest) = scanNumber (first :: rest) := by
  have apart : ∀ character ∈ punctuation, first ≠ character := by
    have none : (punctuation.all fun character => !character.isDigit) = true := by decide
    rintro character member rfl
    have own := List.all_eq_true.1 none first member
    rw [digit] at own
    cases own
  obtain ⟨brace, quote, apostrophe, comment, delimiter⟩ := plain_of_apart apart rest
  unfold scan
  simp only [brace, comment, delimiter, quote, apostrophe, digit, Bool.false_and,
    Bool.false_eq_true, if_false, if_true]

def isWholeLiteral (text : List Char) : Bool :=
  let found := scan false text
  leads startsLiteral text && found.width == text.length && found.defect.isNone

theorem whole_of_literal (spelled : isLiteralText text = true) :
    isWholeLiteral text = true ∧ '\n' ∉ text := by
  simpa [isLiteralText, isWholeLiteral] using spelled

def literalToken (text : List Char) : Token := (scan false text).token

/-- A literal ends by itself, or where no word and no symbol goes on. -/
theorem scan_literal (afterProper : Bool) (spelled : isWholeLiteral text = true)
    (apart : Apart after) : scan afterProper (text ++ after) = scan false text := by
  simp only [isWholeLiteral, Bool.and_eq_true, beq_iff_eq, Option.isNone_iff_eq_none] at spelled
  obtain ⟨⟨starts, width⟩, sound⟩ := spelled
  obtain ⟨first, rest, rfl, kind⟩ := exists_cons_of_leads starts
  simp only [startsLiteral, Bool.or_eq_true, beq_iff_eq] at kind
  rcases kind with (digit | rfl) | rfl
  · rw [scan_of_digit false digit] at width ⊢
    rw [List.cons_append, scan_of_digit afterProper digit]
    exact scanNumber_append apart width (List.cons_ne_nil _ _)
  · have own : scan false ('"' :: rest) = scanString (rest ++ []) := by
      rw [List.append_nil]
      rfl
    rw [own] at width sound ⊢
    exact scanString_cut after width sound
  · have own : scan false ('\'' :: rest) = scanCharacter (rest ++ []) := by
      rw [List.append_nil]
      rfl
    rw [own] at width sound ⊢
    exact scanCharacter_cut after width sound

theorem literalToken_isLiteral (spelled : isWholeLiteral text = true) :
    (literalToken text).isLiteral = true := by
  simp only [isWholeLiteral, Bool.and_eq_true] at spelled
  obtain ⟨first, rest, rfl, kind⟩ := exists_cons_of_leads spelled.1.1
  simp only [startsLiteral, Bool.or_eq_true, beq_iff_eq] at kind
  rcases kind with (digit | rfl) | rfl
  · rw [literalToken, scan_of_digit false digit, scanNumber]
    split
    · rfl
    · simp only [scanDecimal]
      split <;> rfl
  · rfl
  · rfl

theorem takes_literal (afterProper : Bool) (spelled : isWholeLiteral text = true)
    (apart : Apart after) :
    Takes (scan afterProper (text ++ after)) (literalToken text) text := by
  rw [scan_literal afterProper spelled apart]
  simp only [isWholeLiteral, Bool.and_eq_true, beq_iff_eq, Option.isNone_iff_eq_none] at spelled
  exact ⟨rfl, spelled.1.2, spelled.2⟩

end Kinds

end Offside.Haskell.Core
