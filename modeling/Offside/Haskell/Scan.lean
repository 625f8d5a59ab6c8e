import Offside.Haskell.Literal
import Offside.Text.Blank
import Offside.Text.Numeric

/-!
Written tokens of Haskell, before layout. A run of symbol characters is one operator, reserved or
not. A dot that touches the proper identifier before it qualifies the operator after it, so that
`M.!` names `!` of `M`, while `[A ..]` stays an enumeration even without the blank.
-/

namespace Offside.Haskell

set_option autoImplicit false

open Offside.Lexical

def keywords : List (String × Token) :=
  [("case", .kwCase), ("class", .kwClass), ("data", .kwData), ("default", .kwDefault),
   ("deriving", .kwDeriving), ("do", .kwDo), ("else", .kwElse), ("foreign", .kwForeign),
   ("if", .kwIf), ("import", .kwImport), ("in", .kwIn), ("infix", .kwFixity),
   ("infixl", .kwFixityLeft), ("infixr", .kwFixityRight), ("instance", .kwInstance),
   ("let", .kwLet), ("module", .kwModule), ("newtype", .kwNewtype), ("of", .kwOf),
   ("then", .kwThen), ("type", .kwType), ("where", .kwWhere)]

def reservedOperators : List (String × Token) :=
  [("..", .doubleDot), (":", .colon), ("::", .doubleColon), ("=", .equals), ("\\", .backslash),
   ("|", .pipe), ("<-", .leftArrow), ("->", .arrow), ("@", .atSign), ("~", .tilde),
   ("=>", .doubleArrow), ("-", .minus), (".", .dot)]

/-- Delimiters of one character, which never join with their neighbours. -/
def delimiters : List (String × Token) :=
  [("(", .openParen), (")", .closeParen), (",", .comma), (";", .semicolon), ("[", .openBracket),
   ("]", .closeBracket), ("\x60", .backtick), ("\x7b", .openBrace), ("\x7d", .closeBrace)]

def symbolCharacters : List Char := "!#$%&*+./<=>?@\\^|-~:".toList

def isSymbol (character : Char) : Bool := symbolCharacters.contains character

def continuesWord (character : Char) : Bool :=
  Text.isAlphanumeric character || character == '_' || character == '\''

/-- A run of at least two dashes opens a comment unless it goes on as an operator. -/
def startsLineComment (text : List Char) : Bool :=
  let dashes := (text.takeWhile (· == '-')).length
  decide (2 ≤ dashes) && !leads isSymbol (text.drop dashes)

def scanLineComment (text : List Char) : Scan :=
  { token := .comment, width := (text.takeWhile (· != '\n')).length }

def scanVariable (text : List Char) : Scan :=
  let word := text.takeWhile continuesWord
  let token :=
    if word = ['_'] then .underscore else (Token.spelled? keywords word).getD .identifier
  { token, width := word.length }

def scanConstructor (text : List Char) : Scan :=
  { token := .properIdentifier, width := (text.takeWhile continuesWord).length }

def scanOperator (text : List Char) : Scan :=
  let run := text.takeWhile isSymbol
  let unreserved := if leads (· == ':') run then Token.constructorSymbol else .operatorSymbol
  { token := (Token.spelled? reservedOperators run).getD unreserved, width := run.length }

/-- The text after a dot makes it a qualifying one: an operator follows, and not the second dot of
an enumeration. -/
def qualifies (rest : List Char) : Bool :=
  if leads (· == '.') rest then leads isSymbol (rest.drop 1) else leads isSymbol rest

/-- The token at the start of a text that does not start with a blank. The flag says that a proper
identifier ends there. -/
def scan (afterProper : Bool) (text : List Char) : Scan :=
  match text with
  | [] => { token := .endOfInput, width := 0 }
  | first :: rest =>
      if first == '{' && leads (· == '-') rest then scanBlockComment (rest.drop 1)
      else if startsLineComment text then scanLineComment text
      else
        match Token.spelled? delimiters [first] with
        | some token => { token, width := 1 }
        | none =>
            if first == '"' then scanString rest
            else if first == '\'' then scanCharacter rest
            else if first.isDigit then scanNumber text
            else if Text.isLowercase first || first == '_' then scanVariable text
            else if Text.isUppercase first then scanConstructor text
            else if first == '.' && afterProper && qualifies rest then
              { token := .dot, width := 1 }
            else if isSymbol first then scanOperator text
            else { token := .invalid, width := 1, defect := some ⟨.unexpectedCharacter, 1⟩ }

/-- What a scan finds, by the rule under which it finds it. -/
inductive Scanned (afterProper : Bool) : List Char → Scan → Prop
  | ended : Scanned afterProper [] { token := .endOfInput, width := 0 }
  | blockComment {rest : List Char} (opens : leads (· == '-') rest = true) :
      Scanned afterProper ('{' :: rest) (scanBlockComment (rest.drop 1))
  | lineComment {text : List Char} (starts : startsLineComment text = true) :
      Scanned afterProper text (scanLineComment text)
  | delimiter {first : Char} {token : Token} (rest : List Char)
      (spelled : Token.spelled? delimiters [first] = some token) :
      Scanned afterProper (first :: rest) { token, width := 1 }
  | string (rest : List Char) : Scanned afterProper ('"' :: rest) (scanString rest)
  | character (rest : List Char) : Scanned afterProper ('\'' :: rest) (scanCharacter rest)
  | number {first : Char} (rest : List Char) (digit : first.isDigit = true) :
      Scanned afterProper (first :: rest) (scanNumber (first :: rest))
  | word {first : Char} (rest : List Char)
      (lower : (Text.isLowercase first || first == '_') = true) :
      Scanned afterProper (first :: rest) (scanVariable (first :: rest))
  | properWord {first : Char} (rest : List Char) (upper : Text.isUppercase first = true) :
      Scanned afterProper (first :: rest) (scanConstructor (first :: rest))
  | qualifyingDot {rest : List Char} (touches : afterProper = true)
      (qualifying : qualifies rest = true) :
      Scanned afterProper ('.' :: rest) { token := .dot, width := 1 }
  | operator {first : Char} (rest : List Char) (symbol : isSymbol first = true) :
      Scanned afterProper (first :: rest) (scanOperator (first :: rest))
  | unknown (first : Char) (rest : List Char) :
      Scanned afterProper (first :: rest)
        { token := .invalid, width := 1, defect := some ⟨.unexpectedCharacter, 1⟩ }

theorem Scanned.ite {condition : Prop} [Decidable condition] {afterProper : Bool} {text : List Char}
    {found other : Scan} (holds : condition → Scanned afterProper text found)
    (fails : ¬condition → Scanned afterProper text other) :
    Scanned afterProper text (if condition then found else other) := by
  split
  · exact holds ‹_›
  · exact fails ‹_›

theorem scan_scanned (afterProper : Bool) (text : List Char) :
    Scanned afterProper text (scan afterProper text) := by
  cases text with
  | nil => exact .ended
  | cons first rest =>
    unfold scan
    simp only
    refine .ite (fun opens => ?_) fun _ => .ite .lineComment fun _ => ?_
    · obtain ⟨brace, dash⟩ := Bool.and_eq_true_iff.1 opens
      rw [beq_iff_eq.1 brace]
      exact .blockComment dash
    · cases spelled : Token.spelled? delimiters [first] with
      | some token => exact .delimiter rest spelled
      | none =>
        refine .ite (fun quote => ?_) fun _ => .ite (fun quote => ?_) fun _ =>
          .ite (.number rest) fun _ => .ite (.word rest) fun _ => .ite (.properWord rest) fun _ =>
          .ite (fun dot => ?_) fun _ => .ite (.operator rest) fun _ => .unknown first rest
        · rw [beq_iff_eq.1 quote]
          exact .string rest
        · rw [beq_iff_eq.1 quote]
          exact .character rest
        · obtain ⟨touching, qualifying⟩ := Bool.and_eq_true_iff.1 dot
          obtain ⟨isDot, touches⟩ := Bool.and_eq_true_iff.1 touching
          rw [beq_iff_eq.1 isDot]
          exact .qualifyingDot touches qualifying

/-! What the scan of a number, of a word or of an operator can be. -/

theorem scanNumber_kind (text : List Char) :
    (scanNumber text).token = .integer ∨ (scanNumber text).token = .float := by
  unfold scanNumber
  split
  · exact .inl rfl
  · simp only [scanDecimal]
    split
    · exact .inr rfl
    · exact .inl rfl

theorem scanVariable_token (holds : Token → Prop) (underscore : holds .underscore)
    (identifier : holds .identifier) (each : ∀ entry ∈ keywords, holds entry.2)
    (text : List Char) : holds (scanVariable text).token := by
  simp only [scanVariable]
  split
  · exact underscore
  · exact Token.forall_of_getD holds each identifier _

theorem scanOperator_token (holds : Token → Prop) (constructorSymbol : holds .constructorSymbol)
    (operatorSymbol : holds .operatorSymbol) (each : ∀ entry ∈ reservedOperators, holds entry.2)
    (text : List Char) : holds (scanOperator text).token := by
  apply Token.forall_of_getD holds each
  split
  · exact constructorSymbol
  · exact operatorSymbol

theorem length_takeWhile_pos {accepts : Char → Bool} {first : Char} (rest : List Char)
    (accepted : accepts first = true) : 0 < ((first :: rest).takeWhile accepts).length := by
  simp [accepted]

theorem scanNumber_width_pos {first : Char} (rest : List Char) (digit : first.isDigit = true) :
    0 < (scanNumber (first :: rest)).width := by
  unfold scanNumber
  split
  · simp only [scanRadix]
    omega
  · have whole := length_takeWhile_pos rest digit
    simp only [scanDecimal]
    omega

theorem continuesWord_of_isLowercase {character : Char}
    (lowercase : Text.isLowercase character = true) : continuesWord character = true := by
  simp [continuesWord,
    Text.isAlphanumeric_of_isAlphabetic (Text.isAlphabetic_of_isLowercase lowercase)]

theorem continuesWord_of_isUppercase {character : Char}
    (uppercase : Text.isUppercase character = true) : continuesWord character = true := by
  simp [continuesWord,
    Text.isAlphanumeric_of_isAlphabetic (Text.isAlphabetic_of_isUppercase uppercase)]

theorem scan_width_pos (afterProper : Bool) {text : List Char} (remains : text ≠ []) :
    0 < (scan afterProper text).width := by
  have scanned := scan_scanned afterProper text
  generalize scan afterProper text = found at scanned ⊢
  cases scanned with
  | ended => exact absurd rfl remains
  | blockComment =>
    simp only [scanBlockComment]
    omega
  | lineComment starts =>
    obtain ⟨first, rest, rfl⟩ := List.exists_cons_of_ne_nil remains
    have dashes : 2 ≤ ((first :: rest).takeWhile (· == '-')).length := by
      simp only [startsLineComment, Bool.and_eq_true, decide_eq_true_eq] at starts
      exact starts.1
    have isDash : first = '-' := by
      apply Classical.byContradiction
      intro differs
      simp [differs] at dashes
    exact length_takeWhile_pos rest (by simp [isDash])
  | delimiter => exact Nat.one_pos
  | string =>
    simp only [scanString]
    omega
  | character =>
    simp only [scanCharacter]
    split <;> omega
  | number rest digit => exact scanNumber_width_pos rest digit
  | word rest lower =>
    refine length_takeWhile_pos rest ?_
    rcases Bool.or_eq_true _ _ ▸ lower with lowercase | underscore
    · exact continuesWord_of_isLowercase lowercase
    · simp [continuesWord, underscore]
  | properWord rest upper => exact length_takeWhile_pos rest (continuesWord_of_isUppercase upper)
  | qualifyingDot => exact Nat.one_pos
  | operator rest symbol => exact length_takeWhile_pos rest symbol
  | unknown => exact Nat.one_pos

end Offside.Haskell
