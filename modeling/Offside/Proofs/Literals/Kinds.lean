import Mathlib.Data.Bool.AllAny
import Offside.Proofs.Endings.HaskellScans
import Offside.Python.Scan

/-!
Where literals start. The characters of numbers are listed, so that what a scanner asks of a character is
whether it is one of these. A text that starts with neither a digit nor a quote is read as another kind
of token; in Python a point may stand in front of the digit, and letters in front of the quote.
-/

namespace Offside

set_option autoImplicit false

open Offside.Lexical

namespace Text

def decimals : List Char := ['0', '1', '2', '3', '4', '5', '6', '7', '8', '9']

def Radix.letters : Radix → List Char
  | .binary => ['b', 'B']
  | .octal => ['o', 'O']
  | .hexadecimal => ['x', 'X']

def Radix.digits : Radix → List Char
  | .binary => ['0', '1']
  | .octal => ['0', '1', '2', '3', '4', '5', '6', '7']
  | .hexadecimal => decimals ++ ['a', 'b', 'c', 'd', 'e', 'f', 'A', 'B', 'C', 'D', 'E', 'F']

theorem forall_ascii {holds : Char → Prop} (checked : ∀ code < 128, holds (.ofNat code))
    {character : Char} (ascii : character.toNat < 128) : holds character := by
  have own := checked character.toNat ascii
  rwa [Char.ofNat_toNat] at own

theorem ascii_of_isDigit {character : Char} (digit : character.isDigit = true) :
    character.toNat < 128 := by
  have bound : character.val ≤ '9'.val := (by simpa [Char.isDigit] using digit : _ ∧ _).2
  exact Nat.lt_of_le_of_lt (UInt32.le_iff_toNat_le.1 bound) (by decide)

theorem isDigit_iff (character : Char) : character.isDigit = true ↔ character ∈ decimals := by
  constructor
  · intro digit
    exact @forall_ascii (fun character => character.isDigit = true → character ∈ decimals)
      (by decide) character (ascii_of_isDigit digit) digit
  · have listed : ∀ character ∈ decimals, character.isDigit = true :=
      List.all_iff_forall_prop.1 (by decide)
    exact listed character

theorem ascii_of_digitValue? {character : Char} {value : Nat}
    (digit : digitValue? character = some value) : character.toNat < 128 := by
  unfold digitValue? at digit
  split at digit
  · exact ascii_of_isDigit ‹_›
  · split at digit
    · have bound : character.toNat ≤ 'f'.toNat := (by assumption : _ ∧ _).2
      exact Nat.lt_of_le_of_lt bound (by decide)
    · split at digit
      · have bound : character.toNat ≤ 'F'.toNat := (by assumption : _ ∧ _).2
        exact Nat.lt_of_le_of_lt bound (by decide)
      · cases digit

namespace Radix

theorem isDigit_iff (radix : Radix) (character : Char) :
    radix.isDigit character = true ↔ character ∈ radix.digits := by
  constructor
  · intro digit
    have ascii : character.toNat < 128 := by
      unfold isDigit at digit
      split at digit
      · exact ascii_of_digitValue? ‹_›
      · cases digit
    have checked : ∀ code < 128, radix.isDigit (.ofNat code) = true →
        Char.ofNat code ∈ radix.digits := by
      cases radix <;> decide
    exact @forall_ascii (fun character => radix.isDigit character = true →
      character ∈ radix.digits) checked character ascii digit
  · have listed : ∀ character ∈ radix.digits, radix.isDigit character = true :=
      List.all_iff_forall_prop.1 (by cases radix <;> decide)
    exact listed character

theorem ofLetter?_iff (radix : Radix) (letter : Char) :
    ofLetter? letter = some radix ↔ letter ∈ radix.letters := by
  constructor
  · intro announced
    unfold ofLetter? at announced
    split at announced <;> cases announced <;> decide
  · have listed : ∀ letter ∈ radix.letters, ofLetter? letter = some radix :=
      List.all_iff_forall_prop.1 (by cases radix <;> decide)
    exact listed letter

end Radix

end Text

/-- The kinds of token that are numbers or strings. -/
def Token.literals : List Token := [.integer, .float, .string]

namespace Python

variable {text : List Char}

theorem scan_of_number (number : startsNumber text = true) : scan text = scanNumber text :=
  if_pos number

theorem scan_not_literal (noNumber : startsNumber text = false)
    (noString : stringPrefixWidth? text = none) : (scan text).token ∉ Token.literals := by
  have symbols_apart : ∀ entry ∈ symbols, entry.2 ∉ Token.literals := by decide
  rw [scan, if_neg (by simp [noNumber]), noString]
  simp only
  split
  · exact Token.forall_of_getD (· ∉ Token.literals) (by decide) (by decide) _
  · unfold scanSymbol
    split
    · exact symbols_apart _ (List.mem_of_find?_eq_some ‹_›)
    · decide

theorem startsNumber_of_scan
    (scanned : (scan text).token = .integer ∨ (scan text).token = .float) :
    startsNumber text = true := by
  apply Classical.byContradiction
  intro other
  have noNumber := Bool.eq_false_iff.2 other
  cases string : stringPrefixWidth? text with
  | none =>
    apply scan_not_literal noNumber string
    rcases scanned with kind | kind <;> rw [kind] <;> decide
  | some prefixWidth =>
    have kind : (scan text).token = .string := by
      rw [scan, if_neg other, string]
      exact scanString_kind prefixWidth text
    rw [kind] at scanned
    exact absurd scanned (by decide)

theorem exists_prefix_of_scan (scanned : (scan text).token = .string) :
    ∃ prefixWidth, stringPrefixWidth? text = some prefixWidth := by
  cases number : startsNumber text with
  | true =>
    rw [scan_of_number number] at scanned
    rcases scanNumber_kind text with kind | kind <;> rw [kind] at scanned <;> cases scanned
  | false =>
    apply Option.ne_none_iff_exists'.1
    intro none
    apply scan_not_literal number none
    rw [scanned]
    decide

end Python

namespace Haskell

variable {text : List Char}

theorem scan_not_literal (afterProper : Bool) (noNumber : leads Char.isDigit text = false)
    (noString : leads (· == '"') text = false) : (scan afterProper text).token ∉ Token.literals := by
  have scanned := scan_scanned afterProper text
  generalize scan afterProper text = found at scanned ⊢
  cases scanned with
  | string => cases noString
  | number rest digit => exact absurd digit (Bool.eq_false_iff.1 noNumber)
  | ended => exact (by decide : Token.endOfInput ∉ Token.literals)
  | blockComment => exact (by decide : Token.comment ∉ Token.literals)
  | lineComment => exact (by decide : Token.comment ∉ Token.literals)
  | delimiter rest spelled =>
    exact Token.forall_of_spelled? (· ∉ Token.literals) (by decide) spelled
  | character => exact (by decide : Token.character ∉ Token.literals)
  | word => exact scanVariable_token (· ∉ Token.literals) (by decide) (by decide) (by decide) _
  | properWord => exact (by decide : Token.properIdentifier ∉ Token.literals)
  | qualifyingDot => exact (by decide : Token.dot ∉ Token.literals)
  | operator => exact scanOperator_token (· ∉ Token.literals) (by decide) (by decide) (by decide) _
  | unknown => exact (by decide : Token.invalid ∉ Token.literals)

theorem scan_of_digit (afterProper : Bool) (number : leads Char.isDigit text = true) :
    scan afterProper text = scanNumber text := by
  have plain : ∀ first ∈ Text.decimals, (first == '{') = false ∧ (first == '-') = false ∧
      Token.spelled? delimiters [first] = none ∧ (first == '"') = false ∧
      (first == '\'') = false :=
    List.all_iff_forall_prop.1 (by decide)
  cases text with
  | nil => cases number
  | cons first rest =>
    have digit : first.isDigit = true := number
    obtain ⟨noBlock, noDash, noDelimiter, noString, noCharacter⟩ :=
      plain first ((Text.isDigit_iff first).1 digit)
    have noComment : startsLineComment (first :: rest) = false := by
      simp [startsLineComment, noDash]
    simp [scan, noBlock, noComment, noDelimiter, noString, noCharacter, digit]

theorem exists_of_leads_quote (quoted : leads (· == '"') text = true) :
    ∃ rest, text = '"' :: rest := by
  cases text with
  | nil => cases quoted
  | cons first rest => exact ⟨rest, congrArg (· :: rest) (beq_iff_eq.1 quoted)⟩

theorem leads_digit_of_scan {afterProper : Bool}
    (scanned : (scan afterProper text).token = .integer ∨ (scan afterProper text).token = .float) :
    leads Char.isDigit text = true := by
  apply Classical.byContradiction
  intro other
  have noNumber := Bool.eq_false_iff.2 other
  cases quoted : leads (· == '"') text with
  | false =>
    apply scan_not_literal afterProper noNumber quoted
    rcases scanned with kind | kind <;> rw [kind] <;> decide
  | true =>
    obtain ⟨rest, rfl⟩ := exists_of_leads_quote quoted
    rw [scan_string] at scanned
    exact absurd scanned (by decide : ¬(Token.string = .integer ∨ Token.string = .float))

theorem leads_quote_of_scan {afterProper : Bool} (scanned : (scan afterProper text).token = .string) :
    leads (· == '"') text = true := by
  cases number : leads Char.isDigit text with
  | true =>
    rw [scan_of_digit afterProper number] at scanned
    rcases scanNumber_kind text with kind | kind <;> rw [kind] at scanned <;> cases scanned
  | false =>
    rw [← Bool.not_eq_false]
    intro other
    apply scan_not_literal afterProper number other
    rw [scanned]
    decide

end Haskell

end Offside
