import Offside.Python.Literal
import Offside.Text.Numeric

/-!
The tokens of one line of Python: words, literals, operators and brackets. Operators are read by
longest match against their spellings, and a character that starts no token is one by itself.
-/

namespace Offside.Python

set_option autoImplicit false

open Offside.Lexical

def keywords : List (String × Token) :=
  [("and", .kwAnd), ("as", .kwAs), ("assert", .kwAssert), ("break", .kwBreak), ("class", .kwClass),
   ("continue", .kwContinue), ("def", .kwDef), ("del", .kwDel), ("elif", .kwElif),
   ("else", .kwElse), ("except", .kwExcept), ("exec", .kwExec), ("finally", .kwFinally),
   ("for", .kwFor), ("from", .kwFrom), ("global", .kwGlobal), ("if", .kwIf), ("import", .kwImport),
   ("in", .kwIn), ("is", .kwIs), ("lambda", .kwLambda), ("nonlocal", .kwNonlocal), ("not", .kwNot),
   ("or", .kwOr), ("pass", .kwPass), ("print", .kwPrint), ("raise", .kwRaise),
   ("return", .kwReturn), ("try", .kwTry), ("while", .kwWhile), ("with", .kwWith),
   ("yield", .kwYield), ("True", .kwTrue), ("False", .kwFalse), ("None", .kwNone)]

/-- Operators and delimiters, longer ones first. Inequality is spelled in two ways. -/
def symbols : List (String × Token) :=
  [("**=", .doubleStarEquals), ("//=", .doubleSlashEquals), ("<<=", .shiftLeftEquals),
   (">>=", .shiftRightEquals), ("...", .ellipsis), (":=", .colonEquals), ("->", .arrow),
   ("==", .doubleEquals), ("!=", .notEquals), ("<=", .lessEquals), (">=", .greaterEquals),
   ("+=", .plusEquals), ("-=", .minusEquals), ("*=", .starEquals), ("**", .doubleStar),
   ("/=", .slashEquals), ("//", .doubleSlash), ("%=", .percentEquals), ("&=", .ampersandEquals),
   ("|=", .pipeEquals), ("^=", .caretEquals), ("<<", .shiftLeft), (">>", .shiftRight),
   ("@=", .atEquals), ("<>", .notEquals), ("(", .openParen), (")", .closeParen),
   ("[", .openBracket), ("]", .closeBracket), ("\x7b", .openBrace), ("\x7d", .closeBrace),
   (",", .comma), (":", .colon), (";", .semicolon), (".", .dot), ("@", .atSign),
   ("\x60", .backtick), ("=", .equals), ("<", .less), (">", .greater), ("+", .plus), ("-", .minus),
   ("*", .star), ("/", .slash), ("%", .percent), ("&", .ampersand), ("|", .pipe), ("^", .caret),
   ("~", .tilde)]

def startsWord (character : Char) : Bool := Text.isAlphabetic character || character == '_'

def continuesWord (character : Char) : Bool := Text.isAlphanumeric character || character == '_'

def scanWord (text : List Char) : Scan :=
  let word := text.takeWhile continuesWord
  { token := (Token.spelled? keywords word).getD .identifier, width := word.length }

def scanSymbol (text : List Char) : Scan :=
  match symbols.find? fun (spelling, _) => spelling.toList.isPrefixOf text with
  | some (spelling, token) => { token, width := spelling.length }
  | none => { token := .invalid, width := 1, defect := some ⟨.unexpectedCharacter, 1⟩ }

/-- The token at the start of a text that starts with neither a blank nor a comment. -/
def scan (text : List Char) : Scan :=
  if startsNumber text then scanNumber text
  else
    match stringPrefixWidth? text with
    | some prefixWidth => scanString prefixWidth text
    | none => if leads startsWord text then scanWord text else scanSymbol text

theorem scanNumber_kind (text : List Char) :
    (scanNumber text).token = .integer ∨ (scanNumber text).token = .float := by
  unfold scanNumber
  split
  · exact .inl rfl
  · simp only [scanDecimal]
    split
    · exact .inr rfl
    · split
      · exact .inr rfl
      · exact .inl rfl

theorem scanString_kind (prefixWidth : Nat) (text : List Char) :
    (scanString prefixWidth text).token = .string := by
  unfold scanString
  split <;> rfl

/-- No line break is read with a number. -/
theorem scanNumber_absorbed (text : List Char) : (scanNumber text).absorbed = 0 := by
  unfold scanNumber
  split
  · rfl
  · simp only [scanDecimal]
    split
    · rfl
    · split <;> rfl

theorem scanNumber_width_pos {text : List Char} (number : startsNumber text = true) :
    0 < (scanNumber text).width := by
  unfold scanNumber
  split
  · simp only [scanRadix]
    omega
  · cases text with
    | nil => simp [startsNumber, leads] at number
    | cons first rest =>
        by_cases digit : first.isDigit = true
        · have whole : 0 < ((first :: rest).takeWhile isDigitOrUnderscore).length := by
            simp [isDigitOrUnderscore, digit]
          simp only [scanDecimal]
          split
          · simp
          · split <;> simp only <;> omega
        · have point : first = '.' := by
            simp [startsNumber, leads, digit] at number
            exact number.1
          subst point
          have none : ('.' :: rest).takeWhile isDigitOrUnderscore = [] := by
            simp [isDigitOrUnderscore]
          have fraction : 0 < fractionWidth ('.' :: rest) := by
            rw [fractionWidth, if_pos (by simp [leads])]
            omega
          simp only [scanDecimal, none, List.length_nil, List.drop_zero, Nat.zero_add]
          split
          · simp
          · split <;> simp only <;> omega

theorem scanString_width_pos {text : List Char} {prefixWidth : Nat}
    (string : stringPrefixWidth? text = some prefixWidth) :
    0 < (scanString prefixWidth text).width := by
  have opened : text.drop prefixWidth ≠ [] := by
    unfold stringPrefixWidth? at string
    split at string
    · contradiction
    · rename_i first rest
      split at string
      · cases string
        simp
      · split at string
        · cases string
          rename_i one
          cases rest <;> simp_all [leads]
        · split at string
          · split at string
            · cases string
              rename_i more _ two
              cases more <;> simp_all [leads]
            · contradiction
          · contradiction
  unfold scanString
  split
  · contradiction
  · simp only
    split <;> omega

theorem scanWord_width_pos {text : List Char} (word : leads startsWord text = true) :
    0 < (scanWord text).width := by
  cases text with
  | nil => simp [leads] at word
  | cons first rest =>
      have continues : continuesWord first = true := by
        simp only [leads, List.head?_cons, Option.any_some, startsWord, Bool.or_eq_true] at word
        simp only [continuesWord, Bool.or_eq_true]
        exact word.imp_left Text.isAlphanumeric_of_isAlphabetic
      simp [scanWord, continues]

theorem symbols_spelled : ∀ entry ∈ symbols, 0 < entry.1.length := by decide

theorem scanSymbol_width_pos (text : List Char) : 0 < (scanSymbol text).width := by
  unfold scanSymbol
  split
  · rename_i found
    exact symbols_spelled _ (List.mem_of_find?_eq_some found)
  · simp

theorem scan_width_pos (text : List Char) : 0 < (scan text).width := by
  unfold scan
  split
  · exact scanNumber_width_pos ‹_›
  · split
    · exact scanString_width_pos ‹_›
    · split
      · exact scanWord_width_pos ‹_›
      · exact scanSymbol_width_pos _

end Offside.Python
