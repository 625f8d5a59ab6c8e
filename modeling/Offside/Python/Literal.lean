import Offside.Lexical.Number
import Offside.Lexical.Scan

/-!
Number and string literals of Python. Underscores may stand between digits, an integer may end in a
letter for long integers and any decimal number in one for imaginary numbers. A string may have a
prefix of one or two letters; between single quotes it ends at its line, between triple quotes only
at the end of the text.
-/

namespace Offside.Python

set_option autoImplicit false

open Offside.Lexical

def isDigitOrUnderscore (character : Char) : Bool := character.isDigit || character == '_'

def isLongMark (character : Char) : Bool := character == 'l' || character == 'L'

def isImaginaryMark (character : Char) : Bool := character == 'j' || character == 'J'

def longMarkWidth (text : List Char) : Nat := if leads isLongMark text then 1 else 0

def scanRadix (radix : Text.Radix) (text : List Char) : Scan :=
  let digits := ((text.drop 2).takeWhile fun character =>
    radix.isDigit character || character == '_').length
  { token := .integer
    width := 2 + digits + longMarkWidth (text.drop (2 + digits))
    defect := if digits = 0 then some ⟨.malformedNumber, 2⟩ else none }

def fractionWidth (text : List Char) : Nat :=
  if leads (· == '.') text then 1 + ((text.drop 1).takeWhile isDigitOrUnderscore).length else 0

def scanDecimal (text : List Char) : Scan :=
  let whole := (text.takeWhile isDigitOrUnderscore).length
  let fraction := fractionWidth (text.drop whole)
  let exponent := exponentWidth isDigitOrUnderscore (text.drop (whole + fraction))
  let width := whole + fraction + exponent
  if leads isImaginaryMark (text.drop width) then { token := .float, width := width + 1 }
  else if fraction + exponent > 0 then { token := .float, width }
  else { token := .integer, width := width + longMarkWidth (text.drop width) }

def startsNumber (text : List Char) : Bool :=
  leads Char.isDigit text || (leads (· == '.') text && leads Char.isDigit (text.drop 1))

def scanNumber (text : List Char) : Scan :=
  match radixOf? text with
  | some radix => scanRadix radix text
  | none => scanDecimal text

def isQuote (character : Char) : Bool := character == '\'' || character == '"'

def isPrefixLetter (letter : Char) : Bool :=
  letter == 'r' || letter == 'u' || letter == 'b' || letter == 'f'

def isPrefixPair (first second : Char) : Bool :=
  (second == 'r' && (first == 'u' || first == 'b' || first == 'f')) ||
    (first == 'r' && (second == 'b' || second == 'f'))

/-- Letters before the opening quote of the string at the start of a text, if one starts there. -/
def stringPrefixWidth? : List Char → Option Nat
  | [] => none
  | first :: rest =>
      if isQuote first then some 0
      else if isPrefixLetter first.toLower && leads isQuote rest then some 1
      else
        match rest with
        | second :: more =>
            if isPrefixPair first.toLower second.toLower && leads isQuote more then some 2
            else none
        | [] => none

/-- Characters of a string after its opening quotes, the closing ones included, and whether it was
closed. A backslash takes the character after it along. -/
def stringBody (quote : Char) (triple : Bool) : List Char → Nat × Bool
  | [] => (0, false)
  | ['\\'] => (1, false)
  | '\\' :: _ :: rest =>
      let (width, closed) := stringBody quote triple rest
      (width + 2, closed)
  | character :: rest =>
      if !triple && lineBreakWidth (character :: rest) > 0 then (0, false)
      else if character = quote ∧ triple = false then (1, true)
      else if character = quote ∧ rest.take 2 = [quote, quote] then (3, true)
      else
        let (width, closed) := stringBody quote triple rest
        (width + 1, closed)

/-- The string at the start of a text, after a prefix of the given width. A string cut off by the end
of its line takes the line break along. -/
def scanString (prefixWidth : Nat) (text : List Char) : Scan :=
  match text.drop prefixWidth with
  | [] => { token := .string, width := prefixWidth }
  | quote :: rest =>
      let triple := rest.take 2 == [quote, quote]
      let opening := if triple then 3 else 1
      let (body, closed) := stringBody quote triple (rest.drop (opening - 1))
      let width := prefixWidth + opening + body
      { token := .string
        width
        absorbed := if closed || triple then 0 else lineBreakWidth (text.drop width)
        defect := if closed then none else some ⟨.unterminatedLiteral, width⟩ }

end Offside.Python
