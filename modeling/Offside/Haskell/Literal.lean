import Offside.Lexical.Number
import Offside.Lexical.Scan

/-!
Literals and comments of Haskell. A string ends at its line, a character literal holds one character
or one escape, and block comments nest. A point belongs to a number only when a digit follows it, so
that the bounds of an enumeration stay apart.
-/

namespace Offside.Haskell

set_option autoImplicit false

open Offside.Lexical

def scanRadix (radix : Text.Radix) (text : List Char) : Scan :=
  let digits := ((text.drop 2).takeWhile radix.isDigit).length
  { token := .integer
    width := 2 + digits
    defect := if digits = 0 then some ⟨.malformedNumber, 2⟩ else none }

def fractionWidth (text : List Char) : Nat :=
  if leads (· == '.') text && leads Char.isDigit (text.drop 1) then
    1 + ((text.drop 1).takeWhile Char.isDigit).length
  else 0

def scanDecimal (text : List Char) : Scan :=
  let whole := (text.takeWhile Char.isDigit).length
  let fraction := fractionWidth (text.drop whole)
  let exponent := exponentWidth Char.isDigit (text.drop (whole + fraction))
  { token := if fraction + exponent > 0 then .float else .integer
    width := whole + fraction + exponent }

def scanNumber (text : List Char) : Scan :=
  match radixOf? text with
  | some radix => scanRadix radix text
  | none => scanDecimal text

/-- Characters of a string after its opening quote, the closing one included, and whether it was
closed. A backslash takes the character after it along, even a line feed. -/
def stringBody : List Char → Nat × Bool
  | [] => (0, false)
  | ['\\'] => (1, false)
  | '\\' :: _ :: rest =>
      let (width, closed) := stringBody rest
      (width + 2, closed)
  | character :: rest =>
      if character = '"' then (1, true)
      else if character = '\n' then (0, false)
      else
        let (width, closed) := stringBody rest
        (width + 1, closed)

def scanString (rest : List Char) : Scan :=
  let (body, closed) := stringBody rest
  { token := .string
    width := 1 + body
    defect := if closed then none else some ⟨.unterminatedLiteral, 1 + body⟩ }

/-- Characters of a character literal between its quotes. An escape reaches as far as letters and
digits follow. -/
def characterBody : List Char → Nat
  | [] => 0
  | '\\' :: rest => 1 + (rest.take 1).length + ((rest.drop 1).takeWhile Char.isAlphanum).length
  | _ => 1

/-- The character literal after an opening quote. A line feed in place of the character cuts it
off, and so does anything but a quote after it. -/
def scanCharacter (rest : List Char) : Scan :=
  let body := characterBody rest
  let closed := !leads (· == '\n') rest && leads (· == '\'') (rest.drop body)
  let width := if closed then 2 + body else 1 + body
  { token := .character
    width
    defect := if closed then none else some ⟨.unterminatedLiteral, width⟩ }

/-- Characters of a block comment after its opening, its closing included, and whether it was closed.
The depth counts the comments inside which this one stands. -/
def commentBody : Nat → List Char → Nat × Bool
  | _, [] => (0, false)
  | depth, '{' :: '-' :: rest =>
      let (width, closed) := commentBody (depth + 1) rest
      (width + 2, closed)
  | 0, '-' :: '}' :: _ => (2, true)
  | depth + 1, '-' :: '}' :: rest =>
      let (width, closed) := commentBody depth rest
      (width + 2, closed)
  | depth, _ :: rest =>
      let (width, closed) := commentBody depth rest
      (width + 1, closed)

def scanBlockComment (rest : List Char) : Scan :=
  let (body, closed) := commentBody 0 rest
  { token := .comment
    width := 2 + body
    defect := if closed then none else some ⟨.unterminatedLiteral, 2 + body⟩ }

end Offside.Haskell
