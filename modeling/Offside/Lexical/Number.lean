import Offside.Text.Digit

/-!
Parts of number literals that all languages share: the radix announced at their start and the
exponent of a decimal number.
-/

namespace Offside.Lexical

set_option autoImplicit false

def radixOf? : List Char → Option Text.Radix
  | '0' :: letter :: _ => Text.Radix.ofLetter? letter
  | _ => none

def leads (accepts : Char → Bool) (text : List Char) : Bool :=
  text.head?.any accepts

def isSign (character : Char) : Bool := character == '+' || character == '-'

def isExponentMark (character : Char) : Bool := character == 'e' || character == 'E'

/-- Characters of the exponent at the start of a text, zero if there is none. An exponent has at
least one digit, and `continues` says what its digits may be mixed with. -/
def exponentWidth (continues : Char → Bool) (text : List Char) : Nat :=
  if leads isExponentMark text then
    let sign := if leads isSign (text.drop 1) then 1 else 0
    let digits := text.drop (1 + sign)
    if leads Char.isDigit digits then 1 + sign + (digits.takeWhile continues).length else 0
  else 0

end Offside.Lexical
