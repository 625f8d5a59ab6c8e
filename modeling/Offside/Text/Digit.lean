/-!
Digits of number literals. Every radix reads ASCII characters only: a decimal digit of another script
is numeric, but no literal contains it.
-/

namespace Offside.Text

set_option autoImplicit false

inductive Radix where
  | binary
  | octal
  | hexadecimal
deriving DecidableEq, Repr

def Radix.base : Radix → Nat
  | .binary => 2
  | .octal => 8
  | .hexadecimal => 16

/-- Value of a letter or digit read as one digit of a base of at most sixteen. -/
def digitValue? (character : Char) : Option Nat :=
  if character.isDigit then some (character.toNat - '0'.toNat)
  else if 'a' ≤ character ∧ character ≤ 'f' then some (character.toNat - 'a'.toNat + 10)
  else if 'A' ≤ character ∧ character ≤ 'F' then some (character.toNat - 'A'.toNat + 10)
  else none

def Radix.isDigit (radix : Radix) (character : Char) : Bool :=
  match digitValue? character with
  | some value => value < radix.base
  | none => false

def Radix.ofLetter? : Char → Option Radix
  | 'x' | 'X' => some .hexadecimal
  | 'o' | 'O' => some .octal
  | 'b' | 'B' => some .binary
  | _ => none

end Offside.Text
