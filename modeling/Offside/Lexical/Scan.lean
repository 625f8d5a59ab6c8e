import Offside.Diagnostic
import Offside.Token

/-!
Results of scanning. A scanner looks at the text ahead and says which token stands there and how many
characters belong to it; it moves nothing. Line breaks are a line feed, alone or after a carriage
return.
-/

namespace Offside.Lexical

set_option autoImplicit false

structure Defect where
  problem : Problem
  width : Nat
deriving DecidableEq, Repr

structure Scan where
  token : Token
  /-- Characters that belong to the token. -/
  width : Nat
  /-- Characters of a line break that are read together with the token. -/
  absorbed : Nat := 0
  defect : Option Defect := none
deriving DecidableEq

/-- Characters of the line break at the start of a text, zero if there is none. -/
def lineBreakWidth : List Char → Nat
  | '\n' :: _ => 1
  | '\r' :: '\n' :: _ => 2
  | _ => 0

theorem lineBreakWidth_le_length (text : List Char) : lineBreakWidth text ≤ text.length := by
  unfold lineBreakWidth
  split <;> simp

end Offside.Lexical
