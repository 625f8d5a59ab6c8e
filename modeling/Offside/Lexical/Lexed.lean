import Offside.Lexeme
import Offside.Lexical.Scan
import Offside.Source.Cursor

/-!
Tokens as a lexer hands them out, with what reading them brought about: the problems to report and
the lexemes to record. A token that layout adds may come with the effects of reading the written
token after it.
-/

namespace Offside.Lexical

set_option autoImplicit false

structure Entry where
  token : Token
  place : Position
  text : String
deriving DecidableEq

structure Lexed where
  token : Token
  span : Span
  reports : List Diagnostic := []
  entries : List Entry := []
deriving DecidableEq

namespace Lexed

/-- A token that was not written and has no effects of its own. -/
def silent (token : Token) (span : Span) : Lexed := { token, span }

def isComment (item : Lexed) : Bool := item.token = .comment

def isFinal (item : Lexed) : Bool := item.token = .endOfInput

end Lexed

def spanAhead (file : FileId) (cursor : Cursor) (width : Nat) : Span :=
  ⟨file, cursor.position, (cursor.skip width).position⟩

def Scan.lexed (scan : Scan) (file : FileId) (cursor : Cursor) (text : List Char) : Lexed :=
  { token := scan.token
    span := spanAhead file cursor scan.width
    reports := scan.defect.toList.map fun defect =>
      ⟨defect.problem, spanAhead file cursor defect.width⟩
    entries := [⟨scan.token, cursor.position, String.ofList text⟩] }

end Offside.Lexical
