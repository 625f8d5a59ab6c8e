/-!
Text between double quotes, for messages that show a piece of a source. Line breaks, tabs, quotes and
backslashes are escaped, and so is every other control character of ASCII.
-/

namespace Offside.Text

set_option autoImplicit false

/-- Lowercase hexadecimal digits, none in front. -/
def hexadecimal (code : Nat) : String :=
  String.ofList (Nat.toDigits 16 code)

def quotedCharacter (character : Char) : String :=
  match character with
  | '\n' => "\\n"
  | '\t' => "\\t"
  | '\r' => "\\r"
  | '"' => "\\\""
  | '\\' => "\\\\"
  | '\x00' => "\\0"
  | other =>
      if other.toNat < 32 || other.toNat = 127 then
        "\\u\x7b" ++ hexadecimal other.toNat ++ "\x7d"
      else other.toString

def quoted (text : List Char) : String :=
  "\"" ++ String.join (text.map quotedCharacter) ++ "\""

end Offside.Text
