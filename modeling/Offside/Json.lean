import Offside.Text.Quoted

/-!
Values of machine-readable output and their one-line text: no blanks, the fields of an object in
alphabetical order, and only quotes, backslashes and control characters escaped.
-/

namespace Offside

set_option autoImplicit false

inductive Json where
  | null
  | bool (value : Bool)
  | number (value : Int)
  | string (text : String)
  | array (elements : List Json)
  | object (fields : List (String × Json))

namespace Json

instance : Inhabited Json := ⟨.null⟩

def ofNat (value : Nat) : Json := .number value

def ofOption {α : Type} (encode : α → Json) : Option α → Json
  | none => .null
  | some value => encode value

def ofList {α : Type} (encode : α → Json) (values : List α) : Json := .array (values.map encode)

/-- An object with one field, the form of a choice that carries a value. -/
def tagged (tag : String) (value : Json) : Json := .object [(tag, value)]

def escapedCharacter (character : Char) : String :=
  match character with
  | '"' => "\\\""
  | '\\' => "\\\\"
  | '\n' => "\\n"
  | '\r' => "\\r"
  | '\t' => "\\t"
  | '\x08' => "\\b"
  | '\x0c' => "\\f"
  | other =>
      if other.toNat < 16 then "\\u000" ++ Text.hexadecimal other.toNat
      else if other.toNat < 32 then "\\u00" ++ Text.hexadecimal other.toNat
      else other.toString

def renderString (text : String) : String :=
  "\"" ++ String.join (text.toList.map escapedCharacter) ++ "\""

def sortFields {α : Type} (fields : List (String × α)) : List (String × α) :=
  fields.mergeSort fun left right => left.1 ≤ right.1

mutual

def render : Json → String
  | .null => "null"
  | .bool true => "true"
  | .bool false => "false"
  | .number value => toString value
  | .string text => renderString text
  | .array elements => "[" ++ ",".intercalate (renderAll elements) ++ "]"
  | .object fields =>
      "\x7b" ++ ",".intercalate ((sortFields (renderFields fields)).map Prod.snd) ++ "\x7d"

def renderAll : List Json → List String
  | [] => []
  | element :: later => element.render :: renderAll later

def renderFields : List (String × Json) → List (String × String)
  | [] => []
  | (name, value) :: later =>
      (name, renderString name ++ ":" ++ value.render) :: renderFields later

end

end Json

end Offside
