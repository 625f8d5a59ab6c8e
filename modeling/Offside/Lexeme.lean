import Offside.Source.Position
import Offside.Token
import Std.Data.HashMap
import Std.Data.HashSet

/-!
Lexemes: the text of tokens whose kind does not fix it, kept in a table under the place where the
token starts. A later entry replaces an earlier one at the same place. The table also counts the
distinct spellings it has met, those of replaced entries included.
-/

namespace Offside

set_option autoImplicit false

namespace Lexeme

inductive Category where
  | identifier
  | operator
  | integer
  | float
  | string
  | character
  | comment
deriving DecidableEq, Repr

namespace Category

def tag : Category → String
  | .identifier => "Ident"
  | .operator => "Operator"
  | .integer => "IntLit"
  | .float => "FloatLit"
  | .string => "StrLit"
  | .character => "CharLit"
  | .comment => "Comment"

def ofToken? : Token → Option Category
  | .identifier | .properIdentifier => some .identifier
  | .operatorSymbol | .minus | .dot | .constructorSymbol | .colon => some .operator
  | .integer => some .integer
  | .float => some .float
  | .string => some .string
  | .character => some .character
  | .comment => some .comment
  | _ => none

end Category

end Lexeme

structure Lexeme where
  category : Lexeme.Category
  text : String
deriving DecidableEq, Repr

structure LexemeTable where
  entries : Std.HashMap Position Lexeme
  spellings : Std.HashSet String

namespace LexemeTable

def empty : LexemeTable := ⟨∅, ∅⟩

instance : Inhabited LexemeTable := ⟨empty⟩

def intern (table : LexemeTable) (text : String) : LexemeTable :=
  { table with spellings := table.spellings.insert text }

/-- Tokens with a fixed spelling leave the table as it is. -/
def record (table : LexemeTable) (token : Token) (place : Position) (text : String) :
    LexemeTable :=
  match Lexeme.Category.ofToken? token with
  | none => table
  | some category =>
      { table.intern text with entries := table.entries.insert place ⟨category, text⟩ }

def get? (table : LexemeTable) (place : Position) : Option Lexeme := table.entries[place]?

def size (table : LexemeTable) : Nat := table.entries.size

def isEmpty (table : LexemeTable) : Bool := table.entries.isEmpty

def spellingCount (table : LexemeTable) : Nat := table.spellings.size

theorem get?_record (table : LexemeTable) (token : Token) (place other : Position)
    (text : String) (category : Lexeme.Category)
    (recordable : Lexeme.Category.ofToken? token = some category) :
    (table.record token place text).get? other =
      if place = other then some ⟨category, text⟩ else table.get? other := by
  simp only [record, recordable, get?, Std.HashMap.getElem?_insert]
  by_cases same : place = other <;> simp [same]

theorem record_of_fixed (table : LexemeTable) (token : Token) (place : Position) (text : String)
    (fixed : Lexeme.Category.ofToken? token = none) :
    table.record token place text = table := by
  simp [record, fixed]

end LexemeTable

end Offside
