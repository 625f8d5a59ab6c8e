import Offside.Lexical.Lexed
import Offside.Tree.Program

/-!
What reading a file leaves behind: the diagnostics in the order of their reports, the lexemes, and the
finished tree. One context may serve several readings, which then add to it.
-/

namespace Offside

set_option autoImplicit false

open Offside.Lexical

structure Context where
  fileName : Option String := none
  /-- The file that spans are said to be in. -/
  file : FileId := .single
  keepComments : Bool := false
  diagnostics : Array Diagnostic := #[]
  lexemes : LexemeTable := .empty
  program : Option Program := none

namespace Context

instance : Inhabited Context := ⟨{}⟩

def report (context : Context) (problem : Problem) (span : Span) : Context :=
  { context with diagnostics := context.diagnostics.push ⟨problem, span⟩ }

def records (context : Context) (entry : Entry) : Bool :=
  context.keepComments || entry.token != .comment

def recordEntry (context : Context) (entry : Entry) : Context :=
  if context.records entry then
    { context with lexemes := context.lexemes.record entry.token entry.place entry.text }
  else context

def absorb (context : Context) (item : Lexed) : Context :=
  item.entries.foldl recordEntry
    { context with diagnostics := context.diagnostics ++ item.reports }

def absorbAll (context : Context) (items : List Lexed) : Context := items.foldl absorb context

def lexemeAt (context : Context) (place : Position) : Option Lexeme := context.lexemes.get? place

def identifierAt (context : Context) (span : Span) : Option String :=
  match context.lexemeAt span.start with
  | some ⟨.identifier, text⟩ => some text
  | _ => none

def operatorAt (context : Context) (span : Span) : Option String :=
  match context.lexemeAt span.start with
  | some ⟨.operator, text⟩ => some text
  | _ => none

mutual

/-- The spelling of a name, its segments joined by dots. An error has none, and neither has a name
whose text was not recorded. -/
def spell (context : Context) : Name → Option String
  | .simple span => context.identifierAt span
  | .operator span | .special span => context.operatorAt span <|> context.identifierAt span
  | .qualified segments _ => (context.spellAll segments).map (".".intercalate ·)
  | .error _ => none

def spellAll (context : Context) : List Name → Option (List String)
  | [] => some []
  | name :: later => do
      let text ← context.spell name
      let texts ← context.spellAll later
      return text :: texts

end

end Context

end Offside
