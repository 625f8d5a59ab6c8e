import Offside.Haskell.Grammar.Modules
import Offside.Haskell.Lexer

/-!
Parsing of Haskell. An input without tokens yields no program; any other yields one, however malformed
it is, and the diagnostics say what was wrong.
-/

namespace Offside.Haskell

set_option autoImplicit false

open Offside.Lexical

def parseTokens (stream : TokenStream) (context : Context) : Option Program × Parser :=
  let parser := Parser.start stream context
  if parser.isAtEnd then (none, parser)
  else
    let (program, final) := Grammar.program parser
    (some program, final)

/-- Parses a token stream and leaves the program in the context, if there is one. Streams whose spans
belong to several files may be at fault. -/
def parse (stream : TokenStream) (context : Context) : Except Fault (Bool × Context) :=
  let (program, final) := parseTokens stream context
  match final.fault, program with
  | some fault, _ => .error fault
  | none, none => .ok (false, final.context)
  | none, some program => .ok (true, { final.context with program := some program })

/-- Parses a text. The program does not stay in the context, and one that is parsed displaces what was
there. -/
def parseText (source : List Char) (context : Context) : Option Program × Context :=
  let (program, final) := parseTokens (reader.stream context.file source) context
  match program with
  | none => (none, final.context)
  | some program => (some program, { final.context with program := none })

end Offside.Haskell
