import Offside.Context
import Offside.Haskell.Lexer
import Offside.Language
import Offside.Lexical.TokenStream
import Offside.Python.Lexer

/-!
Sources of tokens: the reader of a language over a text, or a script of tokens that stand for a text.
A source hands out one token at a time and, after the last, the end of input for ever.
-/

namespace Offside

set_option autoImplicit false

open Offside.Lexical

inductive TokenSource where
  | python (lexer : Python.Lexer)
  | haskell (lexer : Haskell.Lexer)
  | script (stream : TokenStream)

namespace TokenSource

def ofText (language : Language) (source : List Char) : TokenSource :=
  match language with
  | .python => .python (Python.reader.start source)
  | .haskell => .haskell (Haskell.reader.start source)

def ofScript (tokens : List (Token × Span)) : TokenSource :=
  .script (.ofItems (tokens.map fun (token, span) => .silent token span))

/-- The next token. A script hands out its comments whether these are kept or not. -/
def next (source : TokenSource) (keepComments : Bool) (file : FileId) : Lexed × TokenSource :=
  match source with
  | .python lexer =>
      let (item, lexer) := Python.reader.next keepComments file lexer
      (item, .python lexer)
  | .haskell lexer =>
      let (item, lexer) := Haskell.reader.next keepComments file lexer
      (item, .haskell lexer)
  | .script stream =>
      let (item, stream) := stream.next
      (item, .script stream)

def stream (source : TokenSource) (file : FileId) : TokenStream :=
  match source with
  | .python lexer => .ofItems (Python.reader.items file lexer)
  | .haskell lexer => .ofItems (Haskell.reader.items file lexer)
  | .script stream => stream

end TokenSource

namespace Context

def pull (context : Context) (source : TokenSource) : Lexed × TokenSource × Context :=
  let (item, source) := source.next context.keepComments context.file
  (item, source, context.absorb item)

/-- Reads all tokens of a text. The last of them is the end of input. -/
def lex (context : Context) (language : Language) (source : List Char) :
    List (Token × Span) × Context :=
  let items := ((TokenSource.ofText language source).stream context.file).items
  let shown := items.filter fun item => context.keepComments || item.token != .comment
  (shown.map fun item => (item.token, item.span), context.absorbAll items)

end Context

end Offside
