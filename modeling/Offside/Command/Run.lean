import Offside.Command.Outline
import Offside.Command.Request
import Offside.Haskell.Parse
import Offside.Report
import Offside.TokenSource
import Offside.Tree.Encoding

/-!
What a command line does, given the files it can see: the lines it prints, the messages it gives and
its exit status. Reading goes on past every problem, and a job fails when there was one.
-/

namespace Offside.Command

set_option autoImplicit false

structure Outcome where
  status : Nat
  output : List String := []
  messages : List String := []

inductive FileContent where
  | missing
  /-- Bytes that are not text in UTF-8. -/
  | undecodable
  | text (content : String)

/-- The recorded text of a token. Tokens that layout added share their place with a written one and
have no text. -/
def tokenText (context : Context) (span : Span) : Option String :=
  if span.isPoint then none else (context.lexemeAt span.start).map Lexeme.text

def renderToken (format : Format) (context : Context) (token : Token) (span : Span) : String :=
  let text := tokenText context span
  match format with
  | .text =>
      match text with
      | some text => s!"{span.render}\t{token.display}\t{text}"
      | none => s!"{span.render}\t{token.display}"
  | .json =>
      (Json.object
        [("token", .string token.tag), ("start", span.start.toJson), ("end", span.stop.toJson),
         ("text", .ofOption .string text)]).render

def diagnosticLine (path : String) (diagnostic : Diagnostic) : String :=
  let problem := diagnostic.problem
  (Json.object
    [("file", .string path), ("diagnostic", .string problem.tag), ("code", .string problem.code),
     ("message", .string problem.message), ("start", diagnostic.span.start.toJson),
     ("end", diagnostic.span.stop.toJson)]).render

def conclude (job : Job) (source : List Char) (printed : List String)
    (diagnostics : List Diagnostic) : Outcome :=
  if diagnostics.isEmpty then { status := 0, output := printed }
  else
    let count := diagnostics.length
    let plural := if count = 1 then "" else "s"
    let total := s!"{count} diagnostic{plural} reported for '{job.path}'"
    match job.format with
    | .text =>
        { status := 1
          output := printed
          messages := diagnostics.map (fun diagnostic => (diagnostic.report source).message) ++
            [total] }
    | .json =>
        { status := 1
          output := printed ++ diagnostics.map (diagnosticLine job.path)
          messages := [total] }

def failure (message : String) : Outcome := { status := 1, messages := [message] }

def lexJob (job : Job) (language : Language) (source : List Char) (context : Context) : Outcome :=
  let (tokens, after) := context.lex language source
  let printed := tokens.map fun (token, span) => renderToken job.format after token span
  conclude job source printed after.diagnostics.toList

def parseJob (job : Job) (language : Language) (source : List Char) (context : Context) :
    Outcome :=
  if language.hasGrammar then
    let (program, after) := Haskell.parseText source context
    let printed :=
      match job.format with
      | .text => (program.map (outline after)).getD []
      | .json =>
          [(Json.object
            [("file", .string job.path),
             ("program", .ofOption (Program.toJson Span.toJson) program)]).render]
    conclude job source printed after.diagnostics.toList
  else
    failure s!"No grammar for {language.name} sources: use \x60frontkit lex\x60 instead"

def runJob (job : Job) (content : FileContent) : Outcome :=
  match content with
  | .missing => failure s!"File '{job.path}' does not exist"
  | .undecodable => failure s!"Failed to read '{job.path}': stream did not contain valid UTF-8"
  | .text source =>
      match job.language <|> Language.ofPath? job.path with
      | none =>
          failure (s!"Cannot tell the language of '{job.path}': " ++
            "use a .py or .hs suffix, or pass --lang")
      | some language =>
          let context : Context :=
            { fileName := some job.path, keepComments := job.keepComments }
          match job.action with
          | .lex => lexJob job language source.toList context
          | .parse => parseJob job language source.toList context

def Request.path? : Request → Option String
  | .run job => some job.path
  | _ => none

def Request.outcome (request : Request) (content : FileContent) : Outcome :=
  match request with
  | .run job => runJob job content
  | .version => { status := 0, output := ["frontkit 0.1.0"] }
  | .help => { status := 0 }
  | .misuse => { status := 2 }

def run (keepComments : Option String) (read : String → FileContent) (words : List String) :
    Outcome :=
  let request := Request.ofWords keepComments words
  request.outcome ((request.path?.map read).getD .missing)

end Offside.Command
