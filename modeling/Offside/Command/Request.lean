import Offside.Language

/-!
Command lines. A line names a command, its file and options in any order; options with a value take it
after an equals sign or as the next word. Words after two dashes are files whatever they start with.
The first thing wrong with a line, or the first request for help or the version, decides.
-/

namespace Offside.Command

set_option autoImplicit false

inductive Format where
  | text
  | json
deriving DecidableEq

def Format.ofName? : String → Option Format
  | "text" => some .text
  | "json" => some .json
  | _ => none

inductive Action where
  | lex
  | parse
deriving DecidableEq

def Action.ofName? : String → Option Action
  | "lex" => some .lex
  | "parse" => some .parse
  | _ => none

structure Job where
  action : Action
  path : String
  language : Option Language
  keepComments : Bool
  format : Format

inductive Request where
  | run (job : Job)
  | version
  | help
  /-- The line cannot be understood. -/
  | misuse

structure Draft where
  path : Option String := none
  language : Option Language := none
  keepComments : Bool := false
  format : Option Format := none

def isOptionWord (word : String) : Bool := word.startsWith "-" && word != "-"

def splitLong (word : String) : String × Option String :=
  let name := word.toList.takeWhile (· != '=')
  let rest := word.toList.drop name.length
  (String.ofList name, if rest.isEmpty then none else some (String.ofList (rest.drop 1)))

inductive Letters where
  | nothing
  | version
  | help
  | unknown
deriving DecidableEq

def readLetters (withVersion : Bool) : List Char → Letters
  | [] => .nothing
  | 'v' :: later => readLetters withVersion later
  | 'V' :: _ => if withVersion then .version else .unknown
  | 'h' :: _ => .help
  | _ => .unknown

namespace Draft

/-- Takes the file, of which there is one. -/
def withPath (draft : Draft) (path : String) : Option Draft :=
  if draft.path.isSome then none else some { draft with path := some path }

def withLanguage (draft : Draft) (value : String) : Option Draft := do
  let language ← Language.ofName? value
  if draft.language.isSome then none else some { draft with language := some language }

def withFormat (draft : Draft) (value : String) : Option Draft := do
  let format ← Format.ofName? value
  if draft.format.isSome then none else some { draft with format := some format }

def withComments (draft : Draft) : Option Draft :=
  if draft.keepComments then none else some { draft with keepComments := true }

def valueOption? (name : String) : Option (Draft → String → Option Draft) :=
  match name with
  | "--lang" => some withLanguage
  | "--format" => some withFormat
  | _ => none

/-- The request once all words were read. Whether comments are kept may also be set from outside, by
the words for the two truth values alone. -/
def finish (draft : Draft) (action : Action) (keepComments : Option String) : Request :=
  match draft.path with
  | none => .misuse
  | some path =>
      let job (keep : Bool) : Request :=
        .run
          { action
            path
            language := draft.language
            keepComments := keep
            format := draft.format.getD .text }
      if action = .parse then job false
      else if draft.keepComments then job true
      else
        match keepComments with
        | none | some "false" => job false
        | some "true" => job true
        | some _ => .misuse

def read (action : Action) (keepComments : Option String) : List String → Draft → Request
  | [], draft => draft.finish action keepComments
  | "--" :: files, draft =>
      match files with
      | [] => draft.finish action keepComments
      | [path] =>
          match draft.withPath path with
          | some draft => draft.finish action keepComments
          | none => .misuse
      | _ => .misuse
  | word :: later, draft =>
      if word.startsWith "--" then
        let (name, inline) := splitLong word
        match valueOption? name, inline, later with
        | some set, some value, later => step (set draft value) later
        | some set, none, value :: later =>
            if isOptionWord value then .misuse else step (set draft value) later
        | some _, none, [] => .misuse
        | none, some _, _ => .misuse
        | none, none, later =>
            if name = "--verbose" then read action keepComments later draft
            else if name = "--help" then .help
            else if name = "--keep-comments" ∧ action = .lex then step draft.withComments later
            else .misuse
      else if isOptionWord word then
        match readLetters false (word.toList.drop 1) with
        | .nothing => read action keepComments later draft
        | .help => .help
        | _ => .misuse
      else step (draft.withPath word) later
where
  step (draft : Option Draft) (later : List String) : Request :=
    match draft with
    | none => .misuse
    | some draft => read action keepComments later draft

end Draft

def helpRequest : List String → Request
  | [] => .help
  | [name] => if name = "help" ∨ (Action.ofName? name).isSome then .help else .misuse
  | _ => .misuse

def Request.ofWords (keepComments : Option String) : List String → Request
  | [] => .misuse
  | word :: later =>
      if word = "--verbose" then ofWords keepComments later
      else if word = "--version" then .version
      else if word = "--help" then .help
      else if word = "help" then helpRequest later
      else if isOptionWord word then
        match readLetters true (word.toList.drop 1) with
        | .nothing => ofWords keepComments later
        | .version => .version
        | .help => .help
        | .unknown => .misuse
      else
        match Action.ofName? word with
        | some action => Draft.read action keepComments later {}
        | none => .misuse

end Offside.Command
