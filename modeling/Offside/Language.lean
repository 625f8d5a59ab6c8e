/-!
The languages that can be read, and how the name of a file selects one.
-/

namespace Offside

set_option autoImplicit false

inductive Language where
  | python
  | haskell
deriving DecidableEq

namespace Language

def all : List Language := [.python, .haskell]

def name : Language → String
  | .python => "python"
  | .haskell => "haskell"

/-- What the names of its source files end in, after the dot. -/
def suffix : Language → String
  | .python => "py"
  | .haskell => "hs"

def hasGrammar : Language → Bool
  | .python => false
  | .haskell => true

def ofName? (text : String) : Option Language :=
  let lowered := text.map Char.toLower
  all.find? fun language => language.name == lowered || language.suffix == lowered

def unknownMessage (text : String) : String :=
  s!"unknown language \x60{text}\x60 (expected \x60python\x60 or \x60haskell\x60)"

/-- The last component of a path that names something. Empty components and those for the current
directory are passed over, and the parent directory names nothing. -/
def fileName? (path : String) : Option String :=
  let absolute := path.startsWith "/"
  let components := path.splitOn "/"
  let named := components.zipIdx.filterMap fun (component, index) =>
    if component == "" || (component == "." && (absolute || index != 0)) then none
    else some component
  match named.getLast? with
  | some ".." | some "." => none
  | last => last

/-- The part of a file name after its last dot, unless nothing stands before that dot. -/
def extension? (fileName : String) : Option String :=
  match fileName.splitOn "." with
  | [] | [_] => none
  | "" :: [_] => none
  | parts => parts.getLast?

def ofPath? (path : String) : Option Language := do
  let extension ← fileName? path >>= extension?
  all.find? fun language => language.suffix == extension

end Language

end Offside
