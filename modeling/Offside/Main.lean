import Offside.Command.Run

/-!
The command line program. It reads the file that the command line names and prints the outcome.
-/

namespace Offside.Command

set_option autoImplicit false

/-- A path that cannot be read as a file counts as missing. -/
def readContent (path : String) : IO FileContent := do
  try
    let bytes ← IO.FS.readBinFile path
    match String.fromUTF8? bytes with
    | some text => return .text text
    | none => return .undecodable
  catch _ => return .missing

end Offside.Command

def main (words : List String) : IO UInt32 := do
  let keepComments ← IO.getEnv "FRONTKIT_KEEP_COMMENTS"
  let request := Offside.Command.Request.ofWords keepComments words
  let content ← match request.path? with
    | some path => Offside.Command.readContent path
    | none => pure .missing
  let outcome := request.outcome content
  for line in outcome.output do
    IO.println line
  for message in outcome.messages do
    IO.eprintln message
  return outcome.status.toUInt32
