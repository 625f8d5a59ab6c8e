import Offside.Source.Position

/-!
Faults: a caller asked for something the library does not define. Malformed source text never is a
fault, it is reported as a diagnostic.
-/

namespace Offside

set_option autoImplicit false

inductive Fault where
  /-- A span was to end before it starts. -/
  | endBeforeStart (start stop : Position)
  /-- Spans of two files were to be joined. -/
  | filesDiffer (left right : FileId)
  /-- A token outside the reach of the lookahead was asked for. -/
  | peekOutOfReach (distance : Nat)
  /-- End of input was named as the token to match. -/
  | matchEndOfInput
  /-- End of input was named as the token to pass over. -/
  | consumeEndOfInput
  /-- A nesting level was left that had not been entered. -/
  | leaveWithoutEnter
  /-- A repetition went round without consuming anything. -/
  | stalled
deriving DecidableEq, Repr

namespace Fault

def message : Fault → String
  | .endBeforeStart start stop =>
      s!"location end {stop.render} precedes start {start.render}"
  | .filesDiffer left right =>
      "assertion \x60left == right\x60 failed: joining locations from different files\n" ++
        s!"  left: FileId({left.number})\n right: FileId({right.number})"
  | .peekOutOfReach distance => s!"peek distance {distance} outside 1..=3"
  | .matchEndOfInput => "end of input cannot be matched"
  | .consumeEndOfInput => "end of input cannot be consumed"
  | .leaveWithoutEnter => "leave_nesting called without matching enter_nesting"
  | .stalled => "repetition consumed nothing"

end Fault

end Offside
