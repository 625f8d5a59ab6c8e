import Offside.Diagnostic
import Offside.Source.Offset

/-!
Diagnostics in the form in which they are shown beside the source: a message with the code of the
problem, and a label for the bytes it is about.
-/

namespace Offside

set_option autoImplicit false

structure Report where
  problem : Problem
  message : String
  label : String
  /-- First byte that the label marks. -/
  offset : Nat
  /-- Bytes that the label marks. -/
  length : Nat
deriving DecidableEq

def Problem.label (problem : Problem) : String :=
  if problem.isLexical then "while reading this" else "not expected here"

def Diagnostic.report (diagnostic : Diagnostic) (source : List Char) : Report :=
  let problem := diagnostic.problem
  let extent := diagnostic.span.byteExtent source
  { problem
    message := s!"{problem.message} [{problem.code}]"
    label := problem.label
    offset := extent.1
    length := extent.2 }

theorem report_within_source (diagnostic : Diagnostic) (source : List Char) :
    (diagnostic.report source).offset + (diagnostic.report source).length ≤
      byteCount source := by
  have first := byteOffset_le_byteCount source diagnostic.span.start
  have stop := byteOffset_le_byteCount source diagnostic.span.stop
  simp only [Diagnostic.report, Span.byteExtent, Span.byteRange]
  omega

end Offside
