import Offside.Fault

/-!
Spans: the stretch of one file between two places, the end excluded. Tokens that layout adds have
spans of zero width.
-/

namespace Offside

set_option autoImplicit false

structure Span where
  file : FileId
  start : Position
  stop : Position
deriving DecidableEq, Repr

namespace Span

def zero : Span := ⟨.single, .origin, .origin⟩

instance : Inhabited Span := ⟨zero⟩

def between (start stop : Position) (file : FileId) : Except Fault Span :=
  if start ≤ stop then .ok ⟨file, start, stop⟩ else .error (.endBeforeStart start stop)

def point (place : Position) (file : FileId) : Span := ⟨file, place, place⟩

def atStart (span : Span) : Span := point span.start span.file

def isZero (span : Span) : Bool := span = zero

def isPoint (span : Span) : Bool := span.start = span.stop

def contains (outer inner : Span) : Bool :=
  outer.file = inner.file && outer.start ≤ inner.start && inner.stop ≤ outer.stop

def through (first last : Span) : Span := ⟨first.file, first.start, last.stop⟩

def join (first last : Span) : Except Fault Span :=
  if first.file = last.file then .ok (first.through last)
  else .error (.filesDiffer first.file last.file)

def fields (span : Span) : List Nat :=
  [span.file.number, span.start.line, span.start.column, span.stop.line, span.stop.column]

def order (left right : Span) : Ordering :=
  compareOn fields left right

def render (span : Span) : String :=
  s!"{span.start.render}[{span.stop.render}]"

theorem contains_iff {outer inner : Span} :
    outer.contains inner = true ↔
      outer.file = inner.file ∧ outer.start ≤ inner.start ∧ inner.stop ≤ outer.stop := by
  simp [contains, and_assoc]

theorem isPoint_point (place : Position) (file : FileId) :
    (point place file).isPoint = true := by
  simp [isPoint, point]

end Span

end Offside
