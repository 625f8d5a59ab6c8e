import Offside.Source.Span

/-!
Names in a tree. A name holds only its span: the spelling is found in the table of lexemes at its
start. A qualified name keeps its segments, the qualifiers first.
-/

namespace Offside

set_option autoImplicit false

inductive Name where
  /-- An identifier. -/
  | simple (span : Span)
  | qualified (segments : List Name) (span : Span)
  /-- An operator that names a function. -/
  | operator (span : Span)
  /-- An operator that names a constructor, or a constructor written with brackets. -/
  | special (span : Span)
  /-- A place where a name was missing. -/
  | error (span : Span)

namespace Name

instance : Inhabited Name := ⟨.error .zero⟩

def span : Name → Span
  | .simple span | .qualified _ span | .operator span | .special span | .error span => span

def isError : Name → Bool
  | .error _ => true
  | _ => false

/-- A name from its qualifiers and its last segment. A single segment is the name itself. -/
def ofSegments : List Name → Except Fault Name
  | [] => .ok (.qualified [] .zero)
  | [name] => .ok name
  | first :: second :: later => do
      let last := (second :: later).getLast (List.cons_ne_nil _ _)
      let span ← first.span.join last.span
      return .qualified (first :: second :: later) span

end Name

end Offside
