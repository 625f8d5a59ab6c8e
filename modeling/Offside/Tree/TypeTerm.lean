import Offside.Tree.Name

/-!
Types, as signatures and annotations write them.
-/

namespace Offside

set_option autoImplicit false

inductive TypeTerm where
  | constructor (name : Name)
  | typeVariable (name : Name)
  | application (head : TypeTerm) (arguments : List TypeTerm) (span : Span)
  | function (parameter result : TypeTerm) (span : Span)
  | list (element : TypeTerm) (span : Span)
  | tuple (elements : List TypeTerm) (span : Span)
  | unit (span : Span)
  /-- A type under a context of class constraints. -/
  | constrained (context body : TypeTerm) (span : Span)
  | error (span : Span)

namespace TypeTerm

instance : Inhabited TypeTerm := ⟨.error .zero⟩

def span : TypeTerm → Span
  | .constructor name | .typeVariable name => name.span
  | .application _ _ span | .function _ _ span | .list _ span | .tuple _ span | .unit span
  | .constrained _ _ span | .error span => span

end TypeTerm

end Offside
