import Offside.Context

/-!
One line for each declaration of a program: where it stands, what it is and what it names.
-/

namespace Offside.Command

set_option autoImplicit false

def describe : Decl → String × List Name
  | .moduleHeader header => ("module", [header.name])
  | .importDecl decl => ("import", [decl.moduleName])
  | .typeSignature signature => ("signature", signature.names)
  | .fixity decl => ("fixity", decl.operators)
  | .function name _ _ _ _ => ("function", [name])
  | .patternBinding _ _ _ => ("pattern binding", [])
  | .unsupported keyword _ => (keyword.display, [])
  | .empty _ => ("empty", [])
  | .error _ => ("error", [])

/-- Names without a spelling are left out. -/
def outlineLine (context : Context) (decl : Decl) : String :=
  let (kind, names) := describe decl
  let spelled := ", ".intercalate (names.filterMap context.spell)
  if spelled.isEmpty then s!"{decl.span.render}\t{kind}"
  else s!"{decl.span.render}\t{kind}\t{spelled}"

def outline (context : Context) (program : Program) : List String :=
  program.decls.map (outlineLine context)

end Offside.Command
