import Offside.Tree.Name

/-!
Export and import lists. An entry names one thing, and a type or class may list members after it.
-/

namespace Offside

set_option autoImplicit false

inductive Members where
  | absent
  /-- All members, written as two dots with the span given. -/
  | all (span : Span)
  | listed (names : List Name) (span : Span)

inductive Selection where
  /-- All that a module exports. -/
  | wholeModule (name : Name) (span : Span)
  | item (name : Name) (members : Members) (span : Span)

def Selection.name : Selection → Name
  | .wholeModule name _ | .item name _ _ => name

structure SelectionList where
  selections : List Selection
  span : Span

end Offside
