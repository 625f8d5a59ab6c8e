import Offside.Text.CodeRun

/-!
Blank characters: the property `White_Space`, which holds the no-break space, the line and paragraph
separators and the next-line control besides the usual blanks of ASCII.
-/

namespace Offside.Text

def blankRuns : List CodeRun :=
  [⟨0x9, 0xd, 1⟩, ⟨0x20, 0x20, 1⟩, ⟨0x85, 0x85, 1⟩, ⟨0xa0, 0xa0, 1⟩, ⟨0x1680, 0x1680, 1⟩,
   ⟨0x2000, 0x200a, 1⟩, ⟨0x2028, 0x2029, 1⟩, ⟨0x202f, 0x202f, 1⟩, ⟨0x205f, 0x205f, 1⟩,
   ⟨0x3000, 0x3000, 1⟩]

def isBlank (character : Char) : Bool :=
  CodeRun.covers blankRuns character.toNat

end Offside.Text
