import Offside.Source.Span

/-!
Byte offsets of places in a text encoded as UTF-8. A place beyond the end of its line stands for the
start of the next line, and one beyond the last line for the end of the text, so every place of any
text has an offset on a character boundary.
-/

namespace Offside

set_option autoImplicit false

def byteCount : List Char → Nat
  | [] => 0
  | character :: rest => character.utf8Size + byteCount rest

def byteOffset : List Char → Position → Nat
  | [], _ => 0
  | character :: rest, ⟨line + 1, column⟩ =>
      character.utf8Size +
        byteOffset rest (if character = '\n' then ⟨line, column⟩ else ⟨line + 1, column⟩)
  | _ :: _, ⟨0, 0⟩ => 0
  | character :: rest, ⟨0, column + 1⟩ =>
      if character = '\n' then character.utf8Size
      else character.utf8Size + byteOffset rest ⟨0, column⟩

theorem byteOffset_le_byteCount (source : List Char) (place : Position) :
    byteOffset source place ≤ byteCount source := by
  fun_induction byteOffset source place with
  | case1 => simp [byteCount]
  | case2 character rest line column ih => simp only [byteCount]; omega
  | case3 => exact Nat.zero_le _
  | case4 rest column => simp [byteCount]
  | case5 character rest column differs ih => simp only [byteCount]; omega

namespace Span

/-- First byte and end byte of a span, the end never before the first. -/
def byteRange (span : Span) (source : List Char) : Nat × Nat :=
  let first := byteOffset source span.start
  (first, max first (byteOffset source span.stop))

def byteExtent (span : Span) (source : List Char) : Nat × Nat :=
  let (first, stop) := span.byteRange source
  (first, stop - first)

end Span

end Offside
