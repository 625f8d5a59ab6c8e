/-!
Places in a source file. Lines and columns count from zero and columns count characters, so a place
does not depend on how the text is encoded. Places of one file are ordered line by line.
-/

namespace Offside

set_option autoImplicit false

/-- The number under which a caller knows a file. -/
structure FileId where
  number : Nat
deriving DecidableEq, Repr

/-- The number used when only one file is at hand. -/
def FileId.single : FileId := ⟨0⟩

structure Position where
  line : Nat
  column : Nat
deriving DecidableEq, Hashable, Repr

namespace Position

def origin : Position := ⟨0, 0⟩

instance : LE Position where
  le earlier later :=
    earlier.line < later.line ∨ (earlier.line = later.line ∧ earlier.column ≤ later.column)

instance (earlier later : Position) : Decidable (earlier ≤ later) :=
  inferInstanceAs
    (Decidable (earlier.line < later.line ∨
      (earlier.line = later.line ∧ earlier.column ≤ later.column)))

theorem le_def {earlier later : Position} :
    earlier ≤ later ↔
      earlier.line < later.line ∨
        (earlier.line = later.line ∧ earlier.column ≤ later.column) :=
  Iff.rfl

theorem le_refl (place : Position) : place ≤ place :=
  Or.inr ⟨rfl, Nat.le_refl _⟩

theorem le_trans {first second third : Position}
    (before : first ≤ second) (after : second ≤ third) : first ≤ third := by
  rw [le_def] at *
  omega

theorem le_total (left right : Position) : left ≤ right ∨ right ≤ left := by
  rw [le_def, le_def]
  omega

theorem le_antisymm {left right : Position} (before : left ≤ right) (after : right ≤ left) :
    left = right := by
  rw [le_def] at *
  cases left
  cases right
  simp only [mk.injEq] at *
  omega

def render (place : Position) : String :=
  s!"{place.line}:{place.column}"

def after (place : Position) (character : Char) : Position :=
  if character = '\n' then ⟨place.line + 1, 0⟩ else ⟨place.line, place.column + 1⟩

theorem le_after (place : Position) (character : Char) : place ≤ place.after character := by
  rw [le_def, after]
  split
  · exact Or.inl (Nat.lt_succ_self _)
  · exact Or.inr ⟨rfl, Nat.le_succ _⟩

end Position

end Offside
