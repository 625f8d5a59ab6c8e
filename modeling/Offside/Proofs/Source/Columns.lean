import Mathlib.Algebra.Group.Nat.Defs
import Offside.Proofs.Source.Slices

/-!
The column at which indentation is measured, in its word and without one. A character adds at most
eight to it, so a line has to have 2 ^ 29 characters before its column leaves a word of 32 bits. From
there on the word holds the column modulo 2 ^ 32: since eight divides 2 ^ 32, tabs keep stopping at the
same places. Arithmetic that is checked does not get there, it stops at the first step that leaves the
word.
-/

namespace Offside

set_option autoImplicit false

namespace Cursor

def columnAfter (column : Nat) (character : Char) : Nat :=
  match character with
  | '\n' => 0
  | '\t' => (column / 8 + 1) * 8
  | '\x0c' => 0
  | _ => column + 1

/-- The column behind a text that starts a line, however wide the line is. -/
def columnBehind (text : List Char) : Nat := text.foldl columnAfter 0

/-- The step over the next character leaves the word, from the column that the word holds. -/
def Overflows (cursor : Cursor) : Prop :=
  ∃ character ∈ cursor.ahead.head?, 2 ^ 32 ≤ columnAfter cursor.indentation character

theorem toNat_visualAfter (visual : UInt32) (character : Char) :
    (visualAfter visual character).toNat = columnAfter visual.toNat character % 2 ^ 32 := by
  unfold visualAfter columnAfter
  split
  · rfl
  · simp [tabWidth]
  · rfl
  · simp

theorem columnAfter_mod (column : Nat) (character : Char) :
    columnAfter (column % 2 ^ 32) character % 2 ^ 32 = columnAfter column character % 2 ^ 32 := by
  unfold columnAfter
  split
  · rfl
  · omega
  · rfl
  · omega

theorem toNat_foldl_visualAfter (text : List Char) {visual : UInt32} {column : Nat}
    (same : visual.toNat = column % 2 ^ 32) :
    (text.foldl visualAfter visual).toNat = text.foldl columnAfter column % 2 ^ 32 := by
  induction text generalizing visual column with
  | nil => exact same
  | cons character rest induction =>
    apply induction
    rw [toNat_visualAfter, same, columnAfter_mod]

theorem indentation_ofText (source : List Char) (count : Nat) :
    ((ofText source).skip count).indentation = columnBehind (source.take count) % 2 ^ 32 := by
  rw [indentation, visual_skip]
  exact toNat_foldl_visualAfter _ rfl

theorem ahead_ofText_skip (source : List Char) (count : Nat) :
    ((ofText source).skip count).ahead.head? = source[count]? := by
  rw [ahead_skip, List.head?_drop, ofText]

theorem columnBehind_tabs (count : Nat) :
    columnBehind (List.replicate count '\t') = 8 * count := by
  induction count with
  | zero => rfl
  | succ count induction =>
    rw [List.replicate_succ', columnBehind, List.foldl_append, ← columnBehind, induction]
    simp only [List.foldl_cons, List.foldl_nil, columnAfter]
    omega

theorem indentation_tabs {count width : Nat} (within : count ≤ width) (rest : List Char) :
    ((ofText (List.replicate width '\t' ++ rest)).skip count).indentation =
      8 * count % 2 ^ 32 := by
  rw [indentation_ofText, List.take_append_of_le_length (by rwa [List.length_replicate]),
    List.take_replicate, Nat.min_eq_left within, columnBehind_tabs]

/-- The bound is reached: behind 2 ^ 29 - 1 tabs one more leaves the word, which starts again from
zero. -/
theorem overflows_tabs {count width : Nat} (within : count < width) (last : count + 1 = 2 ^ 29)
    (rest : List Char) :
    let tabs := ofText (List.replicate width '\t' ++ rest)
    (tabs.skip count).Overflows ∧ (tabs.skip (count + 1)).indentation = 0 := by
  refine ⟨⟨'\t', ?_, ?_⟩, ?_⟩
  · rw [ahead_ofText_skip, List.getElem?_append_left (by simpa using within),
      List.getElem?_replicate, if_pos within]
    rfl
  · rw [indentation_tabs (Nat.le_of_lt within)]
    simp only [columnAfter]
    omega
  · rw [indentation_tabs within]
    omega

end Cursor

end Offside
