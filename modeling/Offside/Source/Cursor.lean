import Offside.Source.Offset
import Offside.Text.Quoted

/-!
A cursor stands between the characters already read, kept nearest first, and those ahead. Moving it
counts lines and columns, bytes, and the column at which indentation is measured: a tab goes to the
next multiple of eight there and a form feed starts it over. That column grows by up to eight for one
character, so a line may outgrow the word it is kept in, which then starts again from zero.
-/

namespace Offside

set_option autoImplicit false

structure Cursor where
  behind : List Char
  ahead : List Char
  position : Position
  offset : Nat
  visual : UInt32
deriving Repr

namespace Cursor

def tabWidth : UInt32 := 8

def ofText (source : List Char) : Cursor := ⟨[], source, .origin, 0, 0⟩

/-- The whole text, on both sides of the cursor. -/
def text (cursor : Cursor) : List Char := cursor.behind.reverse ++ cursor.ahead

def visualAfter (visual : UInt32) (character : Char) : UInt32 :=
  match character with
  | '\n' => 0
  | '\t' => (visual / tabWidth + 1) * tabWidth
  | '\x0c' => 0
  | _ => visual + 1

def indentation (cursor : Cursor) : Nat := cursor.visual.toNat

/-- Moves over one character and stays where it is at the end of the text. -/
def advance (cursor : Cursor) : Cursor :=
  match cursor.ahead with
  | [] => cursor
  | character :: rest =>
      { behind := character :: cursor.behind
        ahead := rest
        position := cursor.position.after character
        offset := cursor.offset + character.utf8Size
        visual := visualAfter cursor.visual character }

def skip : Nat → Cursor → Cursor
  | 0, cursor => cursor
  | count + 1, cursor => skip count cursor.advance

def peek (cursor : Cursor) (distance : Nat) : Option Char := cursor.ahead[distance]?

def isAtEnd (cursor : Cursor) : Bool := cursor.ahead.isEmpty

def startsWith (cursor : Cursor) (character : Char) : Bool :=
  cursor.ahead.head? == some character

def skipWhile (accepts : Char → Bool) (cursor : Cursor) : Cursor :=
  cursor.skip (cursor.ahead.takeWhile accepts).length

def isIndentation (character : Char) : Bool :=
  character == ' ' || character == '\t' || character == '\x0c'

def spanFrom (cursor : Cursor) (start : Position) (file : FileId) : Except Fault Span :=
  Span.between start cursor.position file

/-- Characters that fill exactly the given number of bytes, read backwards. -/
def lastBytes : Nat → List Char → List Char → Option (List Char)
  | 0, _, taken => some taken
  | _ + 1, [], _ => none
  | count + 1, character :: rest, taken =>
      if character.utf8Size ≤ count + 1 then
        lastBytes (count + 1 - character.utf8Size) rest (character :: taken)
      else none

/-- The text read since a byte offset, empty for one inside a character or beyond the cursor. -/
def textFrom (cursor : Cursor) (start : Nat) : List Char :=
  (lastBytes (cursor.offset - start) cursor.behind []).getD []

def describe (cursor : Cursor) : String :=
  s!"Cursor \x7b line: {cursor.position.line}, col: {cursor.position.column}, " ++
    s!"remaining: {Text.quoted cursor.ahead} \x7d"

@[simp] theorem text_advance (cursor : Cursor) : cursor.advance.text = cursor.text := by
  unfold advance
  split
  · rfl
  · rename_i found
    simp [text, found]

@[simp] theorem ahead_advance (cursor : Cursor) : cursor.advance.ahead = cursor.ahead.drop 1 := by
  unfold advance
  split <;> simp [*]

@[simp] theorem ahead_skip (count : Nat) (cursor : Cursor) :
    (cursor.skip count).ahead = cursor.ahead.drop count := by
  induction count generalizing cursor with
  | zero => rfl
  | succ count ih =>
      rw [skip, ih, ahead_advance, List.drop_drop, Nat.add_comm]

theorem position_le_advance (cursor : Cursor) : cursor.position ≤ cursor.advance.position := by
  unfold advance
  split
  · exact Position.le_refl _
  · exact Position.le_after _ _

theorem position_le_skip (count : Nat) (cursor : Cursor) :
    cursor.position ≤ (cursor.skip count).position := by
  induction count generalizing cursor with
  | zero => exact Position.le_refl _
  | succ count ih => exact Position.le_trans (position_le_advance cursor) (ih cursor.advance)

theorem length_ahead_skip_le (count : Nat) (cursor : Cursor) :
    (cursor.skip count).ahead.length ≤ cursor.ahead.length := by
  rw [ahead_skip, List.length_drop]
  exact Nat.sub_le _ _

theorem length_ahead_skip_lt {count : Nat} {cursor : Cursor} (moves : 0 < count)
    (remains : cursor.ahead ≠ []) : (cursor.skip count).ahead.length < cursor.ahead.length := by
  have := List.length_pos_iff.mpr remains
  rw [ahead_skip, List.length_drop]
  omega

theorem length_ahead_skipWhile_le (accepts : Char → Bool) (cursor : Cursor) :
    (cursor.skipWhile accepts).ahead.length ≤ cursor.ahead.length :=
  length_ahead_skip_le _ _

end Cursor

end Offside
