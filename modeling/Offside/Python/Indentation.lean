/-!
The open blocks of a Python text and how a new logical line changes them. A line that is indented
deeper than the innermost block opens a block. One that is indented less closes every deeper block;
if it then meets no open block exactly, it is misaligned, and lines of the same width go on at the
level it reached until a block is opened or closed.
-/

namespace Offside.Python

set_option autoImplicit false

structure Indentation where
  /-- Widths of the open blocks, innermost first. The whole text is no block. -/
  widths : List Nat := []
  /-- The width at which the last line failed to meet an open block. -/
  misaligned : Option Nat := none
  /-- Blocks already closed whose closing token is still to be handed out. -/
  owed : Nat := 0
deriving DecidableEq, Repr

namespace Indentation

inductive Shift where
  | level
  | deeper
  | shallower (aligned : Bool)
deriving DecidableEq, Repr

def Shift.opened : Shift → Nat
  | .deeper => 1
  | _ => 0

/-- Blocks that a shift itself closes, those owed left out. -/
def Shift.closed : Shift → Nat
  | .shallower _ => 1
  | _ => 0

def innermost (blocks : Indentation) : Nat := blocks.widths.headD 0

/-- The width a line counts with: one of the misaligned width goes on at the level reached. -/
def effective (blocks : Indentation) (measured : Nat) : Nat :=
  if blocks.misaligned = some measured then blocks.innermost else measured

def kept (blocks : Indentation) (width : Nat) : List Nat :=
  blocks.widths.dropWhile fun inner => width < inner

def shiftTo (blocks : Indentation) (width : Nat) : Shift × Indentation :=
  if blocks.innermost < width then
    (.deeper, { blocks with widths := width :: blocks.widths, misaligned := none })
  else if width = blocks.innermost then (.level, blocks)
  else
    let aligned : Bool := (blocks.kept width).headD 0 = width
    (.shallower aligned,
      { widths := blocks.kept width
        misaligned := if aligned then none else some width
        owed := blocks.widths.length - (blocks.kept width).length - 1 })

/-- What a logical line of the measured width does. Of the blocks it closes one is closed by the line
itself and the others are owed. -/
def meet (blocks : Indentation) (measured : Nat) : Shift × Indentation :=
  blocks.shiftTo (blocks.effective measured)

/-- Blocks whose closing token has not been handed out. -/
def unclosed (blocks : Indentation) : Nat := blocks.widths.length + blocks.owed

theorem length_kept_lt {blocks : Indentation} {width : Nat} (inside : width < blocks.innermost) :
    (blocks.kept width).length < blocks.widths.length := by
  unfold innermost at inside
  unfold kept
  cases found : blocks.widths with
  | nil =>
      rw [found] at inside
      simp at inside
  | cons first outer =>
      rw [found] at inside
      have within : width < first := by simpa using inside
      have bound := (List.dropWhile_sublist (l := outer) fun inner =>
        decide (width < inner)).length_le
      simp only [List.dropWhile_cons, within, decide_true, if_true, List.length_cons]
      omega

theorem unclosed_shiftTo (blocks : Indentation) (width : Nat) (settled : blocks.owed = 0) :
    (blocks.shiftTo width).2.unclosed + (blocks.shiftTo width).1.closed =
      blocks.unclosed + (blocks.shiftTo width).1.opened := by
  unfold shiftTo
  by_cases deeper : blocks.innermost < width
  · simp only [deeper, if_true, unclosed, List.length_cons, Shift.closed, Shift.opened]
    omega
  · by_cases level : width = blocks.innermost
    · simp [level, Shift.closed, Shift.opened]
    · have fewer : (blocks.kept width).length < blocks.widths.length :=
        length_kept_lt (by omega)
      simp only [deeper, level, if_false, unclosed, Shift.closed, Shift.opened]
      omega

/-- A logical line leaves as many blocks to be closed as there were, but for those it opens and
closes itself. -/
theorem unclosed_meet (blocks : Indentation) (measured : Nat) (settled : blocks.owed = 0) :
    (blocks.meet measured).2.unclosed + (blocks.meet measured).1.closed =
      blocks.unclosed + (blocks.meet measured).1.opened :=
  unclosed_shiftTo blocks (blocks.effective measured) settled

end Indentation

end Offside.Python
