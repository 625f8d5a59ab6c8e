import Offside.Lexical.Reader
import Offside.Python.Indentation
import Offside.Python.Scan

/-!
Tokens of a Python text. The end of a logical line is a token, and so is every block that a line opens
or closes by its indentation. Blank lines and lines with a comment alone change no block; line breaks
inside brackets and after a backslash end no logical line. The end of the text closes all blocks but
ends no line.
-/

namespace Offside.Python

set_option autoImplicit false

open Offside.Lexical

structure Lexer where
  cursor : Cursor
  blocks : Indentation := {}
  /-- Brackets open around the cursor. -/
  depth : Nat := 0
  /-- The cursor is in the indentation of a logical line. -/
  atLineStart : Bool := true
  /-- The logical line has handed out a token that is neither a comment nor layout. -/
  lineHasTokens : Bool := false

namespace Lexer

def start (source : List Char) : Lexer := { cursor := Cursor.ofText source }

def here (lexer : Lexer) (file : FileId) : Span := Span.point lexer.cursor.position file

/-- A comment reaches to the end of its line, the line break excluded. -/
def commentScan (text : List Char) : Scan :=
  { token := .comment
    width := (text.takeWhile fun character => character != '\n' && character != '\r').length }

def commentItem (file : FileId) (cursor : Cursor) : Lexed :=
  let scan := commentScan cursor.ahead
  scan.lexed file cursor (cursor.ahead.take scan.width)

def afterComment (cursor : Cursor) : Cursor := cursor.skip (commentScan cursor.ahead).width

def withoutLineEnd (text : List Char) : List Char :=
  (text.reverse.dropWhile fun character => character == '\n' || character == '\r').reverse

/-- The recorded text of a string never ends in a line break. -/
def recordedText (scan : Scan) (text : List Char) : List Char :=
  let written := text.take scan.width
  if scan.token = .string then withoutLineEnd written else written

def depthAfter (depth : Nat) (token : Token) : Nat :=
  if token.isOpening then depth + 1 else if token.isClosing then depth - 1 else depth

def moveAtLineStart (file : FileId) (lexer : Lexer) : Move Lexer :=
  let cursor := lexer.cursor.skipWhile Cursor.isIndentation
  let lineBreak := lineBreakWidth cursor.ahead
  if cursor.ahead.isEmpty then .pass { lexer with cursor, atLineStart := false }
  else if 0 < lineBreak then .pass { lexer with cursor := cursor.skip lineBreak }
  else if cursor.startsWith '#' then
    let after := afterComment cursor
    .emit (commentItem file cursor)
      { lexer with cursor := after.skip (lineBreakWidth after.ahead) }
  else
    let blocks := (lexer.blocks.meet cursor.indentation).2
    let lexer' := { lexer with cursor, blocks, atLineStart := false }
    match (lexer.blocks.meet cursor.indentation).1 with
    | .level => .pass lexer'
    | .deeper => .emit (.silent .indent (lexer'.here file)) lexer'
    | .shallower true => .emit (.silent .dedent (lexer'.here file)) lexer'
    | .shallower false =>
        .emit
          { token := .dedent
            span := lexer'.here file
            reports := [⟨.inconsistentIndentation, lexer'.here file⟩] }
          lexer'

def moveAtEnd (file : FileId) (lexer : Lexer) : Move Lexer :=
  match lexer.blocks.widths with
  | [] => .emit (.silent .endOfInput (lexer.here file)) lexer
  | _ :: outer =>
      .emit (.silent .dedent (lexer.here file))
        { lexer with blocks := { lexer.blocks with widths := outer } }

def moveAtLineFeed (file : FileId) (lexer : Lexer) : Move Lexer :=
  let place := lexer.cursor.position
  let lexer' := { lexer with cursor := lexer.cursor.advance }
  if 0 < lexer.depth then .pass lexer'
  else if lexer.lineHasTokens then
    .emit (.silent .newline ⟨file, place, ⟨place.line, place.column + 1⟩⟩)
      { lexer' with atLineStart := true, lineHasTokens := false }
  else .pass { lexer' with atLineStart := true }

/-- The move at a written token. A string cut off by the end of its line ends the logical line. -/
def moveAtToken (file : FileId) (lexer : Lexer) : Move Lexer :=
  let scan := scan lexer.cursor.ahead
  let endsLine := decide (0 < scan.absorbed) && lexer.depth == 0
  .emit (scan.lexed file lexer.cursor (recordedText scan lexer.cursor.ahead))
    { lexer with
      cursor := lexer.cursor.skip (scan.width + scan.absorbed)
      depth := depthAfter lexer.depth scan.token
      atLineStart := endsLine
      lineHasTokens := !endsLine }

def isBlankInLine (character : Char) : Bool :=
  Cursor.isIndentation character || character == '\r'

def continuationWidth (text : List Char) : Nat :=
  match text with
  | '\\' :: rest => if lineBreakWidth rest = 0 then 0 else 1 + lineBreakWidth rest
  | _ => 0

def moveInLine (file : FileId) (lexer : Lexer) : Move Lexer :=
  let cursor := lexer.cursor.skipWhile isBlankInLine
  let lexer' := { lexer with cursor }
  let continuation := continuationWidth cursor.ahead
  if cursor.ahead.isEmpty then moveAtEnd file lexer'
  else if cursor.startsWith '#' then
    .emit (commentItem file cursor) { lexer with cursor := afterComment cursor }
  else if cursor.startsWith '\n' then moveAtLineFeed file lexer'
  else if 0 < continuation then .pass { lexer with cursor := cursor.skip continuation }
  else moveAtToken file lexer'

def move (file : FileId) (lexer : Lexer) : Move Lexer :=
  if 0 < lexer.blocks.owed then
    .emit (.silent .dedent (lexer.here file))
      { lexer with blocks := { lexer.blocks with owed := lexer.blocks.owed - 1 } }
  else if lexer.atLineStart then moveAtLineStart file lexer
  else moveInLine file lexer

/-- Text ahead counts most, since a token may end a line; the indentation of a line may open a block;
open and owed blocks are still to be closed. -/
def weight (lexer : Lexer) : Nat :=
  3 * lexer.cursor.ahead.length + 2 * lexer.atLineStart.toNat + lexer.blocks.unclosed

theorem afterComment_shorter {cursor : Cursor} (comment : cursor.startsWith '#' = true) :
    (afterComment cursor).ahead.length < cursor.ahead.length := by
  unfold Cursor.startsWith at comment
  have remains : cursor.ahead ≠ [] := by
    intro ended
    simp [ended] at comment
  refine Cursor.length_ahead_skip_lt ?_ remains
  obtain ⟨first, rest, found⟩ := List.exists_cons_of_ne_nil remains
  have isHash : first = '#' := by simpa [found] using comment
  simp [commentScan, found, isHash]

theorem moveAtLineStart_descends (file : FileId) (lexer : Lexer)
    (atStart : lexer.atLineStart = true) (settled : lexer.blocks.owed = 0) :
    (moveAtLineStart file lexer).state.weight < lexer.weight := by
  have skipped := Cursor.length_ahead_skipWhile_le Cursor.isIndentation lexer.cursor
  unfold moveAtLineStart
  simp only
  generalize lexer.cursor.skipWhile Cursor.isIndentation = cursor at *
  split
  · simp only [Move.pass, weight, atStart, Bool.toNat_true, Bool.toNat_false]
    omega
  · rename_i remains
    have remains : cursor.ahead ≠ [] := by simpa using remains
    split
    · rename_i isBreak
      have shorter := Cursor.length_ahead_skip_lt isBreak remains
      simp only [Move.pass, weight]
      omega
    · split
      · rename_i comment
        have shorter := afterComment_shorter comment
        have further := Cursor.length_ahead_skip_le
          (lineBreakWidth (afterComment cursor).ahead) (afterComment cursor)
        simp only [Move.emit, weight]
        omega
      · have changed := Indentation.unclosed_meet lexer.blocks cursor.indentation settled
        generalize lexer.blocks.meet cursor.indentation = met at changed ⊢
        obtain ⟨shift, after⟩ := met
        rcases shift with _ | _ | (_ | _) <;>
          simp only [Move.pass, Move.emit, weight, atStart, Bool.toNat_true, Bool.toNat_false,
            Indentation.Shift.closed, Indentation.Shift.opened] at changed ⊢ <;>
          omega

theorem moveAtEnd_descends (file : FileId) (lexer : Lexer)
    (goesOn : (moveAtEnd file lexer).isFinal = false) :
    (moveAtEnd file lexer).state.weight < lexer.weight := by
  unfold moveAtEnd at goesOn ⊢
  split at goesOn
  · simp [Move.isFinal, Move.emit, Lexed.isFinal, Lexed.silent] at goesOn
  · rename_i found
    simp only [Move.emit, weight, Indentation.unclosed, found, List.length_cons]
    omega

theorem moveAtLineFeed_descends (file : FileId) (lexer : Lexer)
    (inLine : lexer.atLineStart = false) (remains : lexer.cursor.ahead ≠ []) :
    (moveAtLineFeed file lexer).state.weight < lexer.weight := by
  have shorter := Cursor.length_ahead_skip_lt Nat.one_pos remains
  simp only [Cursor.skip] at shorter
  unfold moveAtLineFeed
  simp only
  split
  · simp only [Move.pass, weight]
    omega
  · split
    · simp only [Move.emit, weight, inLine, Bool.toNat_true, Bool.toNat_false]
      omega
    · simp only [Move.pass, weight, inLine, Bool.toNat_true, Bool.toNat_false]
      omega

theorem moveAtToken_descends (file : FileId) (lexer : Lexer)
    (inLine : lexer.atLineStart = false) (remains : lexer.cursor.ahead ≠ []) :
    (moveAtToken file lexer).state.weight < lexer.weight := by
  have moves : 0 < (scan lexer.cursor.ahead).width + (scan lexer.cursor.ahead).absorbed := by
    have := scan_width_pos lexer.cursor.ahead
    omega
  have shorter := Cursor.length_ahead_skip_lt moves remains
  simp only [moveAtToken, Move.emit, weight, inLine, Bool.toNat_false]
  have atMost := Bool.toNat_le
    (decide (0 < (scan lexer.cursor.ahead).absorbed) && lexer.depth == 0)
  omega

theorem moveInLine_descends (file : FileId) (lexer : Lexer)
    (inLine : lexer.atLineStart = false)
    (goesOn : (moveInLine file lexer).isFinal = false) :
    (moveInLine file lexer).state.weight < lexer.weight := by
  have skipped := Cursor.length_ahead_skipWhile_le isBlankInLine lexer.cursor
  unfold moveInLine at goesOn ⊢
  simp only at goesOn ⊢
  generalize lexer.cursor.skipWhile isBlankInLine = cursor at *
  have lighter : ({ lexer with cursor } : Lexer).weight ≤ lexer.weight := by
    simp only [weight]
    omega
  split at goesOn
  · rename_i ended
    rw [if_pos ended]
    exact Nat.lt_of_lt_of_le (moveAtEnd_descends file _ goesOn) lighter
  · rename_i remains
    rw [if_neg remains]
    have remains : cursor.ahead ≠ [] := by simpa using remains
    split
    · rename_i comment
      have shorter := afterComment_shorter comment
      simp only [Move.emit, weight]
      omega
    · split
      · exact Nat.lt_of_lt_of_le (moveAtLineFeed_descends file _ inLine remains) lighter
      · split
        · rename_i continued
          have shorter := Cursor.length_ahead_skip_lt continued remains
          simp only [Move.pass, weight]
          omega
        · exact Nat.lt_of_lt_of_le (moveAtToken_descends file _ inLine remains) lighter

theorem move_descends (file : FileId) (lexer : Lexer)
    (goesOn : (move file lexer).isFinal = false) :
    (move file lexer).state.weight < lexer.weight := by
  unfold move at goesOn ⊢
  split at goesOn
  · rename_i owed
    rw [if_pos owed]
    simp only [Move.emit, weight, Indentation.unclosed]
    omega
  · rename_i settled
    rw [if_neg settled]
    split at goesOn
    · rename_i atStart
      rw [if_pos atStart]
      exact moveAtLineStart_descends file lexer atStart (by omega)
    · rename_i inLine
      rw [if_neg inLine]
      exact moveInLine_descends file lexer (by simpa using inLine) goesOn

end Lexer

def reader : Reader Lexer where
  start := Lexer.start
  move := Lexer.move
  weight := Lexer.weight
  descends := Lexer.move_descends

end Offside.Python
