import Offside.Proofs.Python.Indentation
import Mathlib.Logic.Function.Iterate

/-!
Logical lines of a Python text, one after another. A line that is indented deeper than the line before
it opens a block, with one exception: a width that met no open block is kept in mind until a block is
opened or closed, and a later line of that width goes on at the level reached, also after a line that
stands exactly at this level. Which widths are kept in mind is a matter of the lines before alone.
-/

namespace Offside

set_option autoImplicit false

namespace Cursor

def Reaches (cursor later : Cursor) : Prop := ∃ count, later = cursor.skip count

theorem Reaches.skip {cursor later : Cursor} (reaches : cursor.Reaches later) (count : Nat) :
    cursor.Reaches (later.skip count) := by
  obtain ⟨before, rfl⟩ := reaches
  exact ⟨before + count, (skip_add before count cursor).symm⟩

theorem Reaches.trans {first second third : Cursor} (before : first.Reaches second)
    (after : second.Reaches third) : first.Reaches third := by
  obtain ⟨count, rfl⟩ := after
  exact before.skip count

theorem Reaches.ended {cursor later : Cursor} (reaches : cursor.Reaches later)
    (ended : cursor.ahead = []) : later.ahead = [] := by
  obtain ⟨count, rfl⟩ := reaches
  rw [ahead_skip, ended, List.drop_nil]

end Cursor

namespace Python

open Offside.Lexical

namespace Indentation

theorem innermost_meet_le {blocks : Indentation} (formed : blocks.WellFormed) (measured : Nat) :
    (blocks.meet measured).2.innermost ≤ measured := by
  have reached : blocks.effective measured ≤ measured := by
    unfold effective
    split
    · rename_i remembered
      exact Nat.le_of_lt (formed.misaligned measured remembered)
    · exact Nat.le_refl _
  refine Nat.le_trans ?_ reached
  unfold meet shiftTo
  split
  · exact Nat.le_refl _
  · split
    · rename_i level
      exact Nat.le_of_eq level.symm
    · exact innermost_kept_le blocks _

theorem meet_eq_deeper_iff (blocks : Indentation) (measured : Nat) :
    (blocks.meet measured).1 = .deeper ↔
      blocks.innermost < measured ∧ blocks.misaligned ≠ some measured := by
  unfold meet shiftTo effective
  by_cases remembered : blocks.misaligned = some measured
  · simp [remembered]
  · simp only [remembered, if_false, ne_eq, not_false_eq_true, and_true]
    split
    · simp [*]
    · split
      · simp [*]
      · simp [*]

theorem meet_of_remembered {blocks : Indentation} {measured : Nat}
    (remembered : blocks.misaligned = some measured) : blocks.meet measured = (.level, blocks) := by
  simp [meet, shiftTo, effective, remembered]

def Shift.tokens : Shift → List Token
  | .level => []
  | .deeper => [.indent]
  | .shallower _ => [.dedent]

/-- The width kept in mind after a line that shifts the blocks in a given way. -/
def remembered (before : Option Nat) (measured : Nat) : Shift → Option Nat
  | .level => before
  | .deeper => none
  | .shallower true => none
  | .shallower false => some measured

theorem misaligned_meet (blocks : Indentation) (measured : Nat) :
    (blocks.meet measured).2.misaligned =
      remembered blocks.misaligned measured (blocks.meet measured).1 := by
  by_cases known : blocks.misaligned = some measured
  · rw [meet_of_remembered known, remembered]
  · unfold meet shiftTo effective
    rw [if_neg known]
    split
    · rfl
    · split
      · rfl
      · generalize (blocks.kept measured).headD 0 = reached
        by_cases aligned : reached = measured
        · simp [aligned, remembered]
        · simp [aligned, remembered]

end Indentation

namespace Lexer

def pastIndentation (lexer : Lexer) : Cursor := lexer.cursor.skipWhile Cursor.isIndentation

/-- The lexer stands before a logical line: blank lines, lines with a comment alone and the end of the
text start none, and the blocks that the line before has closed are all handed out. -/
def startsLine (lexer : Lexer) : Bool :=
  lexer.blocks.owed == 0 && lexer.atLineStart && !lexer.pastIndentation.ahead.isEmpty &&
    lineBreakWidth lexer.pastIndentation.ahead == 0 && !lexer.pastIndentation.startsWith '#'

def lineWidth (lexer : Lexer) : Nat := lexer.pastIndentation.indentation

def handed (file : FileId) (lexer : Lexer) : List Token :=
  (lexer.move file).item.toList.map Lexed.token

def reported (file : FileId) (lexer : Lexer) : List Problem :=
  (lexer.move file).item.toList.flatMap fun item => item.reports.map Diagnostic.problem

/-- What the line ahead does to the blocks. -/
def shift (lexer : Lexer) : Indentation.Shift := (lexer.blocks.meet lexer.lineWidth).1

structure Begins (file : FileId) (lexer : Lexer) : Prop where
  handed : lexer.handed file = lexer.shift.tokens
  reported : lexer.reported file = [.inconsistentIndentation] ↔ lexer.shift = .shallower false
  blocks : (lexer.move file).state.blocks = (lexer.blocks.meet lexer.lineWidth).2

theorem begins (file : FileId) {lexer : Lexer} (starts : lexer.startsLine = true) :
    lexer.Begins file := by
  simp only [startsLine, pastIndentation, Bool.and_eq_true, beq_iff_eq,
    Bool.not_eq_true'] at starts
  obtain ⟨⟨⟨⟨settled, atStart⟩, remains⟩, noBreak⟩, noComment⟩ := starts
  have moved : lexer.move file = lexer.moveAtLineStart file := by
    rw [move, if_neg (by omega), if_pos atStart]
  simp only [moveAtLineStart, remains, noBreak, noComment, Nat.lt_irrefl, if_false,
    Bool.false_eq_true] at moved
  -- by what the line does to the blocks
  have met : lexer.shift = (lexer.blocks.meet lexer.lineWidth).1 := rfl
  change _ = (lexer.blocks.meet (lexer.cursor.skipWhile _).indentation).1 at met
  generalize widths : lexer.blocks.meet (lexer.cursor.skipWhile _).indentation = changed
    at moved met
  obtain ⟨shift, after⟩ := changed
  have blocks : (lexer.blocks.meet lexer.lineWidth).2 = after := congrArg Prod.snd widths
  rcases shift with _ | _ | (_ | _)
  · exact ⟨by rw [Lexer.handed, moved, met]; rfl, by rw [met]; simp [Lexer.reported, moved, Move.pass],
      by rw [moved, blocks]; rfl⟩
  · exact ⟨by rw [Lexer.handed, moved, met]; rfl,
      by rw [met]; simp [Lexer.reported, moved, Move.emit, Lexed.silent], by rw [moved, blocks]; rfl⟩
  · exact ⟨by rw [Lexer.handed, moved, met]; rfl, by rw [met]; simp [Lexer.reported, moved, Move.emit],
      by rw [moved, blocks]; rfl⟩
  · exact ⟨by rw [Lexer.handed, moved, met]; rfl,
      by rw [met]; simp [Lexer.reported, moved, Move.emit, Lexed.silent], by rw [moved, blocks]; rfl⟩

theorem moveAtLineStart_reaches (file : FileId) (lexer : Lexer) :
    lexer.cursor.Reaches (lexer.moveAtLineStart file).state.cursor := by
  have started : lexer.cursor.Reaches (lexer.cursor.skipWhile Cursor.isIndentation) := ⟨_, rfl⟩
  simp only [moveAtLineStart]
  split
  · exact started
  · split
    · exact started.skip _
    · split
      · exact (started.skip _).skip _
      · split <;> exact started

theorem moveInLine_reaches (file : FileId) (lexer : Lexer) :
    lexer.cursor.Reaches (lexer.moveInLine file).state.cursor := by
  have started : lexer.cursor.Reaches (lexer.cursor.skipWhile isBlankInLine) := ⟨_, rfl⟩
  simp only [moveInLine]
  split
  · unfold moveAtEnd
    split <;> exact started
  · split
    · exact started.skip _
    · split
      · simp only [moveAtLineFeed]
        split
        · exact started.skip 1
        · split <;> exact started.skip 1
      · split <;> exact started.skip _

theorem move_reaches (file : FileId) (lexer : Lexer) :
    lexer.cursor.Reaches (lexer.move file).state.cursor := by
  unfold move
  split
  · exact ⟨0, rfl⟩
  · split
    · exact moveAtLineStart_reaches file lexer
    · exact moveInLine_reaches file lexer

/-- Away from the start of a line the width kept in mind stays, and blocks are closed only at the end
of the text. -/
structure Waits (lexer : Lexer) (move : Move Lexer) : Prop where
  misaligned : move.state.blocks.misaligned = lexer.blocks.misaligned
  widths : move.state.blocks.widths = lexer.blocks.widths ∨ move.state.cursor.ahead = []

theorem Waits.of_same {lexer : Lexer} {move : Move Lexer}
    (same : move.state.blocks = lexer.blocks) : Waits lexer move :=
  ⟨by rw [same], Or.inl (by rw [same])⟩

theorem moveInLine_waits (file : FileId) (lexer : Lexer) :
    Waits lexer (lexer.moveInLine file) := by
  simp only [moveInLine]
  split
  · rename_i ended
    unfold moveAtEnd
    split
    · exact .of_same rfl
    · exact ⟨rfl, Or.inr (List.isEmpty_iff.mp ended)⟩
  · split
    · exact .of_same rfl
    · split
      · simp only [moveAtLineFeed]
        split
        · exact .of_same rfl
        · split <;> exact .of_same rfl
      · split <;> exact .of_same rfl

theorem move_waits (file : FileId) {lexer : Lexer} (between : lexer.startsLine = false) :
    Waits lexer (lexer.move file) := by
  unfold move
  split
  · exact ⟨rfl, Or.inl rfl⟩
  · rename_i settled
    split
    · rename_i atStart
      simp only [moveAtLineStart]
      split
      · exact .of_same rfl
      · split
        · exact .of_same rfl
        · split
          · exact .of_same rfl
          · -- the remaining branch is the start of a line
            rename_i remains noBreak noComment
            simp only [startsLine, pastIndentation, Bool.and_eq_false_iff, beq_eq_false_iff_ne,
              Bool.not_eq_false'] at between
            simp_all
    · exact moveInLine_waits file lexer

end Lexer

section

variable (file : FileId) (source : List Char)

def after (count : Nat) : Lexer := (fun lexer => (lexer.move file).state)^[count] (.start source)

theorem after_succ (count : Nat) :
    after file source (count + 1) = ((after file source count).move file).state :=
  Function.iterate_succ_apply' _ _ _

/-- A line of the given width met no open block, and no line between it and the move of the given
number opened or closed one. -/
def Misaligned (width count : Nat) : Prop :=
  ∃ origin, origin < count ∧ (after file source origin).startsLine = true ∧
    (after file source origin).lineWidth = width ∧
    (after file source origin).reported file = [.inconsistentIndentation] ∧
    ∀ between, origin < between → between < count →
      (after file source between).startsLine = true → (after file source between).handed file = []

variable {file source}

theorem after_wellFormed (count : Nat) : (after file source count).blocks.WellFormed := by
  induction count with
  | zero => exact Indentation.start_wellFormed
  | succ count induction =>
    rw [after_succ]
    exact (Lexer.move_balances file _).formed induction

theorem not_misaligned_zero (width : Nat) : ¬Misaligned file source width 0 := by
  rintro ⟨origin, before, -⟩
  exact absurd before (Nat.not_lt_zero origin)

/-- A move that is not at the start of a line leaves the widths kept in mind as they are. -/
theorem misaligned_succ_of_between {count : Nat}
    (between : (after file source count).startsLine = false) (width : Nat) :
    Misaligned file source width (count + 1) ↔ Misaligned file source width count := by
  constructor
  · rintro ⟨origin, before, starts, same, reported, later⟩
    have differs : origin ≠ count := by
      rintro rfl
      rw [between] at starts
      cases starts
    exact ⟨origin, by omega, starts, same, reported, fun other above below =>
      later other above (by omega)⟩
  · rintro ⟨origin, before, starts, same, reported, later⟩
    refine ⟨origin, by omega, starts, same, reported, ?_⟩
    intro other above below begins
    have differs : other ≠ count := by
      rintro rfl
      rw [between] at begins
      cases begins
    exact later other above (by omega) begins

/-- A line that hands out nothing, reports nothing and so leaves the widths kept in mind. -/
theorem misaligned_succ_of_level {count : Nat}
    (reported : (after file source count).reported file ≠ [.inconsistentIndentation])
    (handed : (after file source count).handed file = []) (width : Nat) :
    Misaligned file source width (count + 1) ↔ Misaligned file source width count := by
  constructor
  · rintro ⟨origin, before, starts, same, reports, later⟩
    have differs : origin ≠ count := by
      rintro rfl
      exact reported reports
    exact ⟨origin, by omega, starts, same, reports, fun other above below =>
      later other above (by omega)⟩
  · rintro ⟨origin, before, starts, same, reports, later⟩
    refine ⟨origin, by omega, starts, same, reports, ?_⟩
    intro other above below begins
    rcases Nat.lt_or_eq_of_le (Nat.le_of_lt_succ below) with less | rfl
    · exact later other above less begins
    · exact handed

/-- After a line that opens or closes a block only its own width can be kept in mind. -/
theorem misaligned_succ_of_shift {count : Nat}
    (starts : (after file source count).startsLine = true)
    (handed : (after file source count).handed file ≠ []) (width : Nat) :
    Misaligned file source width (count + 1) ↔
      (after file source count).lineWidth = width ∧
        (after file source count).reported file = [.inconsistentIndentation] := by
  constructor
  · rintro ⟨origin, before, -, same, reports, later⟩
    rcases Nat.lt_or_eq_of_le (Nat.le_of_lt_succ before) with less | rfl
    · exact absurd (later count less (Nat.lt_succ_self _) starts) handed
    · exact ⟨same, reports⟩
  · rintro ⟨same, reports⟩
    exact ⟨count, Nat.lt_succ_self _, starts, same, reports, fun other above below =>
      absurd below (by omega)⟩

/-- The width the lexer keeps in mind is a matter of the lines so far. -/
theorem misaligned_after (count width : Nat) :
    (after file source count).blocks.misaligned = some width ↔
      Misaligned file source width count := by
  induction count with
  | zero =>
    have none : (after file source 0).blocks.misaligned = none := rfl
    simp [none, not_misaligned_zero]
  | succ count induction =>
    cases starts : (after file source count).startsLine with
    | false =>
      rw [misaligned_succ_of_between starts, ← induction, after_succ,
        (Lexer.move_waits file starts).misaligned]
    | true =>
      have begins := Lexer.begins file starts
      have kept : (after file source (count + 1)).blocks.misaligned =
          Indentation.remembered (after file source count).blocks.misaligned
            (after file source count).lineWidth (after file source count).shift := by
        rw [after_succ, begins.blocks]
        exact Indentation.misaligned_meet _ _
      have handed := begins.handed
      have reported := begins.reported
      rw [kept]
      -- by what the line does to the blocks
      generalize (after file source count).shift = shift at handed reported
      rcases shift with _ | _ | (_ | _)
      · rw [misaligned_succ_of_level (by simp [reported]) handed]
        exact induction
      · rw [misaligned_succ_of_shift starts (by simp [handed, Indentation.Shift.tokens]),
          reported]
        simp [Indentation.remembered]
      · rw [misaligned_succ_of_shift starts (by simp [handed, Indentation.Shift.tokens]),
          reported]
        simp [Indentation.remembered]
      · rw [misaligned_succ_of_shift starts (by simp [handed, Indentation.Shift.tokens]),
          reported]
        simp [Indentation.remembered]

theorem after_reaches {earlier later : Nat} (inOrder : earlier ≤ later) :
    (after file source earlier).cursor.Reaches (after file source later).cursor := by
  induction inOrder with
  | refl => exact ⟨0, rfl⟩
  | step _ induction =>
    rw [after_succ]
    exact induction.trans (Lexer.move_reaches file _)

theorem ahead_ne_nil_of_startsLine {lexer : Lexer} (starts : lexer.startsLine = true) :
    lexer.cursor.ahead ≠ [] := by
  intro ended
  have reaches : lexer.cursor.Reaches lexer.pastIndentation := ⟨_, rfl⟩
  simp [Lexer.startsLine, reaches.ended ended] at starts

/-- As long as text is left, no block is opened or closed between two lines. -/
theorem widths_between {earlier later : Nat} (inOrder : earlier ≤ later)
    (between : ∀ count, earlier ≤ count → count < later →
      (after file source count).startsLine = false)
    (remains : (after file source later).cursor.ahead ≠ []) :
    (after file source later).blocks.widths = (after file source earlier).blocks.widths := by
  induction inOrder with
  | refl => rfl
  | @step reached above induction =>
    have waits := Lexer.move_waits file (between reached above (Nat.lt_succ_self _))
    have kept : (after file source (reached + 1)).blocks.widths =
        (after file source reached).blocks.widths ∨
          (after file source (reached + 1)).cursor.ahead = [] := by
      rw [after_succ]
      exact waits.widths
    have before : (after file source reached).cursor.ahead ≠ [] := fun ended =>
      remains ((after_reaches (Nat.le_succ reached)).ended ended)
    rw [Nat.succ_eq_add_one, kept.resolve_right remains]
    exact induction (fun count above below => between count above (Nat.lt_succ_of_lt below)) before

/-- As long as text is left, the tokens of the text are those handed out so far and those that the
lexer has still to hand out. -/
theorem tokens_after (count : Nat) (remains : (after file source count).cursor.ahead ≠ []) :
    (reader.items file (Lexer.start source)).map Lexed.token =
      (List.range count).flatMap (fun before => (after file source before).handed file) ++
        (reader.items file (after file source count)).map Lexed.token := by
  induction count with
  | zero => rfl
  | succ count induction =>
    have before : (after file source count).cursor.ahead ≠ [] := fun ended =>
      remains ((after_reaches (Nat.le_succ count)).ended ended)
    rw [induction before, List.range_succ, List.flatMap_append, List.append_assoc]
    congr 1
    rw [List.flatMap_singleton]
    -- one move, which is not final while text is left
    have moved := after_succ file source count
    cases found : ((after file source count).move file).item with
    | none =>
      have passed : reader.move file (after file source count) =
          .pass (after file source (count + 1)) := by
        rw [moved, Move.pass, ← found]
        rfl
      rw [Reader.items_of_pass passed, Lexer.handed, found]
      rfl
    | some item =>
      have emitted : reader.move file (after file source count) =
          .emit item (after file source (count + 1)) := by
        rw [moved, Move.emit, ← found]
        rfl
      have goesOn : item.isFinal = false := by
        rw [Bool.eq_false_iff]
        intro isFinal
        have final : ((after file source count).move file).isFinal = true := by
          rw [Move.isFinal, found]
          exact isFinal
        obtain ⟨ended, holds, handed⟩ := Lexer.move_final final
        rw [moved, handed] at remains
        exact remains holds.ahead
      rw [Reader.items_of_emit emitted goesOn, Lexer.handed, found]
      rfl

/-- A line that is indented deeper than the line before it opens a block, unless its width is one that
met no open block and no line has opened or closed a block since. A line of such a width hands out no
token of its own and goes on at the level reached. -/
theorem deeper_line_opens_block {earlier later : Nat}
    (first : (after file source earlier).startsLine = true)
    (second : (after file source later).startsLine = true) (inOrder : earlier < later)
    (consecutive : ∀ between, earlier < between → between < later →
      (after file source between).startsLine = false)
    (deeper : (after file source earlier).lineWidth < (after file source later).lineWidth) :
    (reader.items file (Lexer.start source)).map Lexed.token =
        (List.range later).flatMap (fun before => (after file source before).handed file) ++
          (reader.items file (after file source later)).map Lexed.token ∧
      (¬Misaligned file source (after file source later).lineWidth later →
        (after file source later).handed file = [.indent]) ∧
      (Misaligned file source (after file source later).lineWidth later →
        (after file source later).handed file = []) := by
  have remains := ahead_ne_nil_of_startsLine second
  have met := Lexer.begins file first
  have begins := Lexer.begins file second
  refine ⟨tokens_after later remains, ?_, ?_⟩
  · intro forgotten
    have below : (after file source later).blocks.innermost <
        (after file source later).lineWidth := by
      refine Nat.lt_of_le_of_lt ?_ deeper
      have same := widths_between (Nat.succ_le_of_lt inOrder) consecutive remains
      rw [after_succ, met.blocks] at same
      rw [Indentation.innermost, same]
      exact Indentation.innermost_meet_le (after_wellFormed earlier) _
    have opens : (after file source later).shift = .deeper := by
      refine (Indentation.meet_eq_deeper_iff _ _).mpr ⟨below, ?_⟩
      rw [Ne, misaligned_after]
      exact forgotten
    rw [begins.handed, opens]
    rfl
  · intro known
    rw [← misaligned_after] at known
    rw [begins.handed, Lexer.shift, Indentation.meet_of_remembered known]
    rfl

/-- A width that met no open block does not keep a line of another width from opening a block. -/
theorem deeper_line_opens_block_of_other_width :
    (after .single "a\n  b\n c\nd\n  e\n".toList 12).handed .single = [.indent] := by
  let lexer := after .single "a\n  b\n c\nd\n  e\n".toList
  obtain ⟨first, second, inFirst, deeper, forgotten⟩ :
      (lexer 9).startsLine = true ∧ (lexer 12).startsLine = true ∧
        ((lexer 10).startsLine = false ∧ (lexer 11).startsLine = false) ∧
        (lexer 9).lineWidth < (lexer 12).lineWidth ∧
        (lexer 12).blocks.misaligned ≠ some (lexer 12).lineWidth := by decide +kernel
  refine (deeper_line_opens_block first second (by decide) ?_ deeper).2.1 ?_
  · intro between above below
    obtain rfl | rfl : between = 10 ∨ between = 11 := by omega
    · exact inFirst.1
    · exact inFirst.2
  · rw [← misaligned_after]
    exact forgotten

variable (file source) in
/-- The line that starts at a move hands out a token that is neither a comment nor layout. -/
def HasToken (line : Nat) : Prop :=
  ∃ further, line < further ∧
    (∀ between, line < between → between ≤ further →
      (after file source between).startsLine = false) ∧
    ∃ token ∈ (after file source further).handed file, isWritten token = true

/-- After a line that failed to meet an open block and one at the level it reached, a line indented
like the first is deeper than the second and opens no block. -/
theorem deeper_line_opens_no_block :
    ¬∀ (file : FileId) (source : List Char) (earlier later : Nat),
      (after file source earlier).startsLine = true →
      (after file source later).startsLine = true → earlier < later →
      (∀ between, earlier < between → between < later →
        (after file source between).startsLine = false) →
      HasToken file source earlier → HasToken file source later →
      (after file source earlier).lineWidth < (after file source later).lineWidth →
        (after file source later).handed file = [.indent] := by
  intro opens
  let source := "if a:\n        b\n    c\nd\n    e\n".toList
  let lexer := after .single source
  obtain ⟨first, second, ⟨inFirst, stillFirst⟩, inSecond, firstToken, secondToken, deeper, level⟩ :
      (lexer 11).startsLine = true ∧ (lexer 14).startsLine = true ∧
        ((lexer 12).startsLine = false ∧ (lexer 13).startsLine = false) ∧
        (lexer 15).startsLine = false ∧
        (lexer 12).handed .single = [.identifier] ∧ (lexer 15).handed .single = [.identifier] ∧
        (lexer 11).lineWidth < (lexer 14).lineWidth ∧ (lexer 14).handed .single = [] := by
    decide +kernel
  have opened := opens .single source 11 14 first second (by decide) ?_ ?_ ?_ deeper
  · rw [level] at opened
    cases opened
  · intro between above below
    obtain rfl | rfl : between = 12 ∨ between = 13 := by omega
    · exact inFirst
    · exact stillFirst
  · refine ⟨12, by decide, ?_, .identifier, by rw [firstToken]; exact List.mem_singleton_self _, rfl⟩
    intro between above below
    obtain rfl : between = 12 := by omega
    exact inFirst
  · refine ⟨15, by decide, ?_, .identifier, by rw [secondToken]; exact List.mem_singleton_self _, rfl⟩
    intro between above below
    obtain rfl : between = 15 := by omega
    exact inSecond

end

end Python

end Offside
