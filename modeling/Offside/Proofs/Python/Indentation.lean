import Offside.Proofs.Lexical.Recording
import Offside.Python.Lexer
import Mathlib.Data.List.TakeWhile
import Mathlib.Tactic.Common

/-!
The open blocks of a Python text along its tokens. Their widths always increase from the outside in,
a misaligned line is always deeper than the level it counts for, and the blocks that were opened and
not closed by the tokens handed out are exactly those that are open or owed. So no block is ever closed
that was not opened, and none is left open at the end of input.
-/

namespace Offside.Python

set_option autoImplicit false

open Offside.Lexical

namespace Indentation

/-- The widths of all levels, outermost first: the text itself, then the open blocks. -/
def stack (blocks : Indentation) : List Nat := 0 :: blocks.widths.reverse

structure WellFormed (blocks : Indentation) : Prop where
  nested : blocks.widths.Pairwise (· > ·)
  positive : ∀ width ∈ blocks.widths, 0 < width
  misaligned : ∀ width ∈ blocks.misaligned, blocks.innermost < width

theorem length_stack (blocks : Indentation) : blocks.stack.length = blocks.widths.length + 1 := by
  simp [stack]

theorem stack_top (blocks : Indentation) : blocks.stack.getLast? = some blocks.innermost := by
  cases found : blocks.widths with
  | nil => simp [stack, innermost, found]
  | cons first outer => simp [stack, innermost, found, List.getLast?_cons]

namespace WellFormed

variable {blocks : Indentation}

theorem stack_increases (formed : blocks.WellFormed) : blocks.stack.Pairwise (· < ·) := by
  rw [stack, List.pairwise_cons, List.pairwise_reverse]
  exact ⟨fun width member => formed.positive width (List.mem_reverse.1 member), formed.nested⟩

theorem le_innermost (formed : blocks.WellFormed) :
    ∀ width ∈ blocks.widths, width ≤ blocks.innermost := by
  have nested := formed.nested
  unfold innermost
  cases found : blocks.widths with
  | nil => simp
  | cons first outer =>
    rw [found, List.pairwise_cons] at nested
    intro width member
    rcases List.mem_cons.1 member with rfl | member
    · exact Nat.le_refl _
    · exact Nat.le_of_lt (nested.1 width member)

/-- Closing blocks from the inside, and the width at which this stops. -/
theorem of_suffix (formed : blocks.WellFormed) {left : Indentation}
    (outer : left.widths <:+ blocks.widths)
    (misaligned : ∀ width ∈ left.misaligned, left.innermost < width) : left.WellFormed where
  nested := formed.nested.sublist outer.sublist
  positive := fun width member => formed.positive width (outer.subset member)
  misaligned := misaligned

end WellFormed

theorem start_wellFormed : ({} : Indentation).WellFormed where
  nested := List.Pairwise.nil
  positive := by simp
  misaligned := by simp

theorem innermost_kept_le (blocks : Indentation) (width : Nat) :
    (blocks.kept width).headD 0 ≤ width := by
  have stops := List.head?_dropWhile_not (fun inner => decide (width < inner)) blocks.widths
  unfold kept
  cases found : blocks.widths.dropWhile fun inner => decide (width < inner) with
  | nil => exact Nat.zero_le _
  | cons inner outer =>
    rw [found] at stops
    simpa using stops

theorem shiftTo_wellFormed {blocks : Indentation} (formed : blocks.WellFormed) (width : Nat) :
    (blocks.shiftTo width).2.WellFormed := by
  unfold shiftTo
  split
  · rename_i deeper
    have below := formed.le_innermost
    exact
      { nested := List.pairwise_cons.2
          ⟨fun outer member => Nat.lt_of_le_of_lt (below outer member) deeper, formed.nested⟩
        positive := List.forall_mem_cons.2 ⟨Nat.zero_lt_of_lt deeper, formed.positive⟩
        misaligned := by simp }
  · split
    · exact formed
    · apply formed.of_suffix (List.dropWhile_suffix _)
      intro found member
      have bound := innermost_kept_le blocks width
      simp only [innermost] at member ⊢
      split at member
      · cases member
      · rename_i differs
        cases member
        exact Nat.lt_of_le_of_ne bound (by simpa using differs)

theorem meet_wellFormed {blocks : Indentation} (formed : blocks.WellFormed) (measured : Nat) :
    (blocks.meet measured).2.WellFormed :=
  shiftTo_wellFormed formed (blocks.effective measured)

/-- A line that closes blocks closes at least one, so what it leaves owed is one less than it closed. -/
theorem owed_meet {blocks : Indentation} {measured : Nat} {aligned : Bool}
    (closes : (blocks.meet measured).1 = .shallower aligned) :
    (blocks.meet measured).2.owed + 1 + (blocks.meet measured).2.widths.length =
      blocks.widths.length := by
  unfold meet shiftTo at closes ⊢
  generalize blocks.effective measured = width at *
  split at closes
  · cases closes
  · rename_i inside
    split at closes
    · cases closes
    · rename_i differs
      have fewer : (blocks.kept width).length < blocks.widths.length :=
        length_kept_lt (by omega)
      rw [if_neg inside, if_neg differs]
      simp only
      omega

end Indentation

def isWritten (token : Token) : Bool :=
  token != .endOfInput && token != .comment && !token.isLayout

theorem scanSymbol_written (text : List Char) : isWritten (scanSymbol text).token = true := by
  have written : ∀ entry ∈ symbols, isWritten entry.2 = true := by decide
  unfold scanSymbol
  split
  · rename_i found
    exact written _ (List.mem_of_find?_eq_some found)
  · rfl

theorem scan_written (text : List Char) : isWritten (scan text).token = true := by
  unfold scan
  split
  · rcases scanNumber_kind text with kind | kind <;> rw [kind] <;> rfl
  · split
    · rw [scanString_kind]
      rfl
    · split
      · exact Token.forall_of_getD (isWritten · = true) (by decide) rfl _
      · exact scanSymbol_written text

def openings (tokens : List Token) : Nat := tokens.count .indent

def closings (tokens : List Token) : Nat := tokens.count .dedent

namespace Lexer

/-- What a move hands out opens and closes as many blocks as it changes those left to be closed. -/
structure Balances (lexer : Lexer) (move : Move Lexer) : Prop where
  formed : lexer.blocks.WellFormed → move.state.blocks.WellFormed
  balanced : openings (move.item.toList.map Lexed.token) + lexer.blocks.unclosed =
    closings (move.item.toList.map Lexed.token) + move.state.blocks.unclosed

/-- A move that leaves the blocks alone and hands out nothing of layout. -/
theorem Balances.of_same {lexer : Lexer} {move : Move Lexer}
    (same : move.state.blocks = lexer.blocks)
    (others : ∀ item ∈ move.item, item.token ≠ .indent ∧ item.token ≠ .dedent) :
    Balances lexer move := by
  refine ⟨by rw [same]; exact id, ?_⟩
  rw [same]
  cases found : move.item with
  | none => rfl
  | some item =>
    have other := others item found
    simp [openings, closings, other.1, other.2]

theorem moveAtLineStart_balances {lexer : Lexer} (file : FileId)
    (settled : lexer.blocks.owed = 0) : Balances lexer (lexer.moveAtLineStart file) := by
  simp only [moveAtLineStart]
  generalize lexer.cursor.skipWhile Cursor.isIndentation = cursor
  split
  · exact .of_same rfl (by simp [Move.pass])
  · split
    · exact .of_same rfl (by simp [Move.pass])
    · split
      · exact .of_same rfl (by simp [Move.emit, commentItem, Scan.lexed, commentScan])
      · have formed : lexer.blocks.WellFormed →
            (lexer.blocks.meet cursor.indentation).2.WellFormed := fun formed =>
          Indentation.meet_wellFormed formed _
        have changed := Indentation.unclosed_meet lexer.blocks cursor.indentation settled
        generalize lexer.blocks.meet cursor.indentation = met at formed changed ⊢
        obtain ⟨shift, after⟩ := met
        refine ⟨?_, ?_⟩
        · rcases shift with _ | _ | (_ | _) <;> exact formed
        · rcases shift with _ | _ | (_ | _) <;>
            simp only [Indentation.Shift.closed, Indentation.Shift.opened] at changed <;>
            simp [Move.pass, Move.emit, Lexed.silent, openings, closings] <;>
            omega

theorem moveAtEnd_balances (file : FileId) (lexer : Lexer) :
    Balances lexer (lexer.moveAtEnd file) := by
  unfold moveAtEnd
  split
  · exact .of_same rfl (by simp [Move.emit, Lexed.silent])
  · rename_i width outer found
    constructor
    · intro formed
      apply formed.of_suffix
      · rw [found]
        exact List.suffix_cons width outer
      · intro misaligned member
        have above := formed.misaligned misaligned member
        have nested := formed.le_innermost
        rw [found, List.forall_mem_cons] at nested
        simp only [Move.emit, Indentation.innermost] at above ⊢
        cases outer with
        | nil => exact Nat.zero_lt_of_lt above
        | cons next outer =>
          exact Nat.lt_of_le_of_lt (nested.2 next List.mem_cons_self) above
    · simp [Move.emit, Lexed.silent, openings, closings, Indentation.unclosed, found]
      omega

theorem moveAtLineFeed_balances (file : FileId) (lexer : Lexer) :
    Balances lexer (lexer.moveAtLineFeed file) := by
  simp only [moveAtLineFeed]
  split
  · exact .of_same rfl (by simp [Move.pass])
  · split
    · exact .of_same rfl (by simp [Move.emit, Lexed.silent])
    · exact .of_same rfl (by simp [Move.pass])

theorem moveAtToken_balances (file : FileId) (lexer : Lexer) :
    Balances lexer (lexer.moveAtToken file) := by
  apply Balances.of_same
  · rfl
  · have written := scan_written lexer.cursor.ahead
    intro item member
    cases member
    constructor
    · intro indent
      rw [show (scan lexer.cursor.ahead).token = .indent from indent] at written
      cases written
    · intro dedent
      rw [show (scan lexer.cursor.ahead).token = .dedent from dedent] at written
      cases written

theorem moveInLine_balances (file : FileId) (lexer : Lexer) :
    Balances lexer (lexer.moveInLine file) := by
  have same : ∀ {cursor : Cursor} {move : Move Lexer},
      Balances { lexer with cursor } move → Balances lexer move :=
    fun balances => ⟨balances.formed, balances.balanced⟩
  simp only [moveInLine]
  split
  · exact same (moveAtEnd_balances file _)
  · split
    · exact .of_same rfl (by simp [Move.emit, commentItem, Scan.lexed, commentScan])
    · split
      · exact same (moveAtLineFeed_balances file _)
      · split
        · exact .of_same rfl (by simp [Move.pass])
        · exact same (moveAtToken_balances file _)

theorem move_balances (file : FileId) (lexer : Lexer) : Balances lexer (lexer.move file) := by
  unfold move
  split
  · rename_i owed
    constructor
    · intro formed
      exact { formed with }
    · simp [Move.emit, Lexed.silent, openings, closings, Indentation.unclosed]
      omega
  · split
    · exact moveAtLineStart_balances file (by omega)
    · exact moveInLine_balances file lexer

/-- A lexer that has handed out all but the end of input, which it hands out from then on. -/
structure Ended (lexer : Lexer) : Prop where
  ahead : lexer.cursor.ahead = []
  inLine : lexer.atLineStart = false
  widths : lexer.blocks.widths = []
  owed : lexer.blocks.owed = 0

theorem moveAtLineStart_inner (file : FileId) (lexer : Lexer) :
    (lexer.moveAtLineStart file).isFinal = false := by
  simp only [moveAtLineStart]
  split
  · rfl
  · split
    · rfl
    · split
      · rfl
      · split
        · rfl
        · rfl
        · rfl
        · rfl

theorem moveAtLineFeed_inner (file : FileId) (lexer : Lexer) :
    (lexer.moveAtLineFeed file).isFinal = false := by
  simp only [moveAtLineFeed]
  split
  · rfl
  · split
    · rfl
    · rfl

theorem moveAtToken_inner (file : FileId) (lexer : Lexer) :
    (lexer.moveAtToken file).isFinal = false := by
  have written := scan_written lexer.cursor.ahead
  simp only [isWritten, Bool.and_eq_true, bne_iff_ne] at written
  simpa [moveAtToken, Move.isFinal, Move.emit, Lexed.isFinal, Scan.lexed] using written.1.1

theorem moveAtEnd_final {file : FileId} {lexer : Lexer}
    (final : (lexer.moveAtEnd file).isFinal = true) :
    lexer.blocks.widths = [] ∧
      lexer.moveAtEnd file = .emit (.silent .endOfInput (lexer.here file)) lexer := by
  unfold moveAtEnd at final ⊢
  split at final
  · rename_i none
    rw [none]
    exact ⟨rfl, rfl⟩
  · cases final

theorem moveInLine_final {file : FileId} {lexer : Lexer} (settled : lexer.blocks.owed = 0)
    (inLine : lexer.atLineStart = false) (final : (lexer.moveInLine file).isFinal = true) :
    ∃ ended : Lexer, ended.Ended ∧
      lexer.moveInLine file = .emit (.silent .endOfInput (ended.here file)) ended := by
  simp only [moveInLine] at final ⊢
  split at final
  · rename_i ahead
    obtain ⟨widths, moved⟩ := moveAtEnd_final final
    rw [if_pos ahead]
    exact ⟨{ lexer with cursor := lexer.cursor.skipWhile isBlankInLine },
      ⟨by simpa using ahead, inLine, widths, settled⟩, moved⟩
  · split at final
    · cases final
    · split at final
      · rw [moveAtLineFeed_inner] at final
        cases final
      · split at final
        · cases final
        · rw [moveAtToken_inner] at final
          cases final

/-- The end of input is handed out only when no block is left to be closed. -/
theorem move_final {file : FileId} {lexer : Lexer} (final : (lexer.move file).isFinal = true) :
    ∃ ended : Lexer, ended.Ended ∧
      lexer.move file = .emit (.silent .endOfInput (ended.here file)) ended := by
  unfold move at final ⊢
  split at final
  · cases final
  · rename_i settled
    rw [if_neg settled]
    split at final
    · rw [moveAtLineStart_inner] at final
      cases final
    · rename_i inLine
      rw [if_neg inLine]
      exact moveInLine_final (by omega) (by simpa using inLine) final

theorem Ended.unclosed {lexer : Lexer} (ended : lexer.Ended) : lexer.blocks.unclosed = 0 := by
  simp [Indentation.unclosed, ended.widths, ended.owed]

end Lexer

/-- The tokens handed out and the blocks open after them. -/
def Accounts (handed : List (Token × Span)) (lexer : Lexer) : Prop :=
  lexer.blocks.WellFormed ∧
    openings (handed.map Prod.fst) = closings (handed.map Prod.fst) + lexer.blocks.unclosed

theorem accounts_invariant (file : FileId) : Reader.Invariant reader file Accounts where
  move := by
    rintro handed lexer ⟨formed, balanced⟩
    have moved := Lexer.move_balances file lexer
    have counted := moved.balanced
    have shown : (((lexer.move file).item.toList.map Lexed.located).map Prod.fst) =
        (lexer.move file).item.toList.map Lexed.token := by
      rw [List.map_map]
      rfl
    refine ⟨moved.formed formed, ?_⟩
    change openings ((handed ++ (lexer.move file).item.toList.map Lexed.located).map Prod.fst) =
      closings ((handed ++ (lexer.move file).item.toList.map Lexed.located).map Prod.fst) + _
    rw [List.map_append, shown]
    simp only [openings, closings, List.count_append] at balanced counted ⊢
    change _ = _ + (lexer.move file).state.blocks.unclosed
    omega
  comment := by
    rintro handed span lexer ⟨formed, balanced⟩
    exact ⟨formed, by simpa [openings, closings] using balanced⟩

theorem accounts_calls (file : FileId) (source : List Char) (settings : List Bool) :
    Accounts ((reader.calls file settings (Lexer.start source)).1.map Lexed.located)
      (reader.calls file settings (Lexer.start source)).2 := by
  have started : Accounts [] (Lexer.start source) := ⟨Indentation.start_wellFormed, rfl⟩
  simpa using (accounts_invariant file).calls settings (Lexer.start source) started

theorem accounts_front (file : FileId) (source : List Char) (settings : List Bool)
    {front : List Token}
    (first : front <+: (reader.calls file settings (Lexer.start source)).1.map Lexed.token) :
    ∃ fewer, (reader.calls file fewer (Lexer.start source)).1.map Lexed.token = front ∧
      openings front = closings front +
        (reader.calls file fewer (Lexer.start source)).2.blocks.unclosed := by
  have shown : (reader.calls file (settings.take front.length) (Lexer.start source)).1.map
      Lexed.token = front := by
    rw [Reader.calls_take, List.map_take]
    exact (List.prefix_iff_eq_take.1 first).symm
  have counted := (accounts_calls file source (settings.take front.length)).2
  rw [List.map_map, show Prod.fst ∘ Lexed.located = Lexed.token from rfl, shown] at counted
  exact ⟨settings.take front.length, shown, counted⟩

/-- The call that hands out the end of input leaves no block to be closed. -/
theorem calls_ended {file : FileId} {settings : List Bool} {lexer : Lexer}
    (final : ((reader.calls file settings lexer).1.map Lexed.token).getLast? = some .endOfInput) :
    (reader.calls file settings lexer).2.Ended := by
  rw [List.getLast?_map, Option.map_eq_some_iff] at final
  obtain ⟨item, last, isEnd⟩ := final
  obtain ⟨before, emitted, moved, shown⟩ := Reader.calls_last last
  have isFinal : (before.move file).isFinal = true := by
    have same : emitted.token = item.token := congrArg Prod.fst shown
    change (reader.move file before).isFinal = true
    rw [moved]
    simp [Move.isFinal, Move.emit, Lexed.isFinal, same, isEnd]
  obtain ⟨ended, holds, final⟩ := Lexer.move_final isFinal
  have same : (reader.calls file settings lexer).2 = ended :=
    congrArg Move.state (moved.symm.trans final)
  rw [same]
  exact holds

/-- After any calls the widths of the open blocks increase from zero, a misaligned line is deeper than
all of them, and the tokens handed out have opened as many blocks more than they have closed as are
open or owed. So they never close a block that is not open, the end of input finds all blocks closed,
and a line that closes blocks always has one to close itself. -/
theorem indentation_balances (file : FileId) (source : List Char) (settings : List Bool) :
    let handed := (reader.calls file settings (Lexer.start source)).1.map Lexed.token
    let blocks := (reader.calls file settings (Lexer.start source)).2.blocks
    blocks.stack.head? = some 0 ∧ blocks.stack.Pairwise (· < ·) ∧
      (∀ width ∈ blocks.misaligned, ∀ top ∈ blocks.stack.getLast?, top < width) ∧
      openings handed = closings handed + (blocks.stack.length - 1) + blocks.owed ∧
      (∀ front, front <+: handed → closings front ≤ openings front) ∧
      (∀ front, front ++ [.endOfInput] <+: handed → openings front = closings front) ∧
      ∀ (met : Indentation) (measured : Nat) (aligned : Bool),
        (met.meet measured).1 = .shallower aligned →
          (met.meet measured).2.owed + 1 + (met.meet measured).2.stack.length =
            met.stack.length := by
  intro handed blocks
  obtain ⟨formed, -⟩ := accounts_calls file source settings
  refine ⟨rfl, formed.stack_increases, ?_, ?_, ?_, ?_, ?_⟩
  · intro width member top isTop
    rw [Indentation.stack_top] at isTop
    cases isTop
    exact formed.misaligned width member
  · have counted := (accounts_calls file source settings).2
    rw [List.map_map, Indentation.unclosed] at counted
    rw [Indentation.length_stack, Nat.add_sub_cancel, Nat.add_assoc]
    exact counted
  · intro front first
    obtain ⟨fewer, -, counted⟩ := accounts_front file source settings first
    omega
  · intro front first
    obtain ⟨fewer, shown, counted⟩ := accounts_front file source settings first
    have ended : (reader.calls file fewer (Lexer.start source)).2.Ended := by
      apply calls_ended
      rw [shown, List.getLast?_concat]
    rw [ended.unclosed] at counted
    simpa [openings, closings] using counted
  · intro met measured aligned closes
    have counted := Indentation.owed_meet closes
    rw [Indentation.length_stack, Indentation.length_stack]
    omega

end Offside.Python
