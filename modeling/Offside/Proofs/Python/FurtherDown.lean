import Offside.Proofs.Python.Lines

/-!
Python texts that stand further down. The lexer makes the same moves in such a text, and all that it hands
out stands further down as well. All that a token brings about is located where the token starts, which is
behind the blanks at the place of the lexer.
-/

namespace Offside

set_option autoImplicit false

open Lexical

namespace Python

namespace Lexer

variable {lexer : Lexer} {other cursor : Cursor} {lines : Nat} {file : FileId}

/-- Two moves hand out the same token, the second of them further down, and lead to states that differ in
their cursors alone. -/
structure MovesBelow (lines : Nat) (upper lower : Move Lexer) : Prop where
  item : lower.item = upper.item.map (Lexed.down lines)
  state : lower.state = { upper.state with cursor := lower.state.cursor }
  cursor : Cursor.Below lines upper.state.cursor lower.state.cursor

theorem MovesBelow.pass {upper lower : Move Lexer} (below : MovesBelow lines upper lower)
    (silent : upper.item = none) :
    lower = .pass { upper.state with cursor := lower.state.cursor } := by
  have item := below.item
  rw [silent] at item
  rw [← below.state, Move.pass, ← show lower.item = none from item]

theorem MovesBelow.emit {upper lower : Move Lexer} (below : MovesBelow lines upper lower) {item : Lexed}
    (handed : upper.item = some item) :
    lower = .emit (item.down lines) { upper.state with cursor := lower.state.cursor } := by
  have found := below.item
  rw [handed] at found
  rw [← below.state, Move.emit, ← show lower.item = some (item.down lines) from found]

theorem movesBelow_pass (lexer : Lexer) (below : Cursor.Below lines lexer.cursor other) :
    MovesBelow lines (.pass lexer) (.pass { lexer with cursor := other }) where
  item := rfl
  state := rfl
  cursor := below

theorem movesBelow_emit (lexer : Lexer) (below : Cursor.Below lines lexer.cursor other)
    {item found : Lexed} (same : found = item.down lines) :
    MovesBelow lines (.emit item lexer) (.emit found { lexer with cursor := other }) where
  item := congrArg some same
  state := rfl
  cursor := below

theorem lexed_below (below : Cursor.Below lines cursor other) (scan : Scan) (text : List Char) :
    scan.lexed file other text = (scan.lexed file cursor text).down lines := by
  simp only [Scan.lexed, Lexed.down, spanAhead_below below, below.position, List.map_map,
    List.map_cons, List.map_nil]
  rfl

theorem here_below (below : Cursor.Below lines lexer.cursor other) :
    ({ lexer with cursor := other } : Lexer).here file = (lexer.here file).down lines := by
  rw [here, here, Span.point, Span.point, below.position]
  rfl

theorem commentItem_below (below : Cursor.Below lines cursor other) :
    commentItem file other = (commentItem file cursor).down lines := by
  rw [commentItem, commentItem, below.ahead]
  exact lexed_below below _ _

theorem afterComment_below (below : Cursor.Below lines cursor other) :
    Cursor.Below lines (afterComment cursor) (afterComment other) := by
  rw [afterComment, afterComment, below.ahead]
  exact below.skip _

theorem startsWith_below (below : Cursor.Below lines cursor other) (character : Char) :
    other.startsWith character = cursor.startsWith character := by
  rw [Cursor.startsWith, Cursor.startsWith, below.ahead]

theorem moveAtLineStart_below (below : Cursor.Below lines lexer.cursor other) :
    MovesBelow lines (lexer.moveAtLineStart file)
      (({ lexer with cursor := other } : Lexer).moveAtLineStart file) := by
  have skipped := below.skipWhile Cursor.isIndentation
  simp only [moveAtLineStart]
  generalize lexer.cursor.skipWhile Cursor.isIndentation = cursor at skipped ⊢
  generalize other.skipWhile Cursor.isIndentation = after at skipped ⊢
  have further := afterComment_below skipped
  simp only [skipped.ahead, startsWith_below skipped, skipped.indentation, further.ahead]
  split
  · exact movesBelow_pass _ skipped
  · split
    · exact movesBelow_pass _ (skipped.skip _)
    · split
      · exact movesBelow_emit _ (further.skip _) (commentItem_below skipped)
      · generalize lexer.blocks.meet cursor.indentation = met
        have level := @here_below { lexer with cursor, blocks := met.2, atLineStart := false } after
          lines file skipped
        obtain ⟨_ | _ | (_ | _), blocks⟩ := met
        · exact movesBelow_pass _ skipped
        · exact movesBelow_emit _ skipped (by simp [Lexed.silent, Lexed.down, level])
        · exact movesBelow_emit _ skipped (by simp [Lexed.down, level])
        · exact movesBelow_emit _ skipped (by simp [Lexed.silent, Lexed.down, level])

theorem moveAtEnd_below (lexer : Lexer) (below : Cursor.Below lines lexer.cursor other) :
    MovesBelow lines (lexer.moveAtEnd file)
      (({ lexer with cursor := other } : Lexer).moveAtEnd file) := by
  have here := @here_below lexer other lines file below
  unfold moveAtEnd
  cases lexer.blocks.widths with
  | nil => exact movesBelow_emit _ below (by simp [Lexed.silent, Lexed.down, here])
  | cons width outer =>
    exact movesBelow_emit { lexer with blocks := { lexer.blocks with widths := outer } } below
      (by simp [Lexed.silent, Lexed.down, here])

theorem moveAtLineFeed_below (lexer : Lexer) (below : Cursor.Below lines lexer.cursor other) :
    MovesBelow lines (lexer.moveAtLineFeed file)
      (({ lexer with cursor := other } : Lexer).moveAtLineFeed file) := by
  simp only [moveAtLineFeed, below.position]
  split
  · exact movesBelow_pass { lexer with cursor := lexer.cursor.advance } below.advance
  · split
    · exact movesBelow_emit { lexer with
        cursor := lexer.cursor.advance, atLineStart := true, lineHasTokens := false } below.advance rfl
    · exact movesBelow_pass { lexer with cursor := lexer.cursor.advance, atLineStart := true }
        below.advance

theorem moveAtToken_below (lexer : Lexer) (below : Cursor.Below lines lexer.cursor other) :
    MovesBelow lines (lexer.moveAtToken file)
      (({ lexer with cursor := other } : Lexer).moveAtToken file) := by
  simp only [moveAtToken, below.ahead]
  generalize scan lexer.cursor.ahead = scan
  exact movesBelow_emit { lexer with
    cursor := lexer.cursor.skip (scan.width + scan.absorbed)
    depth := depthAfter lexer.depth scan.token
    atLineStart := decide (0 < scan.absorbed) && lexer.depth == 0
    lineHasTokens := !(decide (0 < scan.absorbed) && lexer.depth == 0) } (below.skip _)
    (lexed_below below _ _)

theorem moveInLine_below (below : Cursor.Below lines lexer.cursor other) :
    MovesBelow lines (lexer.moveInLine file)
      (({ lexer with cursor := other } : Lexer).moveInLine file) := by
  have skipped := below.skipWhile isBlankInLine
  simp only [moveInLine]
  generalize lexer.cursor.skipWhile isBlankInLine = cursor at skipped ⊢
  generalize other.skipWhile isBlankInLine = after at skipped ⊢
  simp only [skipped.ahead, startsWith_below skipped]
  split
  · exact moveAtEnd_below { lexer with cursor } skipped
  · split
    · exact movesBelow_emit { lexer with cursor := afterComment cursor } (afterComment_below skipped)
        (commentItem_below skipped)
    · split
      · exact moveAtLineFeed_below { lexer with cursor } skipped
      · split
        · exact movesBelow_pass { lexer with cursor := cursor.skip _ } (skipped.skip _)
        · exact moveAtToken_below { lexer with cursor } skipped

theorem move_below (file : FileId) (below : Cursor.Below lines lexer.cursor other) :
    MovesBelow lines (lexer.move file) (({ lexer with cursor := other } : Lexer).move file) := by
  simp only [move]
  split
  · exact movesBelow_emit
      { lexer with blocks := { lexer.blocks with owed := lexer.blocks.owed - 1 } } below
      (by simp [Lexed.silent, Lexed.down, @here_below lexer other lines file below])
  · split
    · exact moveAtLineStart_below below
    · exact moveInLine_below below

theorem isFinal_down (lines : Nat) (item : Lexed) : (item.down lines).isFinal = item.isFinal := rfl

theorem items_below (file : FileId) (lexer : Lexer) (other : Cursor)
    (below : Cursor.Below lines lexer.cursor other) :
    reader.items file { lexer with cursor := other } =
      (reader.items file lexer).map (Lexed.down lines) := by
  have step {lexer : Lexer} {other : Cursor} (below : Cursor.Below lines lexer.cursor other) :=
    move_below file below
  fun_induction Reader.items reader file lexer generalizing other with
  | case1 lexer silent lower induction =>
    rw [Reader.items_of_pass ((step below).pass silent)]
    exact induction _ (step below).cursor
  | case2 lexer item handed final =>
    rw [Reader.items_of_final ((step below).emit handed) (by rw [isFinal_down, final]), List.map_singleton]
  | case3 lexer item handed goesOn lower induction =>
    have inner : (item.down lines).isFinal = false := by
      rw [isFinal_down]
      simpa using goesOn
    rw [Reader.items_of_emit ((step below).emit handed) inner, List.map_cons]
    exact congrArg _ (induction _ (step below).cursor)

/-! Where tokens start. -/

structure StartsAt (place : Position) (item : Lexed) : Prop where
  span : item.span.start = place
  reports : ∀ report ∈ item.reports, report.span.start = place
  entries : ∀ entry ∈ item.entries, entry.place = place

/-- The item of a move starts where the cursor stands behind some characters of its line. -/
def StartsInLine (cursor : Cursor) (move : Move Lexer) : Prop :=
  ∃ accepts : Char → Bool, accepts '\n' = false ∧
    ∀ item ∈ move.item, StartsAt (cursor.skipWhile accepts).position item

theorem startsAt_silent (token : Token) (lexer : Lexer) :
    StartsAt lexer.cursor.position (.silent token (lexer.here file)) :=
  ⟨rfl, nofun, nofun⟩

theorem startsAt_lexed (scan : Scan) (text : List Char) :
    StartsAt cursor.position (scan.lexed file cursor text) where
  span := rfl
  reports := by
    intro report member
    obtain ⟨defect, -, rfl⟩ := List.mem_map.1 member
    rfl
  entries := by
    intro entry member
    rw [List.mem_singleton.1 member]

theorem moveAtLineStart_starts : StartsInLine lexer.cursor (lexer.moveAtLineStart file) := by
  refine ⟨Cursor.isIndentation, by decide, ?_⟩
  simp only [moveAtLineStart]
  generalize lexer.cursor.skipWhile Cursor.isIndentation = cursor
  split
  · rintro _ ⟨⟩
  · split
    · rintro _ ⟨⟩
    · split
      · rintro _ ⟨⟩
        exact startsAt_lexed _ _
      · generalize lexer.blocks.meet cursor.indentation = met
        have level := fun token => @startsAt_silent file token
          { lexer with cursor, blocks := met.2, atLineStart := false }
        obtain ⟨_ | _ | (_ | _), blocks⟩ := met
        · rintro _ ⟨⟩
        · rintro _ ⟨⟩
          exact level _
        · rintro _ ⟨⟩
          exact ⟨rfl, by simp [here, Span.point], by rintro _ ⟨⟩⟩
        · rintro _ ⟨⟩
          exact level _

theorem moveInLine_starts : StartsInLine lexer.cursor (lexer.moveInLine file) := by
  refine ⟨isBlankInLine, by decide, ?_⟩
  simp only [moveInLine]
  generalize lexer.cursor.skipWhile isBlankInLine = cursor
  split
  · unfold moveAtEnd
    split
    · rintro _ ⟨⟩
      exact startsAt_silent _ { lexer with cursor }
    · rintro _ ⟨⟩
      exact startsAt_silent _ { lexer with cursor }
  · split
    · rintro _ ⟨⟩
      exact startsAt_lexed _ _
    · split
      · simp only [moveAtLineFeed]
        split
        · rintro _ ⟨⟩
        · split
          · rintro _ ⟨⟩
            exact ⟨rfl, by rintro _ ⟨⟩, by rintro _ ⟨⟩⟩
          · rintro _ ⟨⟩
      · split
        · rintro _ ⟨⟩
        · rintro _ ⟨⟩
          exact startsAt_lexed _ _

theorem move_starts (file : FileId) (lexer : Lexer) : StartsInLine lexer.cursor (lexer.move file) := by
  simp only [move]
  split
  · refine ⟨fun _ => false, rfl, ?_⟩
    rintro _ ⟨⟩
    have still : lexer.cursor.skipWhile (fun _ => false) = lexer.cursor := by
      cases found : lexer.cursor.ahead <;> simp [Cursor.skipWhile, found, Cursor.skip]
    rw [still]
    exact startsAt_silent _ lexer
  · split
    · exact moveAtLineStart_starts
    · exact moveInLine_starts

/-- Whatever is handed out from here on starts here or further on. -/
theorem items_start (file : FileId) (lexer : Lexer) : ∀ item ∈ reader.items file lexer,
    ∃ place, lexer.cursor.position ≤ place ∧ StartsAt place item := by
  have own : ∀ lexer : Lexer, ∀ item ∈ (lexer.move file).item,
      ∃ place, lexer.cursor.position ≤ place ∧ StartsAt place item := by
    intro lexer item member
    obtain ⟨accepts, -, starts⟩ := move_starts file lexer
    exact ⟨_, Cursor.position_le_skip _ _, starts item member⟩
  have reached : ∀ lexer : Lexer, lexer.cursor.position ≤ (lexer.move file).state.cursor.position := by
    intro lexer
    obtain ⟨count, moved⟩ := move_reaches file lexer
    rw [moved]
    exact Cursor.position_le_skip _ _
  fun_induction Reader.items reader file lexer with
  | case1 lexer silent lower induction =>
    intro item member
    obtain ⟨place, behind, starts⟩ := induction item member
    exact ⟨place, Position.le_trans (reached lexer) behind, starts⟩
  | case2 lexer item handed final =>
    simp only [List.mem_singleton, forall_eq]
    exact own lexer item handed
  | case3 lexer item handed goesOn lower induction =>
    rw [List.forall_mem_cons]
    refine ⟨own lexer item handed, fun item member => ?_⟩
    obtain ⟨place, behind, starts⟩ := induction item member
    exact ⟨place, Position.le_trans (reached lexer) behind, starts⟩

end Lexer

end Python

end Offside
